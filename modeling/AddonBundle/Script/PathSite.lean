import AddonBundle.Script.Library
/-!
# Paths computed at run time

A script computes the address of a file by appending an operand to `addon.self.dir` or
`addon.self.lib`. The operand extends to the first place at bracket depth zero, outside strings,
where the expression around it goes on: a separator, a line end, a closing bracket, or an
operator that binds less tightly than `+`.
-/

namespace AddonBundle.Script

open Text

/-- The mark of a template string. -/
def backquote : Char := '\x60'

/-- Where the scan of an operand stands: in code at a bracket depth, in a string that a mark will
end, or behind a backslash in such a string. -/
inductive OperandState where
  | code (depth : Nat)
  | string (mark : Char) (depth : Nat)
  | escaped (mark : Char) (depth : Nat)
deriving Repr, DecidableEq

/-- Whether an operand ends before this character, at bracket depth zero. -/
def endsOperand (c : Char) (next : Option Char) : Bool :=
  c = ';' || c = ',' || c = '?' || c = ':' || c = '\n' ||
    (c = '&' && next = some '&') || (c = '|' && next = some '|') ||
    (c = '=' && next = some '=') || (c = '!' && next = some '=')

/-- One step of the scan in code; nothing when the operand ends before the character. -/
def OperandState.codeStep (depth : Nat) (c : Char) (next : Option Char) :
    Option OperandState :=
  if c = '"' || c = '\'' || c = backquote then some (.string c depth)
  else if c = '(' || c = '[' || c = '\x7b' then some (.code (depth + 1))
  else if c = ')' || c = ']' || c = '\x7d' then
    if depth = 0 then none else some (.code (depth - 1))
  else if depth = 0 && endsOperand c next then none
  else some (.code depth)

/-- One step of the scan. A line end ends a string that is no template, and is then code. -/
def OperandState.step (state : OperandState) (c : Char) (next : Option Char) :
    Option OperandState :=
  match state with
  | .code depth => codeStep depth c next
  | .string mark depth =>
    if c = '\\' then some (.escaped mark depth)
    else if c = mark then some (.code depth)
    else if c = '\n' && mark ≠ backquote then codeStep depth c next
    else some (.string mark depth)
  | .escaped mark depth => some (.string mark depth)

/-- The characters of the operand at the start of a text, with blanks at its end. -/
def operandFrom (state : OperandState) : Text → Text
  | [] => []
  | c :: rest =>
    match state.step c rest.head? with
    | none => []
    | some state => c :: operandFrom state rest

/-- The operand at the start of a text. -/
def operand (text : Text) : Text :=
  trimEnd (operandFrom (.code 0) text)

/-- The directories that a script can compute paths from. -/
inductive PathRoot where
  | dir
  | lib
deriving Repr, DecidableEq

/-- How a script writes a root. -/
def PathRoot.text : PathRoot → Text
  | .dir => "addon.self.dir".toList
  | .lib => "addon.self.lib".toList

/-- A root at the start of a text, and what follows it. -/
def rootAt (text : Text) : Option (PathRoot × Text) :=
  match after? PathRoot.dir.text text with
  | some rest => some (.dir, rest)
  | none => (fun rest => (.lib, rest)) <$> after? PathRoot.lib.text text

/-- A computed path: its root and the operand appended to it. -/
structure PathExpression where
  root : PathRoot
  operand : Text
deriving Repr, DecidableEq

/-- Recognises a root, a `+` and an operand, which may be empty. -/
def recogniseSite : Recogniser PathExpression := fun _ text => do
  let (root, rest) ← rootAt text
  let rest ← afterPlus rest
  let appended := operand rest
  some (⟨root, appended⟩, text.length - rest.length + appended.length)

/-- The computed paths of a script that have an operand, in order. -/
def pathSites (text : Text) : List (Found PathExpression) :=
  (findAll recogniseSite text).filter fun found => !found.value.operand.isEmpty

/-- Whether a script mentions a root at all. -/
def mentionsRoot (text : Text) : Bool :=
  occursIn PathRoot.dir.text text || occursIn PathRoot.lib.text text

/-- The path that an operand denotes when it is a single string without escapes. -/
def literalPath (operand : Text) : Option Text :=
  match operand with
  | [] => none
  | quote :: rest =>
    let body := rest.dropLast
    if isQuote quote && rest.getLast? = some quote &&
        body.all (fun c => !isQuote c && c ≠ '\\') then some body
    else none

end AddonBundle.Script
