import AddonBundle.Assoc
import AddonBundle.Fault
import AddonBundle.Text.Piece
import AddonBundle.Text.Word
/-!
# Variables of stylesheets

`$name: value;` defines a variable from there on and is removed; `$name` and `$(name)` stand for
its value. A value may use variables, which are replaced when it is defined.
-/

namespace AddonBundle.Stylesheet

open Text

/-- A definition or a use. -/
inductive VariableToken where
  | define (name value : Text)
  | use (name : Text)
deriving Repr, DecidableEq

/-- The value of a definition from behind its colon, and what follows its semicolon. It is
trimmed, except that blanks only stand for the last of them. -/
def definedValue (text : Text) : Option (Text × Text) :=
  let value := text.takeWhile fun c => c ≠ ';' && c ≠ '\x7b' && c ≠ '\x7d'
  match text.drop value.length with
  | ';' :: rest =>
    if value.isEmpty then none
    else if value.all isBlank then some (value.drop (value.length - 1), rest)
    else some (trim value, rest)
  | _ => none

/-- A definition from behind the dollar sign: name, value, and what follows. -/
def definitionAt (text : Text) : Option (Text × Text × Text) := do
  let name := text.takeWhile isName
  if name.isEmpty then none
  else
    let rest ← after? [':'] ((text.drop name.length).dropWhile isBlank)
    let (value, rest) ← definedValue rest
    some (name, value, rest)

/-- A use from behind the dollar sign: name, and what follows. -/
def useAt (text : Text) : Option (Text × Text) :=
  match text with
  | '(' :: inside =>
    let name := inside.takeWhile isName
    if name.isEmpty then none
    else (fun rest => (name, rest)) <$> after? [')'] (inside.drop name.length)
  | _ =>
    let name := text.takeWhile isName
    if name.isEmpty then none else some (name, text.drop name.length)

/-- Recognises definitions and, where there is none, uses. -/
def recogniseVariable : Recogniser VariableToken := fun _ text =>
  match text with
  | '$' :: rest =>
    match definitionAt rest with
    | some (name, value, behind) => some (.define name value, text.length - behind.length)
    | none =>
      (fun found => (.use found.1, text.length - found.2.length)) <$> useAt rest
  | _ => none

/-- The variables defined so far. -/
abbrev Scope := List (Text × Text)

/-- Replaces the uses among pieces. A name without a value is given instead. -/
def substituteUses (scope : Scope) : List (Piece VariableToken) → Except Text Text
  | [] => .ok []
  | .plain c :: rest => (c :: ·) <$> substituteUses scope rest
  | .item (.use name) _ :: rest =>
    match Assoc.get? name scope with
    | none => .error name
    | some value => (value ++ ·) <$> substituteUses scope rest
  | .item (.define _ _) text :: rest => (text ++ ·) <$> substituteUses scope rest

/-- Replaces uses and removes definitions in order. -/
def substitutePieces (scope : Scope) : List (Piece VariableToken) → Except Text Text
  | [] => .ok []
  | .plain c :: rest => (c :: ·) <$> substitutePieces scope rest
  | .item (.use name) _ :: rest =>
    match Assoc.get? name scope with
    | none => .error name
    | some value => (value ++ ·) <$> substitutePieces scope rest
  | .item (.define name value) _ :: rest =>
    match substituteUses scope (pieces recogniseVariable value) with
    | .error undefined => .error undefined
    | .ok value => substitutePieces (Assoc.put name value scope) rest

/-- The text without definitions and with all uses replaced. The path is the one a fault names. -/
def substituteVariables (scope : Scope) (path : Option Text) (text : Text) : Except Fault Text :=
  match substitutePieces scope (pieces recogniseVariable text) with
  | .ok text => .ok text
  | .error name => .error (.variableUndefined name path)

end AddonBundle.Stylesheet
