import AddonBundle.Limit
import AddonBundle.Toml.Scalar
/-!
# Reading TOML values

Arrays may run over several lines and hold comments; tables between braces stay on one line. The
digits of an integer in base ten are limited, and so is the nesting of arrays and tables.
-/

namespace AddonBundle.Toml

open Text

/-- Why a text gives no document. -/
inductive Problem where
  | malformed
  | limit (passed : Limit)
deriving Repr, DecidableEq

/-- What was found, or nothing that is well formed. -/
def found? {α : Type} (found : Option α) : Except Problem α :=
  match found with
  | some a => .ok a
  | none => .error .malformed

/-- Characters of a key that needs no quotes. -/
def isBareKey (c : Char) : Bool :=
  ('a' ≤ c && c ≤ 'z') || ('A' ≤ c && c ≤ 'Z') || isDecimal c || c = '-' || c = '_'

/-- One part of a key, and what follows. -/
def keyPart (text : Text) : Option (Text × Text) :=
  let bare := text.takeWhile isBareKey
  if bare.isEmpty then lineString text else some (bare, text.drop bare.length)

/-- A dotted key, and what follows it and the blanks behind it. The first argument bounds the
number of parts. -/
def keyFrom : Nat → Text → Option (Key × Text)
  | 0, _ => none
  | more + 1, text =>
    match keyPart text with
    | none => none
    | some (part, rest) =>
      match rest.dropWhile isSpace with
      | '.' :: behind =>
        (fun found => (part :: found.1, found.2)) <$> keyFrom more (behind.dropWhile isSpace)
      | behind => some ([part], behind)

/-- A dotted key, and what follows. -/
def keyAt (text : Text) : Option (Key × Text) :=
  keyFrom (text.length + 1) text

/-- What follows a comment at the start of a text, if there is one; nothing when the comment holds
a control character. -/
def afterComment (text : Text) : Option Text :=
  match text with
  | '#' :: rest =>
    let comment := rest.takeWhile (· ≠ '\n')
    if comment.any isControl then none else some (rest.drop comment.length)
  | _ => some text

/-- What follows blanks, line ends and comments. The first argument bounds their number. -/
def afterGaps : Nat → Text → Option Text
  | 0, text => some text
  | more + 1, text =>
    match afterComment (text.dropWhile isSpaceOrLine) with
    | none => none
    | some rest => if rest.length = text.length then some rest else afterGaps more rest

/-- What follows blanks, line ends and comments. -/
def skipGaps (text : Text) : Option Text :=
  afterGaps (text.length + 1) text

/-- Sets a key inside a table between braces. A container set before may not be extended. -/
def setInline (frozen : List Key) (key : Key) (value : Value) (table : Table) : Option Table :=
  if frozen.any (·.isPrefixOf key) then none
  else updateAt false (setNew (key.getLast?.getD []) value) key.dropLast table

/-- The room that an array takes out of what is left for nesting. -/
def arrayRoom : Nat := 2

/-- The room that a table between braces takes. -/
def tableRoom : Nat := 3

/-- The room that there is for nesting. -/
def nestingRoom : Nat := Limit.maxNesting

/-- The limit that an integer written as a text passes, if it does. -/
def limitOf? (value : Value) (written : Text) : Option Limit :=
  match value with
  | .int _ =>
    if (basedInteger written).isSome then none else Limit.ofDigits? (written.filter isDecimal)
  | _ => none

/-- A value that is neither an array nor a table, and what follows. -/
def plainValue (text : Text) : Except Problem (Value × Text) :=
  match stringAt text with
  | some (s, rest) => .ok (.string s, rest)
  | none =>
    match after? "true".toList text, after? "false".toList text with
    | some rest, _ => .ok (.bool true, rest)
    | _, some rest => .ok (.bool false, rest)
    | none, none => do
      let (value, rest) ← found? (scalarAt text)
      match limitOf? value (upTo text rest) with
      | some limit => .error (.limit limit)
      | none => .ok (value, rest)

mutual

/-- A value, and what follows. The first argument bounds the steps, the second is the room left for
nesting. -/
def valueFrom : Nat → Nat → Text → Except Problem (Value × Text)
  | 0, _, _ => .error .malformed
  | more + 1, room, text =>
    match text with
    | '[' :: rest =>
      if room < arrayRoom then .error (.limit .nesting)
      else
        match skipGaps rest with
        | none => .error .malformed
        | some (']' :: rest) => .ok (.array [], rest)
        | some rest =>
          (fun found => (.array found.1, found.2)) <$> itemsFrom more (room - arrayRoom) rest
    | '\x7b' :: rest =>
      if room < tableRoom then .error (.limit .nesting)
      else
        match rest.dropWhile isSpace with
        | '\x7d' :: rest => .ok (.table [], rest)
        | rest =>
          (fun found => (.table found.1, found.2)) <$>
            entriesFrom more (room - tableRoom) [] [] rest
    | _ => plainValue text

/-- The items of an array from the first one on, and what follows the closing bracket. -/
def itemsFrom : Nat → Nat → Text → Except Problem (List Value × Text)
  | 0, _, _ => .error .malformed
  | more + 1, room, text =>
    match valueFrom more room text with
    | .error problem => .error problem
    | .ok (value, rest) =>
      match skipGaps rest with
      | some (']' :: rest) => .ok ([value], rest)
      | some (',' :: rest) =>
        match skipGaps rest with
        | some (']' :: rest) => .ok ([value], rest)
        | some rest => (fun found => (value :: found.1, found.2)) <$> itemsFrom more room rest
        | none => .error .malformed
      | _ => .error .malformed

/-- The entries of a table between braces, after those read before and with the containers among
them, and what follows the closing brace. -/
def entriesFrom : Nat → Nat → List Key → Table → Text → Except Problem (Table × Text)
  | 0, _, _, _, _ => .error .malformed
  | more + 1, room, frozen, table, text =>
    match keyAt text with
    | some (key, '=' :: rest) =>
      match valueFrom more room (rest.dropWhile isSpace) with
      | .error problem => .error problem
      | .ok (value, rest) =>
        match setInline frozen key value table with
        | none => .error .malformed
        | some table =>
          match rest.dropWhile isSpace with
          | '\x7d' :: rest => .ok (table, rest)
          | ',' :: rest =>
            let frozen := if value.isContainer then key :: frozen else frozen
            entriesFrom more room frozen table (rest.dropWhile isSpace)
          | _ => .error .malformed
    | _ => .error .malformed

end

/-- A key and its value, and what follows. -/
def pairAt (text : Text) : Except Problem (Key × Value × Text) :=
  match keyAt text with
  | some (key, '=' :: rest) =>
    let rest := rest.dropWhile isSpace
    (fun found => (key, found.1, found.2)) <$> valueFrom (2 * rest.length + 2) nestingRoom rest
  | _ => .error .malformed

end AddonBundle.Toml
