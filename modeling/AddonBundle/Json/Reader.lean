import AddonBundle.Json.Value
import AddonBundle.Limit
import AddonBundle.Text.Lines
/-!
# Reading JSON

Values are read from left to right and the first fault is reported with its place. Besides the
standard's grammar the words `NaN`, `Infinity` and `-Infinity` are numbers. A number with a
fraction or an exponent is the nearest double; the digits of any other number are limited, and so
is the nesting of arrays and objects. Of several members of one name the last value stands at the
first place.
-/

namespace AddonBundle.Json

/-- What is wrong with a text that is no JSON. -/
inductive Problem where
  | byteOrderMark
  | expectingValue
  | expectingName
  | expectingColon
  | expectingComma
  | extraData
  | unterminatedString
  | invalidControl
  | invalidEscape
  | invalidUnicodeEscape
deriving Repr, DecidableEq

/-- The wording of a problem. -/
def Problem.message : Problem → Text
  | .byteOrderMark => "Unexpected UTF-8 BOM (decode using utf-8-sig)".toList
  | .expectingValue => "Expecting value".toList
  | .expectingName => "Expecting property name enclosed in double quotes".toList
  | .expectingColon => "Expecting ':' delimiter".toList
  | .expectingComma => "Expecting ',' delimiter".toList
  | .extraData => "Extra data".toList
  | .unterminatedString => "Unterminated string starting at".toList
  | .invalidControl => "Invalid control character at".toList
  | .invalidEscape => "Invalid \\escape".toList
  | .invalidUnicodeEscape => "Invalid \\uXXXX escape".toList

/-- A problem and its offset. -/
structure Fault where
  problem : Problem
  offset : Nat
deriving Repr, DecidableEq

/-- The wording of a fault in a text. -/
def Fault.message (text : Text) (fault : Fault) : Text :=
  let place := Text.placeOf text fault.offset
  fault.problem.message ++ ": line ".toList ++ Text.ofNat place.line ++ " column ".toList ++
    Text.ofNat place.column ++ " (char ".toList ++ Text.ofNat fault.offset ++ ")".toList

/-- Why a text gives no value. -/
inductive ReadError where
  | malformed (fault : Fault)
  | limit (passed : Limit)
deriving Repr, DecidableEq

/-- The wording of an error in a text. -/
def ReadError.message (text : Text) : ReadError → Text
  | .malformed fault => fault.message text
  | .limit passed => passed.message

/-- The error of a problem at an offset. -/
def problemAt {α : Type} (problem : Problem) (offset : Nat) : Except ReadError α :=
  .error (.malformed ⟨problem, offset⟩)

/-- What remains to be read, and its offset. -/
structure Cursor where
  rest : Text
  pos : Nat
deriving Repr, DecidableEq

/-- Moves over some characters. -/
def Cursor.advance (at_ : Cursor) (n : Nat) : Cursor :=
  ⟨at_.rest.drop n, at_.pos + n⟩

/-- The blanks of JSON. -/
def isSpace (c : Char) : Bool :=
  c = ' ' || c = '\t' || c = '\n' || c = '\r'

/-- Moves over blanks. -/
def Cursor.skipSpace (at_ : Cursor) : Cursor :=
  at_.advance (at_.rest.takeWhile isSpace).length

/-- The number of four digits in base sixteen. -/
def hexUnit? (text : Text) : Option Nat := do
  match text with
  | [a, b, c, d] =>
    return (((← Text.hexDigit? a) * 16 + (← Text.hexDigit? b)) * 16 + (← Text.hexDigit? c)) * 16 +
      (← Text.hexDigit? d)
  | _ => none

/-- A code point by its number. -/
def pointOf (n : Nat) : CodePoint :=
  Fin.ofNat 0x110000 n

/-- Reads an escape from behind its backslash: the code point, and the number of characters that
the escape has there. The offset is the backslash's. -/
def readEscape (pos : Nat) (text : Text) : Except Fault (CodePoint × Nat) :=
  match text with
  | [] => .error ⟨.unterminatedString, pos⟩
  | 'u' :: rest =>
    if rest.length ≤ 4 then .error ⟨.invalidUnicodeEscape, pos + 1⟩
    else
      match hexUnit? (rest.take 4) with
      | none => .error ⟨.invalidUnicodeEscape, pos + 1⟩
      | some unit =>
        let behind := rest.drop 4
        if 0xd800 ≤ unit && unit ≤ 0xdbff && 7 ≤ behind.length &&
            "\\u".toList.isPrefixOf behind then
          match hexUnit? ((behind.drop 2).take 4) with
          | none => .error ⟨.invalidUnicodeEscape, pos + 7⟩
          | some low =>
            if 0xdc00 ≤ low && low ≤ 0xdfff then
              .ok (pointOf (0x10000 + (unit - 0xd800) * 0x400 + (low - 0xdc00)), 11)
            else .ok (pointOf unit, 5)
        else .ok (pointOf unit, 5)
  | c :: _ =>
    match c with
    | '"' => .ok (pointOf 34, 1)
    | '\\' => .ok (pointOf 92, 1)
    | '/' => .ok (pointOf 47, 1)
    | 'b' => .ok (pointOf 8, 1)
    | 'f' => .ok (pointOf 12, 1)
    | 'n' => .ok (pointOf 10, 1)
    | 'r' => .ok (pointOf 13, 1)
    | 't' => .ok (pointOf 9, 1)
    | _ => .error ⟨.invalidEscape, pos⟩

/-- Reads a string from behind its opening quote, which stands at the given offset. -/
def readString (opening : Nat) (at_ : Cursor) : Except Fault (CodeText × Cursor) :=
  match h : at_.rest with
  | [] => .error ⟨.unterminatedString, opening⟩
  | c :: rest =>
    if c = '"' then .ok ([], ⟨rest, at_.pos + 1⟩)
    else if c = '\\' then
      if rest.isEmpty then .error ⟨.unterminatedString, opening⟩
      else
        match readEscape at_.pos rest with
        | .error fault => .error fault
        | .ok (point, length) =>
          (fun r => (point :: r.1, r.2)) <$>
            readString opening ⟨rest.drop length, at_.pos + 1 + length⟩
    else if c.toNat ≤ 0x1f then .error ⟨.invalidControl, at_.pos⟩
    else
      (fun r => (CodePoint.ofChar c :: r.1, r.2)) <$> readString opening ⟨rest, at_.pos + 1⟩
termination_by at_.rest.length
decreasing_by
  all_goals simp only [h, List.length_cons, List.length_drop]; omega

/-- The decimal digits at the start. -/
def digitsAt (text : Text) : Text :=
  text.takeWhile Text.isDecimal

/-- The fraction at the start, with its point; nothing unless a digit follows the point. -/
def fractionAt (text : Text) : Text :=
  match text with
  | '.' :: rest => if (digitsAt rest).isEmpty then [] else '.' :: digitsAt rest
  | _ => []

/-- The exponent at the start; nothing unless it has a digit. -/
def exponentAt (text : Text) : Text :=
  match text with
  | c :: rest =>
    if c = 'e' || c = 'E' then
      let sign := match rest with
        | s :: _ => if s = '+' || s = '-' then [s] else []
        | [] => []
      let digits := digitsAt (rest.drop sign.length)
      if digits.isEmpty then [] else c :: sign ++ digits
    else []
  | [] => []

/-- The number that an exponent part denotes. -/
def exponentValue (exponent : Text) : Int :=
  match exponent with
  | _ :: '-' :: digits => -(Text.digitsValue 10 digits : Int)
  | _ :: '+' :: digits => Text.digitsValue 10 digits
  | _ :: digits => Text.digitsValue 10 digits
  | [] => 0

/-- The number at the start of a text, and how many characters it has. -/
def numberAt (text : Text) : Option (Value × Nat) :=
  let sign := if text.head? = some '-' then ['-'] else []
  let unsigned := text.drop sign.length
  let whole := if unsigned.head? = some '0' then ['0'] else digitsAt unsigned
  if whole.isEmpty then none
  else
    let behind := unsigned.drop whole.length
    let fraction := fractionAt behind
    let exponent := exponentAt (behind.drop fraction.length)
    let length := sign.length + whole.length + fraction.length + exponent.length
    if fraction.isEmpty && exponent.isEmpty then
      let n : Int := Text.digitsValue 10 whole
      some (.int (if sign.isEmpty then n else -n), length)
    else
      let digits := Text.digitsValue 10 (whole ++ fraction.drop 1)
      let scale := exponentValue exponent - (fraction.length - 1 : Nat)
      some (.double (Double.ofDecimal (!sign.isEmpty) digits scale), length)

/-- The words that are values. -/
def words : List (Text × Value) :=
  [("null".toList, .null), ("true".toList, .bool true), ("false".toList, .bool false),
    ("NaN".toList, .double Double.nan), ("Infinity".toList, .double Double.infinity),
    ("-Infinity".toList, .double Double.negInfinity)]

/-- A word or number at the start of a text, and how many characters it has. -/
def scalarAt (text : Text) : Option (Value × Nat) :=
  match words.find? fun w => w.1.isPrefixOf text with
  | some (word, value) => some (value, word.length)
  | none => numberAt text

/-- The limit that a value written as a text passes, if it does. -/
def limitOf? (value : Value) (written : Text) : Option Limit :=
  match value with
  | .int _ => Limit.ofDigits? (written.filter Text.isDecimal)
  | _ => none

/-- Reads a word or a number. -/
def readScalar (at_ : Cursor) : Except ReadError (Value × Cursor) :=
  match scalarAt at_.rest with
  | none => problemAt .expectingValue at_.pos
  | some (value, length) =>
    match limitOf? value (at_.rest.take length) with
    | some limit => .error (.limit limit)
    | none => .ok (value, at_.advance length)

mutual

/-- Reads a value. The first argument bounds the steps, the second is how many levels of nesting are
left. -/
def readValue : Nat → Nat → Cursor → Except ReadError (Value × Cursor)
  | 0, _, at_ => problemAt .expectingValue at_.pos
  | fuel + 1, levels, at_ =>
    match at_.rest, levels with
    | '"' :: _, _ =>
      match readString at_.pos (at_.advance 1) with
      | .error fault => .error (.malformed fault)
      | .ok (text, behind) => .ok (.string text, behind)
    | '[' :: _, 0 => .error (.limit .nesting)
    | '\x7b' :: _, 0 => .error (.limit .nesting)
    | '[' :: _, levels + 1 =>
      let inside := (at_.advance 1).skipSpace
      match inside.rest with
      | ']' :: _ => .ok (.array [], inside.advance 1)
      | _ => (fun r => (.array r.1, r.2)) <$> readItems fuel levels inside
    | '\x7b' :: _, levels + 1 =>
      let inside := (at_.advance 1).skipSpace
      match inside.rest with
      | '\x7d' :: _ => .ok (.object [], inside.advance 1)
      | _ => (fun r => (.object r.1, r.2)) <$> readMembers fuel levels [] inside
    | _, _ => readScalar at_

/-- Reads the items of an array from the first item to the closing bracket. -/
def readItems : Nat → Nat → Cursor → Except ReadError (List Value × Cursor)
  | 0, _, at_ => problemAt .expectingValue at_.pos
  | fuel + 1, levels, at_ =>
    match readValue fuel levels at_ with
    | .error error => .error error
    | .ok (value, behind) =>
      let behind := behind.skipSpace
      match behind.rest with
      | ']' :: _ => .ok ([value], behind.advance 1)
      | ',' :: _ =>
        (fun r => (value :: r.1, r.2)) <$> readItems fuel levels (behind.advance 1).skipSpace
      | _ => problemAt .expectingComma behind.pos

/-- Reads the members of an object from a name to the closing brace, after the members read
before. -/
def readMembers :
    Nat → Nat → List (CodeText × Value) → Cursor →
      Except ReadError (List (CodeText × Value) × Cursor)
  | 0, _, _, at_ => problemAt .expectingValue at_.pos
  | fuel + 1, levels, members, at_ =>
    match at_.rest with
    | '"' :: _ =>
      match readString at_.pos (at_.advance 1) with
      | .error fault => .error (.malformed fault)
      | .ok (name, behind) =>
        let behind := behind.skipSpace
        match behind.rest with
        | ':' :: _ =>
          match readValue fuel levels (behind.advance 1).skipSpace with
          | .error error => .error error
          | .ok (value, behind) =>
            let members := Assoc.put name value members
            let behind := behind.skipSpace
            match behind.rest with
            | '\x7d' :: _ => .ok (members, behind.advance 1)
            | ',' :: _ => readMembers fuel levels members (behind.advance 1).skipSpace
            | _ => problemAt .expectingComma behind.pos
        | _ => problemAt .expectingColon behind.pos
    | _ => problemAt .expectingName at_.pos

end

/-- Reads a text that holds one value. -/
def read (text : Text) : Except ReadError Value :=
  if text.head? = some '\ufeff' then problemAt .byteOrderMark 0
  else
    match readValue (2 * text.length + 2) Limit.maxNesting (Cursor.skipSpace ⟨text, 0⟩) with
    | .error error => .error error
    | .ok (value, behind) =>
      let behind := behind.skipSpace
      if behind.rest.isEmpty then .ok value else problemAt .extraData behind.pos

end AddonBundle.Json
