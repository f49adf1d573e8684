import AddonBundle.Decimal.Shortest
import AddonBundle.Json.Value
/-!
# Writing JSON

Three layouts: minimal, without blanks and with every character that need not be escaped as it
is; one line with escapes for everything beyond ASCII; and indented, with such escapes.
-/

namespace AddonBundle.Json

/-- The two-character escape of a code point that has one. -/
def shortEscape? (n : Nat) : Option Char :=
  if n = 34 then some '"'
  else if n = 92 then some '\\'
  else if n = 8 then some 'b'
  else if n = 12 then some 'f'
  else if n = 10 then some 'n'
  else if n = 13 then some 'r'
  else if n = 9 then some 't'
  else none

/-- An escape by number. -/
def unitEscape (n : Nat) : Text :=
  "\\u".toList ++ Text.hex 4 n

/-- A code point inside a string: quotes, backslashes and controls are escaped. -/
def escapePoint (p : CodePoint) : CodeText :=
  match shortEscape? p.val with
  | some c => CodePoint.ofText ['\\', c]
  | none => if p.val < 32 then CodePoint.ofText (unitEscape p.val) else [p]

/-- A string in quotes. -/
def minimalString (s : CodeText) : CodeText :=
  CodePoint.ofText ['"'] ++ s.flatMap escapePoint ++ CodePoint.ofText ['"']

mutual

/-- A value without blanks. -/
def minimal : Value → CodeText
  | .null => CodePoint.ofText "null".toList
  | .bool true => CodePoint.ofText "true".toList
  | .bool false => CodePoint.ofText "false".toList
  | .int n => CodePoint.ofText (Text.ofInt n)
  | .double d => CodePoint.ofText d.text
  | .string s => minimalString s
  | .array items => CodePoint.ofText ['['] ++ minimalItems items ++ CodePoint.ofText [']']
  | .object members =>
    CodePoint.ofText ['\x7b'] ++ minimalMembers members ++ CodePoint.ofText ['\x7d']

/-- Items with commas between them. -/
def minimalItems : List Value → CodeText
  | [] => []
  | [item] => minimal item
  | item :: items => minimal item ++ CodePoint.ofText [','] ++ minimalItems items

/-- Members with commas between them. -/
def minimalMembers : List (CodeText × Value) → CodeText
  | [] => []
  | [(name, value)] => minimalString name ++ CodePoint.ofText [':'] ++ minimal value
  | (name, value) :: members =>
    minimalString name ++ CodePoint.ofText [':'] ++ minimal value ++ CodePoint.ofText [','] ++
      minimalMembers members

end

/-- A code point inside a string of ASCII characters; beyond the basic plane it takes a pair of
escapes. -/
def asciiPoint (p : CodePoint) : Text :=
  match shortEscape? p.val with
  | some c => ['\\', c]
  | none =>
    if 32 ≤ p.val && p.val < 127 then [Char.ofNat p.val]
    else if p.val < 0x10000 then unitEscape p.val
    else
      let n := p.val - 0x10000
      unitEscape (0xd800 + n / 0x400) ++ unitEscape (0xdc00 + n % 0x400)

/-- A string of ASCII characters in quotes. -/
def asciiString (s : CodeText) : Text :=
  '"' :: s.flatMap asciiPoint ++ ['"']

mutual

/-- A value on one line. -/
def ascii : Value → Text
  | .null => "null".toList
  | .bool true => "true".toList
  | .bool false => "false".toList
  | .int n => Text.ofInt n
  | .double d => d.text
  | .string s => asciiString s
  | .array items => '[' :: asciiItems items ++ [']']
  | .object members => '\x7b' :: asciiMembers members ++ ['\x7d']

/-- Items on one line. -/
def asciiItems : List Value → Text
  | [] => []
  | [item] => ascii item
  | item :: items => ascii item ++ ", ".toList ++ asciiItems items

/-- Members on one line. -/
def asciiMembers : List (CodeText × Value) → Text
  | [] => []
  | [(name, value)] => asciiString name ++ ": ".toList ++ ascii value
  | (name, value) :: members =>
    asciiString name ++ ": ".toList ++ ascii value ++ ", ".toList ++ asciiMembers members

end

/-- A line break and the indentation of a depth. -/
def newline (depth : Nat) : Text :=
  '\n' :: List.replicate (2 * depth) ' '

mutual

/-- A value over several lines, two blanks per depth. -/
def indented (depth : Nat) : Value → Text
  | .array [] => "[]".toList
  | .array items => '[' :: indentedItems (depth + 1) items ++ newline depth ++ [']']
  | .object [] => "\x7b\x7d".toList
  | .object members =>
    '\x7b' :: indentedMembers (depth + 1) members ++ newline depth ++ ['\x7d']
  | .null => "null".toList
  | .bool true => "true".toList
  | .bool false => "false".toList
  | .int n => Text.ofInt n
  | .double d => d.text
  | .string s => asciiString s

/-- Items on lines of their own. -/
def indentedItems (depth : Nat) : List Value → Text
  | [] => []
  | [item] => newline depth ++ indented depth item
  | item :: items => newline depth ++ indented depth item ++ [','] ++ indentedItems depth items

/-- Members on lines of their own. -/
def indentedMembers (depth : Nat) : List (CodeText × Value) → Text
  | [] => []
  | [(name, value)] => newline depth ++ asciiString name ++ ": ".toList ++ indented depth value
  | (name, value) :: members =>
    newline depth ++ asciiString name ++ ": ".toList ++ indented depth value ++ [','] ++
      indentedMembers depth members

end

end AddonBundle.Json
