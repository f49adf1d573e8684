import AddonBundle.Stylesheet.Import
/-!
# Tokens of stylesheets

A stylesheet is read as a sequence of tokens. At each place the first kind of token that starts
there is taken, as long as it goes; a character that starts none is a token itself, and comments
are left out. A backslash in a name stands for the character whose code follows it, or takes the
next character into the name.
-/

namespace AddonBundle.Stylesheet

open Text

/-- How an attribute is compared. -/
inductive Comparison where
  | equals
  | includes
  | dashMatch
  | startsWith
  | endsWith
  | contains
deriving Repr, DecidableEq

/-- The text of a comparison. -/
def Comparison.text : Comparison → Text
  | .equals => "=".toList
  | .includes => "~=".toList
  | .dashMatch => "|=".toList
  | .startsWith => "^=".toList
  | .endsWith => "$=".toList
  | .contains => "*=".toList

/-- A token of a stylesheet. -/
inductive Token where
  | blank
  | identifier (name : Text)
  /-- A name with an opening parenthesis behind it. -/
  | function (name : Text)
  /-- A string by its value. -/
  | string (value : Text)
  /-- A number with its sign and its unit, as written. -/
  | number (text : Text)
  | hash (name : Text)
  /-- A name behind an at sign. -/
  | atWord
  | comparison (relation : Comparison)
  /-- The marks that hide a stylesheet inside another document. -/
  | hidingMark
  /-- What is no part of any selector: an address, a range of code points, a percentage, or a
  string that is not closed. -/
  | foreign
  | char (c : Char)
deriving Repr, DecidableEq

/-- The blanks between tokens. -/
def isGap (c : Char) : Bool :=
  c = ' ' || c = '\t' || c = '\n' || c = '\r' || c = '\x0c'

/-- The characters that end a line. -/
def isLineEnd (c : Char) : Bool :=
  c = '\n' || c = '\r' || c = '\x0c'

/-- Digits in base sixteen. -/
def isHexDigit (c : Char) : Bool :=
  (hexDigit? c).isSome

/-- Characters that an identifier may start with, hyphens aside. -/
def isIdentStart (c : Char) : Bool :=
  ('a' ≤ c && c ≤ 'z') || ('A' ≤ c && c ≤ 'Z') || c = '_' || 128 ≤ c.toNat

/-- Characters inside an identifier. -/
def isIdentChar (c : Char) : Bool :=
  isIdentStart c || isDecimal c || c = '-'

/-! ## Escapes -/

/-- A line end in front of a text: how many characters it has. -/
def lineEndLength (text : Text) : Nat :=
  match text with
  | '\r' :: '\n' :: _ => 2
  | c :: _ => if isLineEnd c then 1 else 0
  | [] => 0

/-- The code of a character from behind a backslash: at most six digits and one blank behind them.
The value and the number of characters. -/
def codeEscape (text : Text) : Option (Nat × Nat) :=
  let digits := (text.take 6).takeWhile isHexDigit
  let rest := text.drop digits.length
  let gap := if rest.head?.any isGap then max 1 (lineEndLength rest) else 0
  if digits.isEmpty then none else some (digitsValue 16 digits, digits.length + gap)

/-- The number of characters that a backslash in front of them takes into a name. -/
def escapeLength (text : Text) : Option Nat :=
  match codeEscape text with
  | some (_, length) => some length
  | none => if text.head?.any (!isLineEnd ·) then some 1 else none

/-- Recognises the code of a character with its backslash. -/
def recogniseCode : Recogniser Char := fun _ text =>
  match text with
  | '\\' :: rest => do
    let (code, length) ← codeEscape rest
    if code.isValidChar then some (Char.ofNat code, length + 1) else none
  | _ => none

/-- The text with the characters that codes in it stand for. -/
def decodeCodes (text : Text) : Text :=
  substitute recogniseCode (fun c => [c]) text

/-! ## Names, numbers and strings -/

/-- The number of characters in front of a text that belong to a name, when a number of them
belong to an escape before. -/
def nameLength : Nat → Text → Nat
  | _, [] => 0
  | skip + 1, _ :: rest => nameLength skip rest + 1
  | 0, c :: rest =>
    if isIdentChar c then nameLength 0 rest + 1
    else if c = '\\' then
      match escapeLength rest with
      | some skip => nameLength skip rest + 1
      | none => 0
    else 0

/-- The length of the identifier in front of a text: at most two hyphens, a character that starts
identifiers, and characters inside them. -/
def identLength (text : Text) : Option Nat :=
  let hyphens := (text.takeWhile (· = '-')).length
  match text.drop hyphens with
  | [] => none
  | c :: rest =>
    if hyphens ≤ 2 && (isIdentStart c || (c = '\\' && (escapeLength rest).isSome)) then
      some (hyphens + nameLength 0 (c :: rest))
    else none

/-- The length of the number in front of a text, without its unit. -/
def numberLength (text : Text) : Option Nat :=
  let sign := if text.head? = some '+' || text.head? = some '-' then 1 else 0
  let unsigned := text.drop sign
  let whole := (unsigned.takeWhile isDecimal).length
  let rest := unsigned.drop whole
  let fraction := ((rest.drop 1).takeWhile isDecimal).length
  if rest.head? = some '.' && fraction ≠ 0 then some (sign + whole + 1 + fraction)
  else if whole = 0 then none
  else some (sign + whole)

/-- The number of characters of a string from behind its opening mark up to the closing one, or to
where it breaks off. -/
def stringLength (mark : Char) : Nat → Text → Nat
  | _, [] => 0
  | skip + 1, _ :: rest => stringLength mark skip rest + 1
  | 0, c :: rest =>
    if c = mark || isLineEnd c then 0
    else if c = '\\' then
      match lineEndLength rest, escapeLength rest with
      | 0, none => 0
      | 0, some skip => stringLength mark skip rest + 1
      | skip, _ => stringLength mark skip rest + 1
    else stringLength mark 0 rest + 1

/-- The text without the line ends that a backslash hides. -/
def joinLines (text : Text) : Text :=
  substitute
    (fun _ text =>
      match text with
      | '\\' :: rest => if lineEndLength rest = 0 then none else some ((), lineEndLength rest + 1)
      | _ => none)
    (fun _ => []) text

/-- The text with each escaped mark as the mark alone. -/
def bareMarks (mark : Char) : Text → Text
  | [] => []
  | '\\' :: c :: rest =>
    if c = mark then mark :: bareMarks mark rest else '\\' :: bareMarks mark (c :: rest)
  | c :: rest => c :: bareMarks mark rest

/-- The value of a string from what stands between its marks. The closing mark counts as escaped
when a backslash stands before it. -/
def stringValue (mark : Char) (inside : Text) : Text :=
  (bareMarks mark (joinLines inside ++ [mark])).dropLast

/-! ## Recognising tokens -/

/-- The string in front of a text, and its length. -/
def recogniseString : Recogniser Token := fun _ text =>
  match text with
  | [] => none
  | mark :: rest =>
    if isMark mark then
      let length := stringLength mark 0 rest
      if (rest.drop length).head? = some mark then
        some (.string (stringValue mark (rest.take length)), length + 2)
      else some (.foreign, length + 1)
    else none

/-- Characters of an address that stands without marks. -/
def isAddressChar (c : Char) : Bool :=
  c = '\t' || c = '!' || ('#' ≤ c && c ≤ '&') || c = '(' || ('*' ≤ c && c ≤ '~') ||
    128 ≤ c.toNat

/-- The length of an address in front of a text, from `url(` to its closing parenthesis. -/
def addressLength (text : Text) : Option Nat :=
  let start := (text.take 4).map Char.toLower
  let inside := (text.drop 4).dropWhile isGap
  let behind :=
    match recogniseString none inside with
    | some (.string _, length) => inside.drop length
    | _ => inside.dropWhile isAddressChar
  let behind := behind.dropWhile isGap
  if start = "url(".toList && behind.head? = some ')' then some (text.length - behind.length + 1)
  else none

/-- The length of a range of code points in front of a text, such as `U+26`. -/
def codeRangeLength (text : Text) : Option Nat :=
  match text with
  | c :: '+' :: rest =>
    let first := ((rest.take 6).takeWhile fun d => isHexDigit d || d = '?').length
    let last :=
      match rest.drop first with
      | '-' :: rest => ((rest.take 6).takeWhile isHexDigit).length
      | _ => 0
    if (c = 'u' || c = 'U') && first ≠ 0 then
      some (2 + first + if last = 0 then 0 else last + 1)
    else none
  | _ => none

/-- A function or an identifier in front of a text, and its length. -/
def recogniseName : Recogniser Token := fun _ text => do
  let length ← identLength text
  let name := decodeCodes (text.take length)
  if (text.drop length).head? = some '(' then some (.function name, length + 1)
  else some (.identifier name, length)

/-- A number in front of a text with its unit, and its length. -/
def recogniseNumber : Recogniser Token := fun _ text => do
  let length ← numberLength text
  let rest := text.drop length
  match identLength rest with
  | some unit => some (.number (decodeCodes (text.take (length + unit))), length + unit)
  | none =>
    if rest.head? = some '%' then some (.foreign, length + 1)
    else some (.number (text.take length), length)

/-- A token of one or more marks in front of a text, and its length. -/
def recogniseSign : Recogniser Token := fun _ text =>
  match text with
  | '=' :: _ => some (.comparison .equals, 1)
  | '~' :: '=' :: _ => some (.comparison .includes, 2)
  | '|' :: '=' :: _ => some (.comparison .dashMatch, 2)
  | '^' :: '=' :: _ => some (.comparison .startsWith, 2)
  | '$' :: '=' :: _ => some (.comparison .endsWith, 2)
  | '*' :: '=' :: _ => some (.comparison .contains, 2)
  | '<' :: '!' :: '-' :: '-' :: _ => some (.hidingMark, 4)
  | '-' :: '-' :: '>' :: _ => some (.hidingMark, 3)
  | '#' :: rest =>
    let length := nameLength 0 rest
    if length = 0 then none else some (.hash (decodeCodes (rest.take length)), length + 1)
  | '@' :: rest => (fun length => (.atWord, length + 1)) <$> identLength rest
  | _ => none

/-- Recognises a token, or a comment, which is none. -/
def recogniseToken : Recogniser (Option Token) := fun before text =>
  let gap := (text.takeWhile isGap).length
  if gap ≠ 0 then some (some .blank, gap)
  else
    match addressLength text, recogniseName before text, codeRangeLength text with
    | some length, _, _ => some (some .foreign, length)
    | none, some (.function name, length), _ => some (some (.function name), length)
    | none, _, some length => some (some .foreign, length)
    | none, some (token, length), none => some (some token, length)
    | none, none, none =>
      match recogniseComment before text with
      | some (_, length) => some (none, length)
      | none =>
        (fun found => (some found.1, found.2)) <$>
          (recogniseString before text <|> recogniseNumber before text <|>
            recogniseSign before text)

/-- The tokens of a text. -/
def tokens (text : Text) : List Token :=
  (pieces recogniseToken text).filterMap fun
    | .plain c => some (.char c)
    | .item token _ => token

end AddonBundle.Stylesheet
