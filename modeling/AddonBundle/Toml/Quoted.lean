import AddonBundle.Text.Basic
/-!
# TOML strings

Basic strings have escapes and literal strings have none; each comes on one line and, between
threefold quotes, over several. The quotes that end a string over several lines may be preceded by
two more that belong to it.
-/

namespace AddonBundle.Toml

open Text

/-- Blanks within a line. -/
def isSpace (c : Char) : Bool :=
  c = ' ' || c = '\t'

/-- Blanks and line ends. -/
def isSpaceOrLine (c : Char) : Bool :=
  isSpace c || c = '\n'

/-- Controls that may not stand in a string or comment of one line. -/
def isControl (c : Char) : Bool :=
  (c.toNat < 32 && c ≠ '\t') || c.toNat = 127

/-- The number of digits in base sixteen. -/
def hexNumber? (digits : Text) : Option Nat :=
  digits.foldl (fun n c => do return (← n) * 16 + (← hexDigit? c)) (some 0)

/-- A character by a number of digits in base sixteen, and what follows. -/
def hexChar (width : Nat) (text : Text) : Option (Text × Text) := do
  let digits := text.take width
  let n ← hexNumber? digits
  if digits.length = width && n.isValidChar then some ([Char.ofNat n], text.drop width) else none

/-- What a backslash at the end of a line joins, from behind the backslash: the blanks up to the
first character on a line behind. -/
def joinLines (text : Text) : Option Text :=
  match text.dropWhile isSpace with
  | [] => some []
  | '\n' :: rest => some (rest.dropWhile isSpaceOrLine)
  | _ => none

/-- An escape from behind its backslash: the characters it stands for, and what follows. -/
def escapeAt (multiline : Bool) (text : Text) : Option (Text × Text) :=
  match text with
  | [] => none
  | c :: rest =>
    if multiline && isSpaceOrLine c then (fun rest => ([], rest)) <$> joinLines text
    else
      match c with
      | 'u' => hexChar 4 rest
      | 'U' => hexChar 8 rest
      | 'b' => some (['\x08'], rest)
      | 't' => some (['\t'], rest)
      | 'n' => some (['\n'], rest)
      | 'f' => some (['\x0c'], rest)
      | 'r' => some (['\r'], rest)
      | '"' => some (['"'], rest)
      | '\\' => some (['\\'], rest)
      | _ => none

/-- Whether a character may not stand in a string. -/
def isRefused (multiline : Bool) (c : Char) : Bool :=
  isControl c && !(multiline && c = '\n')

/-- A basic string from behind its opening quotes: its value, and what follows the closing ones.
The first argument bounds the number of characters. -/
def basicBody (multiline : Bool) : Nat → Text → Option (Text × Text)
  | 0, _ => none
  | _ + 1, [] => none
  | more + 1, c :: rest =>
    if c = '"' then
      if !multiline then some ([], rest)
      else
        match after? "\"\"".toList rest with
        | some rest => some ([], rest)
        | none => (fun found => (c :: found.1, found.2)) <$> basicBody multiline more rest
    else if c = '\\' then
      match escapeAt multiline rest with
      | none => none
      | some (chars, rest) =>
        (fun found => (chars ++ found.1, found.2)) <$> basicBody multiline more rest
    else if isRefused multiline c then none
    else (fun found => (c :: found.1, found.2)) <$> basicBody multiline more rest

/-- A literal string from behind its opening quotes: its value, and what follows the closing
ones. -/
def literalBody (multiline : Bool) : Text → Option (Text × Text)
  | [] => none
  | c :: rest =>
    let closing :=
      if c ≠ '\'' then none else if multiline then after? "''".toList rest else some rest
    match closing with
    | some rest => some ([], rest)
    | none =>
      if isRefused multiline c then none
      else (fun found => (c :: found.1, found.2)) <$> literalBody multiline rest

/-- The string over several lines with the quotes, at most two, that belong to its end. -/
def withQuotes (quote : Char) (found : Text × Text) : Text × Text :=
  let extra := (found.2.take 2).takeWhile (· = quote)
  (found.1 ++ extra, found.2.drop extra.length)

/-- The text behind a line end at its start, or all of it. -/
def dropLine (text : Text) : Text :=
  (after? ['\n'] text).getD text

/-- A string on one line, and what follows it. -/
def lineString (text : Text) : Option (Text × Text) :=
  match text with
  | '"' :: rest => basicBody false (rest.length + 1) rest
  | '\'' :: rest => literalBody false rest
  | _ => none

/-- A string, and what follows it. -/
def stringAt (text : Text) : Option (Text × Text) :=
  match text with
  | '"' :: '"' :: '"' :: rest =>
    withQuotes '"' <$> basicBody true (rest.length + 1) (dropLine rest)
  | '\'' :: '\'' :: '\'' :: rest => withQuotes '\'' <$> literalBody true (dropLine rest)
  | _ => lineString text

end AddonBundle.Toml
