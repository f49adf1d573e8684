import AddonBundle.Toml.Quoted
import AddonBundle.Toml.Value
/-!
# TOML numbers, dates and times

Digits may be grouped by single underscores. Dates must exist in the calendar.
-/

namespace AddonBundle.Toml

open Text

/-- The digits at the start of a text, grouped by single underscores, and what follows. -/
def groupedDigits (isDigit : Char → Bool) : Text → Text × Text
  | [] => ([], [])
  | c :: rest =>
    if isDigit c then
      let found := groupedDigits isDigit rest
      (c :: found.1, found.2)
    else if c = '_' && rest.head?.any isDigit then groupedDigits isDigit rest
    else ([], c :: rest)

/-- Digits that start with a digit, and what follows. -/
def digitsAt (isDigit : Char → Bool) (text : Text) : Option (Text × Text) :=
  if text.head?.any isDigit then some (groupedDigits isDigit text) else none

/-- An integer in base two, eight or sixteen, and what follows. -/
def basedInteger (text : Text) : Option (Value × Text) :=
  let read := fun (isDigit : Char → Bool) (base : Nat) (rest : Text) =>
    (fun found => (Value.int (digitsValue base found.1), found.2)) <$> digitsAt isDigit rest
  match text with
  | '0' :: 'x' :: rest => read (fun c => (hexDigit? c).isSome) 16 rest
  | '0' :: 'b' :: rest => read (fun c => c = '0' || c = '1') 2 rest
  | '0' :: 'o' :: rest => read (fun c => '0' ≤ c && c ≤ '7') 8 rest
  | _ => none

/-- The fraction at the start of a text, without its point, and what follows. -/
def fractionAt (text : Text) : Text × Text :=
  match text with
  | '.' :: rest => (digitsAt isDecimal rest).getD ([], text)
  | _ => ([], text)

/-- The exponent at the start of a text, and what follows. -/
def exponentAt (text : Text) : Option Int × Text :=
  match text with
  | [] => (none, [])
  | c :: rest =>
    if c = 'e' || c = 'E' then
      let sign := (rest.take 1).filter fun s => s = '+' || s = '-'
      match digitsAt isDecimal (rest.drop sign.length) with
      | some (digits, behind) =>
        let n : Int := digitsValue 10 digits
        (some (if sign = ['-'] then -n else n), behind)
      | none => (none, text)
    else (none, text)

/-- A decimal number, and what follows. -/
def decimalNumber (text : Text) : Option (Value × Text) := do
  let sign := (text.take 1).filter fun s => s = '+' || s = '-'
  let unsigned := text.drop sign.length
  let (whole, rest) ←
    match unsigned with
    | '0' :: rest => some (['0'], rest)
    | _ => digitsAt isDecimal unsigned
  let (fraction, rest) := fractionAt rest
  let (exponent, rest) := exponentAt rest
  let negative := sign = ['-']
  if fraction.isEmpty && exponent.isNone then
    let n : Int := digitsValue 10 whole
    some (.int (if negative then -n else n), rest)
  else
    let scale := exponent.getD 0 - (fraction.length : Int)
    some (.double (Double.ofDecimal negative (digitsValue 10 (whole ++ fraction)) scale), rest)

/-- Infinity or a value that is no number, and what follows. -/
def specialNumber (text : Text) : Option (Value × Text) :=
  let sign := (text.take 1).filter fun s => s = '+' || s = '-'
  let unsigned := text.drop sign.length
  match after? "inf".toList unsigned with
  | some rest =>
    some (.double (if sign = ['-'] then Double.negInfinity else Double.infinity), rest)
  | none => (fun rest => (.double Double.nan, rest)) <$> after? "nan".toList unsigned

/-- A number, and what follows. -/
def numberAt (text : Text) : Option (Value × Text) :=
  match basedInteger text with
  | some found => some found
  | none =>
    match decimalNumber text with
    | some found => some found
    | none => specialNumber text

/-- A fixed number of decimal digits, and what follows. -/
def fixedDigits (width : Nat) (text : Text) : Option (Nat × Text) :=
  let digits := text.take width
  if digits.length = width && digits.all isDecimal then
    some (digitsValue 10 digits, text.drop width)
  else none

/-- The days of a month. -/
def daysIn (year month : Nat) : Nat :=
  if month = 2 then
    if year % 4 = 0 && (year % 100 ≠ 0 || year % 400 = 0) then 29 else 28
  else if month = 4 || month = 6 || month = 9 || month = 11 then 30
  else 31

/-- A date in form: whether it exists in the calendar, and what follows. -/
def dateAt (text : Text) : Option (Bool × Text) := do
  let (year, rest) ← fixedDigits 4 text
  let rest ← after? ['-'] rest
  let (month, rest) ← fixedDigits 2 rest
  let rest ← after? ['-'] rest
  let (day, rest) ← fixedDigits 2 rest
  if 1 ≤ month && month ≤ 12 && 1 ≤ day && day ≤ 31 then
    some (1 ≤ year && day ≤ daysIn year month, rest)
  else none

/-- What follows the time at the start of a text. -/
def afterTime (text : Text) : Option Text := do
  let (hour, rest) ← fixedDigits 2 text
  let rest ← after? [':'] rest
  let (minute, rest) ← fixedDigits 2 rest
  let rest ← after? [':'] rest
  let (second, rest) ← fixedDigits 2 rest
  if hour ≤ 23 && minute ≤ 59 && second ≤ 59 then
    match rest with
    | '.' :: digits =>
      if digits.head?.any isDecimal then some (digits.dropWhile isDecimal) else some rest
    | _ => some rest
  else none

/-- What follows the offset at the start of a text, if it has one. -/
def afterOffset (text : Text) : Text :=
  match text with
  | [] => []
  | c :: rest =>
    if c = 'Z' || c = 'z' then rest
    else if c = '+' || c = '-' then
      let behind := do
        let (hour, rest) ← fixedDigits 2 rest
        let rest ← after? [':'] rest
        let (minute, rest) ← fixedDigits 2 rest
        if hour ≤ 23 && minute ≤ 59 then some rest else none
      behind.getD text
    else text

/-- The start of a text up to what follows. -/
def upTo (text rest : Text) : Text :=
  text.take (text.length - rest.length)

/-- A date or a date with a time, and what follows; nothing inside when the date does not exist. -/
def dateTimeAt (text : Text) : Option (Option (Value × Text)) := do
  let (exists_, rest) ← dateAt text
  let withTime :=
    match rest with
    | c :: behind => if c = 'T' || c = 't' || c = ' ' then afterTime behind else none
    | [] => none
  if !exists_ then some none
  else
    match withTime with
    | some behind =>
      let behind := afterOffset behind
      some (some (.dateTime (upTo text behind), behind))
    | none => some (some (.date (upTo text rest), rest))

/-- A number, a date or a time, and what follows. -/
def scalarAt (text : Text) : Option (Value × Text) :=
  match dateTimeAt text with
  | some found => found
  | none =>
    match afterTime text with
    | some rest => some (.time (upTo text rest), rest)
    | none => numberAt text

end AddonBundle.Toml
