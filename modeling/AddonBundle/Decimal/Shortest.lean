import AddonBundle.Decimal.Double
import AddonBundle.Text.Basic
/-!
# Shortest decimals

The text of a double has the fewest significant digits that read back as the same double, and of
those the digits nearest to it. Decimal exponents from −4 to 15 are written positionally, always
with a fractional part; all others are written with an exponent of at least two digits.
-/

namespace AddonBundle.Double

/-- A fraction of natural numbers. -/
structure Fraction where
  num : Nat
  den : Nat
deriving Repr, DecidableEq

/-- Compares a fraction with `n · 10 ^ scale`. -/
def Fraction.compareDecimal (f : Fraction) (n : Nat) (scale : Int) : Ordering :=
  if 0 ≤ scale then compare f.num (n * Nat.pow 10 scale.toNat * f.den)
  else compare (f.num * Nat.pow 10 (-scale).toNat) (n * f.den)

/-- The whole part of a fraction divided by `10 ^ scale`. -/
def Fraction.floorDecimal (f : Fraction) (scale : Int) : Nat :=
  if 0 ≤ scale then f.num / (f.den * Nat.pow 10 scale.toNat)
  else f.num * Nat.pow 10 (-scale).toNat / f.den

/-- The exponent of the greatest power of ten at most a positive fraction. -/
def Fraction.decimalExponent (f : Fraction) : Int :=
  if f.den ≤ f.num then ((Nat.toDigits 10 (f.num / f.den)).length : Int) - 1
  else -((Nat.toDigits 10 ((f.den + f.num - 1) / f.num - 1)).length : Int)

/-- A positive double between the bounds of what reads back as it. -/
structure Interval where
  value : Fraction
  low : Fraction
  high : Fraction
  /-- Whether the bounds themselves read back as the double. -/
  closed : Bool
deriving Repr, DecidableEq

/-- The interval of a positive finite pattern. -/
def Interval.ofMagnitude (magnitude : Nat) : Interval :=
  let field := magnitude / Nat.pow 2 52
  let mantissa := magnitude % Nat.pow 2 52 + (if field = 0 then 0 else Nat.pow 2 52)
  let q : Int := (if field = 0 then 1 else field : Nat) - 1077
  let below := if mantissa = Nat.pow 2 52 && 1 < field then 1 else 2
  let scaled (n : Nat) : Fraction :=
    if 0 ≤ q then ⟨n * Nat.pow 2 q.toNat, 1⟩ else ⟨n, Nat.pow 2 (-q).toNat⟩
  ⟨scaled (4 * mantissa), scaled (4 * mantissa - below), scaled (4 * mantissa + 2),
    mantissa % 2 = 0⟩

/-- Whether `n · 10 ^ scale` reads back as the double. -/
def Interval.holds (i : Interval) (n : Nat) (scale : Int) : Bool :=
  let low := i.low.compareDecimal n scale
  let high := i.high.compareDecimal n scale
  (low == .lt || (i.closed && low == .eq)) && (high == .gt || (i.closed && high == .eq))

/-- The digits with a given scale that read back, if there are any: of the two neighbours of the
value the nearer one. -/
def Interval.digitsAt (i : Interval) (scale : Int) : Option Nat :=
  let n := i.value.floorDecimal scale
  match i.holds n scale, i.holds (n + 1) scale with
  | false, false => none
  | true, false => some n
  | false, true => some (n + 1)
  | true, true =>
    let twice : Fraction := ⟨2 * i.value.num, i.value.den⟩
    match twice.compareDecimal (2 * n + 1) scale with
    | .lt => some n
    | .gt => some (n + 1)
    | .eq => some (n + n % 2)

/-- Tries scales from the coarsest on; the fuel is the number of scales tried. -/
def Interval.search (i : Interval) : Nat → Int → Nat × Int
  | 0, scale => (i.value.floorDecimal scale, scale)
  | fuel + 1, scale =>
    match i.digitsAt scale with
    | some n => (n, scale)
    | none => i.search fuel (scale - 1)

/-- The shortest decimal of a positive finite pattern: digits and scale. -/
def shortest (magnitude : Nat) : Nat × Int :=
  let i := Interval.ofMagnitude magnitude
  i.search 17 i.value.decimalExponent

/-- Digits without zeros at the end; the fuel is their number. -/
def dropZeros : Nat → Nat × Int → Nat × Int
  | 0, d => d
  | fuel + 1, (n, scale) =>
    if n ≠ 0 && n % 10 = 0 then dropZeros fuel (n / 10, scale + 1) else (n, scale)

/-- Lays out significant digits with the exponent of the first. -/
def layout (digits : Text) (exponent : Int) : Text :=
  if -4 ≤ exponent && exponent < 16 then
    if exponent < 0 then
      "0.".toList ++ List.replicate (-exponent - 1).toNat '0' ++ digits
    else
      let whole := exponent.toNat + 1
      let padded := digits ++ List.replicate (whole - digits.length) '0'
      let fraction := padded.drop whole
      padded.take whole ++ '.' :: (if fraction.isEmpty then ['0'] else fraction)
  else
    let size := Text.ofNat exponent.natAbs
    let mark := if exponent < 0 then '-' else '+'
    digits.take 1 ++ (if digits.length = 1 then [] else '.' :: digits.drop 1) ++
      'e' :: mark :: (if size.length < 2 then '0' :: size else size)

/-- The text of a double. -/
def text (d : Double) : Text :=
  let sign := if d.isNegative then ['-'] else []
  if infinityBits < d.magnitude then "NaN".toList
  else if d.magnitude = infinityBits then sign ++ "Infinity".toList
  else if d.magnitude = 0 then sign ++ "0.0".toList
  else
    let (n, scale) := dropZeros 20 (shortest d.magnitude)
    let digits := Text.ofNat n
    sign ++ layout digits (scale + digits.length - 1)

end AddonBundle.Double
