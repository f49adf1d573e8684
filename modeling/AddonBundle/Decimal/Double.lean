/-!
# Doubles

Binary floating-point numbers of 64 bits, as bit patterns, and the double nearest to a decimal.
All of it is exact arithmetic on natural numbers.
-/

namespace AddonBundle

/-- A double, by its bit pattern. -/
structure Double where
  bits : UInt64
deriving Repr, DecidableEq

namespace Double

/-- The pattern of positive infinity. -/
def infinityBits : Nat := 2047 * Nat.pow 2 52

/-- A pattern with its sign. -/
def ofParts (negative : Bool) (magnitude : Nat) : Double :=
  ⟨UInt64.ofNat ((if negative then Nat.pow 2 63 else 0) + min magnitude infinityBits)⟩

/-- Positive infinity. -/
def infinity : Double := ofParts false infinityBits

/-- Negative infinity. -/
def negInfinity : Double := ofParts true infinityBits

/-- A pattern that is no number. -/
def nan : Double := ⟨UInt64.ofNat (2047 * Nat.pow 2 52 + Nat.pow 2 51)⟩

/-- The sign bit. -/
def isNegative (d : Double) : Bool := Nat.pow 2 63 ≤ d.bits.toNat

/-- The pattern without its sign. -/
def magnitude (d : Double) : Nat := d.bits.toNat % Nat.pow 2 63

/-- Whether a double is finite and has no fraction. -/
def isInteger (d : Double) : Bool :=
  let exponent := d.magnitude / Nat.pow 2 52
  let fraction := d.magnitude % Nat.pow 2 52
  d.magnitude = 0 ||
    (exponent < 2047 && 1023 ≤ exponent &&
      (1075 ≤ exponent || fraction % Nat.pow 2 (1075 - exponent) = 0))

/-- A quotient rounded to the nearest natural number, a half to the even one. -/
def roundDiv (num den : Nat) : Nat :=
  let floor := num / den
  let twice := 2 * (num % den)
  if twice < den then floor
  else if den < twice then floor + 1
  else floor + floor % 2

/-- The greatest power of two at most a positive quotient, by its exponent. -/
def binaryExponent (num den : Nat) : Int :=
  let k : Int := (Nat.log2 num : Int) - Nat.log2 den
  let below := if 0 ≤ k then den * Nat.pow 2 k.toNat ≤ num else den ≤ num * Nat.pow 2 (-k).toNat
  if below then k else k - 1

/-- The pattern nearest to a positive quotient. -/
def nearest (num den : Nat) : Nat :=
  let q : Int := max (binaryExponent num den - 52) (-1074)
  let m :=
    if 0 ≤ q then roundDiv num (den * Nat.pow 2 q.toNat)
    else roundDiv (num * Nat.pow 2 (-q).toNat) den
  (q + 1074).toNat * Nat.pow 2 52 + m

/-- The double nearest to `digits · 10 ^ exponent`; beyond the range it is zero or infinite. -/
def ofDecimal (negative : Bool) (digits : Nat) (exponent : Int) : Double :=
  let size : Int := (Nat.toDigits 10 digits).length + exponent
  if digits = 0 || size < -330 then ofParts negative 0
  else if 320 < size then ofParts negative infinityBits
  else if 0 ≤ exponent then ofParts negative (nearest (digits * Nat.pow 10 exponent.toNat) 1)
  else ofParts negative (nearest digits (Nat.pow 10 (-exponent).toNat))

end Double

end AddonBundle
