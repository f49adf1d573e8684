import AddonBundle.Text.Basic
/-!
# Limits

What may be read is bounded in two ways: an integer has at most so many digits, and values and
imports may nest only so deep. What goes beyond a limit is not malformed, it is refused.
-/

namespace AddonBundle

/-- A limit that was passed. -/
inductive Limit where
  /-- An integer has too many digits: how many. -/
  | digits (count : Nat)
  /-- Values or imports are nested too deep. -/
  | nesting
deriving Repr, DecidableEq

namespace Limit

/-- How many digits an integer may have. -/
def maxDigits : Nat := 4300

/-- How deep arrays, objects and imports may nest. -/
def maxNesting : Nat := 990

/-- The wording of a limit. -/
def message : Limit → Text
  | .digits count =>
    "Exceeds the limit (".toList ++ Text.ofNat maxDigits ++
      " digits) for integer string conversion: value has ".toList ++ Text.ofNat count ++
      " digits; use sys.set_int_max_str_digits() to increase the limit".toList
  | .nesting => "maximum recursion depth exceeded".toList

/-- The limit that the digits of an integer pass, if they do. -/
def ofDigits? (digits : Text) : Option Limit :=
  if maxDigits < digits.length then some (.digits digits.length) else none

end Limit

end AddonBundle
