import AddonBundle.Json.Reader
import Mathlib.Algebra.Group.Nat.Defs
import Mathlib.Data.List.Basic
import Mathlib.Data.List.Induction
import Mathlib.Data.List.TakeWhile
/-!
# Numerals

An integer is written as a sign and a numeral: digits without a zero before other digits. Reading
the digits of a number gives the number, and writing the number of a numeral gives the numeral, so
the limit on the digits of an integer is a bound on the integer.
-/

namespace AddonBundle

namespace Text

theorem isDecimal_eq_isDigit (c : Char) : isDecimal c = c.isDigit := by
  simp only [isDecimal, Char.isDigit, Char.le_def]

private theorem hexDigit?_of_isDigit {c : Char} (h : c.isDigit = true) :
    hexDigit? c = some (c.toNat - '0'.toNat) := by
  have hdecimal : (decide ('0' ≤ c) && decide (c ≤ '9')) = true := by
    rw [← h, ← isDecimal_eq_isDigit]
    rfl
  rw [hexDigit?, if_pos hdecimal]

theorem digitsValue_eq {digits : Text} (h : ∀ c ∈ digits, c.isDigit = true) :
    digitsValue 10 digits = Nat.ofDigitChars 10 digits 0 := by
  rw [digitsValue, Nat.ofDigitChars_eq_foldl]
  refine List.foldl_ext _ _ _ fun n c hc => ?_
  rw [hexDigit?_of_isDigit (h c hc), Option.getD_some, Nat.mul_comm]

/-- Digits without a zero before other digits. -/
structure IsNumeral (digits : Text) : Prop where
  isDigit : ∀ c ∈ digits, c.isDigit = true
  ne_nil : digits ≠ []
  eq_zero : digits.head? = some '0' → digits = ['0']

theorem toNat_of_isDigit {c : Char} (h : c.isDigit = true) :
    48 ≤ c.toNat ∧ c.toNat ≤ 57 := by
  simp only [Char.isDigit, ge_iff_le, Bool.and_eq_true, decide_eq_true_eq,
    UInt32.le_iff_toNat_le] at h
  exact h

private theorem digitChar_toNat_sub {c : Char} (h : c.isDigit = true) :
    Nat.digitChar (c.toNat - 48) = c := by
  have hc := toNat_of_isDigit h
  apply Char.toNat_inj.mp
  rw [Nat.toNat_digitChar_of_lt_ten (by omega)]
  omega

theorem IsNumeral.toDigits {digits : Text} (h : IsNumeral digits) :
    Nat.toDigits 10 (Nat.ofDigitChars 10 digits 0) = digits := by
  obtain ⟨hdigit, hne, hzero⟩ := h
  induction digits using List.reverseRec with
  | nil => exact absurd rfl hne
  | append_singleton front c ih =>
      have hc : c.isDigit = true := hdigit c (by simp)
      have hlt : c.toNat - 48 < 10 := by
        have := toNat_of_isDigit hc
        omega
      have hlast : Nat.toDigits 10 (c.toNat - 48) = [c] := by
        rw [Nat.toDigits_of_lt_base hlt, digitChar_toNat_sub hc]
      rw [Nat.ofDigitChars_append, Nat.ofDigitChars_cons, Nat.ofDigitChars_nil]
      cases front with
      | nil => simpa using hlast
      | cons d front =>
          -- the first digit is not zero, since another one follows
          have hd : (d :: front).head? ≠ some '0' := fun hd => by
            simpa using hzero (by simpa using hd)
          have hfront : Nat.toDigits 10 (Nat.ofDigitChars 10 (d :: front) 0) = d :: front :=
            ih (fun x hx => hdigit x (List.mem_append_left _ hx)) (by simp)
              (fun h => absurd h hd)
          have hpos : 0 < Nat.ofDigitChars 10 (d :: front) 0 := by
            refine Nat.pos_of_ne_zero fun hvalue => hd ?_
            rw [← hfront, hvalue]
            rfl
          calc Nat.toDigits 10 (10 * Nat.ofDigitChars 10 (d :: front) 0 + (c.toNat - 48))
              = Nat.toDigits 10 (Nat.ofDigitChars 10 (d :: front) 0) ++
                  Nat.toDigits 10 (c.toNat - 48) :=
                (Nat.toDigits_append_toDigits (by decide) hpos hlt).symm
            _ = d :: front ++ [c] := by rw [hfront, hlast]

/-- How many digits a numeral has is how large its number is. -/
theorem IsNumeral.length_le_iff {digits : Text} (h : IsNumeral digits) {k : Nat} (hk : 0 < k) :
    digits.length ≤ k ↔ digitsValue 10 digits < 10 ^ k := by
  rw [digitsValue_eq h.isDigit, ← Nat.length_toDigits_le_iff (by decide) hk, h.toDigits]

end Text

namespace Json

open Text

/-! ## Reading a number -/

/-- The digits before the point: one zero, or all digits there are. -/
def wholeAt (unsigned : Text) : Text :=
  if unsigned.head? = some '0' then ['0'] else digitsAt unsigned

/-- A text as a sign and what follows it. -/
structure IsSigned (text sign unsigned : Text) : Prop where
  eq_append : text = sign ++ unsigned
  sign_eq : sign = if text.head? = some '-' then ['-'] else []

theorem exists_isSigned (text : Text) : ∃ sign unsigned, IsSigned text sign unsigned := by
  cases text with
  | nil => exact ⟨[], [], rfl, rfl⟩
  | cons c rest =>
      by_cases hc : c = '-'
      · exact ⟨['-'], rest, by rw [hc]; rfl, by simp [hc]⟩
      · exact ⟨[], c :: rest, rfl, by simp [hc]⟩

/-- A number is an integer when neither a fraction nor an exponent follows its digits. -/
theorem numberAt_eq_int {text sign unsigned : Text} (h : IsSigned text sign unsigned) {n : Int}
    {length : Nat} :
    numberAt text = some (.int n, length) ↔
      wholeAt unsigned ≠ [] ∧ fractionAt (unsigned.drop (wholeAt unsigned).length) = [] ∧
        exponentAt (unsigned.drop (wholeAt unsigned).length) = [] ∧
        n = (if sign = [] then (digitsValue 10 (wholeAt unsigned) : Int)
          else -digitsValue 10 (wholeAt unsigned)) ∧
        length = sign.length + (wholeAt unsigned).length := by
  have hunsigned : text.drop sign.length = unsigned := by rw [h.eq_append, List.drop_left]
  have hwhole : (if unsigned.head? = some '0' then ['0'] else digitsAt unsigned) =
      wholeAt unsigned := rfl
  simp only [numberAt, ← h.sign_eq, hunsigned, hwhole, List.isEmpty_iff, Bool.and_eq_true]
  generalize unsigned.drop (wholeAt unsigned).length = behind
  by_cases hnil : wholeAt unsigned = []
  · simp [hnil]
  · by_cases hfraction : fractionAt behind = []
    · by_cases hexponent : exponentAt behind = []
      · simp [hnil, hfraction, hexponent, eq_comm]
      · simp [hnil, hfraction, hexponent]
    · simp [hnil, hfraction]

theorem isNumeral_wholeAt {unsigned : Text} (h : wholeAt unsigned ≠ []) :
    IsNumeral (wholeAt unsigned) := by
  rw [wholeAt] at h ⊢
  split at h
  · rw [if_pos ‹_›]
    exact ⟨by simp, by simp, fun _ => rfl⟩
  · rename_i hzero
    rw [if_neg hzero]
    refine ⟨fun c hc => ?_, h, fun hhead => absurd ?_ hzero⟩
    · rw [← isDecimal_eq_isDigit]
      exact List.mem_takeWhile_imp hc
    · obtain ⟨rest, hrest⟩ := List.takeWhile_prefix (l := unsigned) isDecimal
      rw [digitsAt] at h hhead
      rw [← hrest, List.head?_append_of_ne_nil _ h]
      exact hhead

theorem isPrefix_wholeAt (unsigned : Text) : wholeAt unsigned <+: unsigned := by
  rw [wholeAt]
  split
  · rename_i hzero
    cases unsigned with
    | nil => simp at hzero
    | cons c rest =>
        obtain rfl : c = '0' := by simpa using hzero
        exact ⟨rest, rfl⟩
  · exact List.takeWhile_prefix isDecimal

/-- The digits of what is read as an integer are the numeral behind its sign. -/
theorem filter_take_of_numberAt {text sign unsigned : Text} (hsigned : IsSigned text sign unsigned)
    {n : Int} {length : Nat} (h : numberAt text = some (.int n, length)) :
    (text.take length).filter isDecimal = wholeAt unsigned := by
  obtain ⟨hne, -, -, -, hlength⟩ := (numberAt_eq_int hsigned).mp h
  have htake : text.take length = sign ++ wholeAt unsigned := by
    rw [hsigned.eq_append, hlength, List.take_length_add_append]
    rw [← List.prefix_iff_eq_take.mp (isPrefix_wholeAt unsigned)]
  have hsign : sign.filter isDecimal = [] := by
    rw [hsigned.sign_eq]
    split <;> rfl
  rw [htake, List.filter_append, hsign, List.nil_append, List.filter_eq_self]
  intro c hc
  rw [isDecimal_eq_isDigit, (isNumeral_wholeAt hne).isDigit c hc]

/-- What is read as an integer is a sign and a numeral. -/
theorem numeral_of_numberAt {text : Text} {n : Int} {length : Nat}
    (h : numberAt text = some (.int n, length)) :
    ∃ whole, IsNumeral whole ∧ (text.take length).filter isDecimal = whole ∧
      n.natAbs = digitsValue 10 whole := by
  obtain ⟨sign, unsigned, hsigned⟩ := exists_isSigned text
  obtain ⟨hne, -, -, hn, -⟩ := (numberAt_eq_int hsigned).mp h
  refine ⟨wholeAt unsigned, isNumeral_wholeAt hne, filter_take_of_numberAt hsigned h, ?_⟩
  rw [hn]
  split <;> simp

/-- An integer passes the limit on its digits exactly when it is too large. -/
theorem limitOf?_eq_none {text : Text} {n : Int} {length : Nat}
    (h : numberAt text = some (.int n, length)) :
    limitOf? (.int n) (text.take length) = none ↔ n.natAbs < 10 ^ Limit.maxDigits := by
  obtain ⟨whole, hnumeral, hdigits, hn⟩ := numeral_of_numberAt h
  rw [limitOf?, hdigits, hn, ← hnumeral.length_le_iff (by decide), Limit.ofDigits?]
  split <;> rename_i hlength
  · simpa using hlength
  · simpa using hlength

end Json

end AddonBundle
