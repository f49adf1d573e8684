import AddonBundle.Text.Utf8
/-!
# UTF-8

What is written of a text is read back as this text. Each of the four forms of a character is read
by its own branch: the first byte tells the form, the second byte is one that may follow it, and
the payloads put together are the code point.
-/

namespace AddonBundle.Utf8

variable {a b c d : UInt8} {n : Nat}

/-! ## Continuation bytes as they are written -/

private theorem toNat_tail (k : Nat) : (UInt8.ofNat (0x80 + k % 64)).toNat = 0x80 + k % 64 := by
  rw [UInt8.toNat_ofNat']
  omega

private theorem isContinuation_tail (k : Nat) :
    isContinuation (UInt8.ofNat (0x80 + k % 64)) = true := by
  simp only [isContinuation, UInt8.le_iff_toNat_le, toNat_tail, Bool.and_eq_true,
    decide_eq_true_eq, UInt8.reduceToNat]
  omega

private theorem payload_tail (k : Nat) : payload (UInt8.ofNat (0x80 + k % 64)) = k % 64 := by
  rw [payload, toNat_tail]
  omega

/-- A continuation byte follows each first byte unless the form is longer than needed, or holds half
of a surrogate pair or no code point. -/
private theorem isSecond_tail {k : Nat} (hthree : a.toNat = 0xe0 → 0x20 ≤ k % 64)
    (hsurrogate : a.toNat = 0xed → k % 64 < 0x20) (hfour : a.toNat = 0xf0 → 0x10 ≤ k % 64)
    (hend : a.toNat = 0xf4 → k % 64 < 0x10) :
    isSecond a (UInt8.ofNat (0x80 + k % 64)) = true := by
  simp only [isSecond, isContinuation_tail, Bool.and_eq_true, Bool.not_eq_true', Bool.true_and,
    Bool.and_eq_false_iff, beq_eq_false_iff_ne, decide_eq_false_iff_not, UInt8.lt_iff_toNat_lt,
    UInt8.le_iff_toNat_le, ne_eq, ← UInt8.toNat_inj, toNat_tail, UInt8.reduceToNat]
  omega

/-! ## Reading the four forms -/

private theorem decodeFrom_one (ha : a.toNat < 0x80) (hvalue : a.toNat = n) (pos : Nat)
    (rest : Bytes) :
    decodeFrom pos (a :: rest) = (Char.ofNat n :: ·) <$> decodeFrom (pos + 1) rest := by
  rw [decodeFrom.eq_def]
  dsimp only
  rw [if_pos (UInt8.lt_iff_toNat_lt.mpr ha), hvalue]

/-- Bytes that start a character of several. -/
private theorem not_single (hlow : 0xc2 ≤ a.toNat) (hhigh : a.toNat ≤ 0xf4) :
    ¬ a < 0x80 ∧ ¬ (decide (a < 0xc2) || decide (0xf4 < a)) = true := by
  simp only [UInt8.lt_iff_toNat_lt, Bool.or_eq_true, decide_eq_true_eq, UInt8.reduceToNat]
  omega

private theorem decodeFrom_two (hlow : 0xc2 ≤ a.toNat) (hhigh : a.toNat < 0xe0)
    (hb : isSecond a b = true) (hvalue : a.toNat % 32 * 64 + payload b = n) (pos : Nat)
    (rest : Bytes) :
    decodeFrom pos (a :: b :: rest) = (Char.ofNat n :: ·) <$> decodeFrom (pos + 2) rest := by
  obtain ⟨hmany, hstart⟩ := not_single hlow (by omega)
  have hshort : a < 0xe0 := UInt8.lt_iff_toNat_lt.mpr hhigh
  rw [decodeFrom.eq_def]
  simp only [hmany, hstart, hb, hshort, hvalue, if_true, if_false, Bool.not_true,
    Bool.false_eq_true]

private theorem decodeFrom_three (hlow : 0xe0 ≤ a.toNat) (hhigh : a.toNat < 0xf0)
    (hb : isSecond a b = true) (hc : isContinuation c = true)
    (hvalue : a.toNat % 16 * 4096 + payload b * 64 + payload c = n) (pos : Nat) (rest : Bytes) :
    decodeFrom pos (a :: b :: c :: rest) = (Char.ofNat n :: ·) <$> decodeFrom (pos + 3) rest := by
  obtain ⟨hmany, hstart⟩ := not_single (a := a) (by omega) (by omega)
  have hlong : ¬ a < 0xe0 := mt UInt8.lt_iff_toNat_lt.mp (Nat.not_lt.mpr hlow)
  have hshort : a < 0xf0 := UInt8.lt_iff_toNat_lt.mpr hhigh
  rw [decodeFrom.eq_def]
  simp only [hmany, hstart, hb, hlong, hc, hshort, hvalue, if_true, if_false, Bool.not_true,
    Bool.false_eq_true]

private theorem decodeFrom_four (hlow : 0xf0 ≤ a.toNat) (hhigh : a.toNat ≤ 0xf4)
    (hb : isSecond a b = true) (hc : isContinuation c = true) (hd : isContinuation d = true)
    (hvalue : a.toNat % 8 * 262144 + payload b * 4096 + payload c * 64 + payload d = n) (pos : Nat)
    (rest : Bytes) :
    decodeFrom pos (a :: b :: c :: d :: rest) =
      (Char.ofNat n :: ·) <$> decodeFrom (pos + 4) rest := by
  obtain ⟨hmany, hstart⟩ := not_single (a := a) (by omega) hhigh
  have hlong : ¬ a < 0xf0 := mt UInt8.lt_iff_toNat_lt.mp (Nat.not_lt.mpr hlow)
  have hlonger : ¬ a < 0xe0 := fun h => hlong (UInt8.lt_trans h (by decide))
  rw [decodeFrom.eq_def]
  simp only [hmany, hstart, hb, hlong, hlonger, hc, hd, hvalue, if_false, Bool.not_true,
    Bool.false_eq_true]

/-! ## Texts -/

/-- The bytes of a character are read as this character. -/
theorem decodeFrom_encodePoint (c : Char) (pos : Nat) (rest : Bytes) :
    ∃ behind, decodeFrom pos (encodePoint c.toNat ++ rest) =
      (c :: ·) <$> decodeFrom behind rest := by
  have hvalid : c.toNat < 0xd800 ∨ 0xdfff < c.toNat ∧ c.toNat < 0x110000 := c.valid
  have hform : ∃ behind, decodeFrom pos (encodePoint c.toNat ++ rest) =
      (Char.ofNat c.toNat :: ·) <$> decodeFrom behind rest := by
    generalize c.toNat = n at hvalid
    rw [encodePoint]
    dsimp only
    split
    · have ha : (UInt8.ofNat n).toNat = n := by
        rw [UInt8.toNat_ofNat']
        omega
      exact ⟨_, decodeFrom_one (by omega) ha pos rest⟩
    · split
      · have ha : (UInt8.ofNat (0xc0 + n / 64)).toNat = 0xc0 + n / 64 := by
          rw [UInt8.toNat_ofNat']
          omega
        refine ⟨_, decodeFrom_two (by omega) (by omega) (isSecond_tail ?_ ?_ ?_ ?_) ?_ pos rest⟩
        case refine_5 => rw [ha, payload_tail]; omega
        all_goals omega
      · split
        · have ha : (UInt8.ofNat (0xe0 + n / 4096)).toNat = 0xe0 + n / 4096 := by
            rw [UInt8.toNat_ofNat']
            omega
          refine ⟨_, decodeFrom_three (by omega) (by omega) (isSecond_tail ?_ ?_ ?_ ?_)
            (isContinuation_tail n) ?_ pos rest⟩
          case refine_5 => rw [ha, payload_tail, payload_tail]; omega
          all_goals omega
        · have ha : (UInt8.ofNat (0xf0 + n / 262144)).toNat = 0xf0 + n / 262144 := by
            rw [UInt8.toNat_ofNat']
            omega
          refine ⟨_, decodeFrom_four (by omega) (by omega) (isSecond_tail ?_ ?_ ?_ ?_)
            (isContinuation_tail (n / 64)) (isContinuation_tail n) ?_ pos rest⟩
          case refine_5 => rw [ha, payload_tail, payload_tail, payload_tail]; omega
          all_goals omega
  rwa [Char.ofNat_toNat] at hform

theorem decodeFrom_encode (pos : Nat) (text : Text) : decodeFrom pos (encode text) = .ok text := by
  induction text generalizing pos with
  | nil => rfl
  | cons c text ih =>
      rw [encode, List.flatMap_cons]
      obtain ⟨behind, hread⟩ := decodeFrom_encodePoint c pos (encode text)
      rw [← encode, hread, ih]
      rfl

/-- A text that is written is read back. -/
theorem decode_encode (text : Text) : decode (encode text) = .ok text :=
  decodeFrom_encode 0 text

end AddonBundle.Utf8
