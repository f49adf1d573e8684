import AddonBundle.Text.CodePoint
/-!
# Code points

The code texts without lone halves of surrogate pairs are those of texts.
-/

namespace AddonBundle.CodePoint

/-- No code point is half of a surrogate pair. -/
def IsWhole (text : CodeText) : Prop :=
  ∀ p ∈ text, isSurrogate p = false

theorem isSurrogate_ofChar (c : Char) : isSurrogate (ofChar c) = false := by
  have hvalid := c.valid
  simp only [UInt32.isValidChar, Nat.isValidChar] at hvalid
  have hval : (ofChar c).val = c.val.toNat := rfl
  rw [← Bool.not_eq_true, isSurrogate, Bool.and_eq_true, decide_eq_true_eq, decide_eq_true_eq, hval]
  omega

theorem isWhole_ofText (text : Text) : IsWhole (ofText text) := by
  intro p hp
  obtain ⟨c, -, rfl⟩ := List.mem_map.mp hp
  exact isSurrogate_ofChar c

theorem exists_char {p : CodePoint} (h : isSurrogate p = false) : ∃ c, ofChar c = p := by
  have hvalid : p.val.isValidChar := by
    have hlt := p.isLt
    rw [← Bool.not_eq_true, isSurrogate, Bool.and_eq_true, decide_eq_true_eq,
      decide_eq_true_eq] at h
    simp only [Nat.isValidChar]
    omega
  refine ⟨Char.ofNat p.val, Fin.ext ?_⟩
  change (Char.ofNat p.val).toNat = p.val
  rw [Char.ofNat, dif_pos hvalid]
  rfl

theorem isWhole_iff {text : CodeText} : IsWhole text ↔ ∃ characters, text = ofText characters := by
  constructor
  · intro h
    induction text with
    | nil => exact ⟨[], rfl⟩
    | cons p rest ih =>
        rw [IsWhole, List.forall_mem_cons] at h
        obtain ⟨c, rfl⟩ := exists_char h.1
        obtain ⟨characters, rfl⟩ := ih h.2
        exact ⟨c :: characters, rfl⟩
  · rintro ⟨characters, rfl⟩
    exact isWhole_ofText characters

theorem toChar?_ofChar (c : Char) : toChar? (ofChar c) = some c := by
  rw [toChar?, if_neg (by simp [isSurrogate_ofChar])]
  exact congrArg some (Char.ofNat_toNat c)

theorem toText_ofText (text : Text) : toText (ofText text) = text := by
  rw [toText, ofText, List.map_map]
  refine List.map_id'' (fun c => ?_) text
  simp [toChar?_ofChar]

theorem ofText_injective : Function.Injective ofText :=
  Function.LeftInverse.injective toText_ofText

@[simp] theorem isWhole_nil : IsWhole [] := fun _ h => absurd h (by simp)

@[simp] theorem isWhole_append {front back : CodeText} :
    IsWhole (front ++ back) ↔ IsWhole front ∧ IsWhole back := by
  simp only [IsWhole, List.forall_mem_append]

theorem isWhole_cons {p : CodePoint} {text : CodeText} :
    IsWhole (p :: text) ↔ isSurrogate p = false ∧ IsWhole text :=
  List.forall_mem_cons

end AddonBundle.CodePoint
