import AddonBundle.Proofs.Json.Reading
import AddonBundle.Proofs.Lines
/-!
# JSON texts and line ends

The line ends of a JSON text stand between its parts: none is inside a string. So making them
uniform changes neither whether a text is a list of strings nor which strings those are.
-/

namespace AddonBundle.Json

open Text

private theorem ne_line_of_hexDigit? {c : Char} {n : Nat} (h : hexDigit? c = some n) :
    c ≠ '\r' ∧ c ≠ '\n' := by
  constructor <;>
    (rintro rfl; simp [hexDigit?] at h)

/-- Four digits have no line end in them. -/
private theorem digits_of_hexUnit? {digits : Text} {n : Nat} (h : hexUnit? digits = some n) :
    digits.length = 4 ∧ '\r' ∉ digits ∧ '\n' ∉ digits := by
  unfold hexUnit? at h
  split at h
  · rename_i a b c d
    simp only [Option.bind_eq_bind, Option.bind_eq_some_iff] at h
    obtain ⟨_, ha, _, hb, _, hc, _, hd, -⟩ := h
    have := ne_line_of_hexDigit? ha
    have := ne_line_of_hexDigit? hb
    have := ne_line_of_hexDigit? hc
    have := ne_line_of_hexDigit? hd
    simp_all [eq_comm]
  · cases h

private theorem unit_uniformLines {text : Text} {n : Nat} (h : hexUnit? (text.take 4) = some n) :
    hexUnit? ((uniformLines text).take 4) = some n ∧
      (uniformLines text).drop 4 = uniformLines (text.drop 4) := by
  obtain ⟨hlength, hreturn, -⟩ := digits_of_hexUnit? h
  have hparts : uniformLines text = text.take 4 ++ uniformLines (text.drop 4) := by
    conv_lhs => rw [← List.take_append_drop 4 text]
    exact uniformLines_append_plain _ hreturn
  rw [hparts, List.take_left' hlength, List.drop_left' hlength]
  exact ⟨h, rfl⟩

private theorem unit_of_uniformLines {text : Text} {n : Nat}
    (h : hexUnit? ((uniformLines text).take 4) = some n) : hexUnit? (text.take 4) = some n := by
  obtain ⟨hlength, -, hfeed⟩ := digits_of_hexUnit? h
  obtain ⟨back, hback, -⟩ := exists_of_uniformLines_append_plain hfeed
    (List.take_append_drop 4 (uniformLines text)).symm
  rwa [hback, List.take_left' hlength]

private theorem ne_line_of_shortEscapes {c : Char} {n : Nat} (h : (c, n) ∈ shortEscapes) :
    c ≠ '\r' ∧ c ≠ '\n' := by
  constructor <;>
    (rintro rfl; simp [shortEscapes] at h)

private theorem ne_line_of_control {c : Char} (h : 0x1f < c.toNat) : c ≠ '\r' ∧ c ≠ '\n' := by
  constructor <;>
    (rintro rfl; exact absurd h (by decide))

theorem WritesString.uniformLines {text rest : Text} {s : CodeText} (h : WritesString text s rest) :
    WritesString (uniformLines text) s (uniformLines rest) := by
  have hescape : ∀ {c : Char} (more : Text), c ≠ '\r' →
      Text.uniformLines ('\\' :: c :: more) = '\\' :: c :: Text.uniformLines more := by
    intro c more hc
    rw [uniformLines_cons_of_ne _ (by decide), uniformLines_cons_of_ne _ hc]
  induction h with
  | close rest =>
      rw [uniformLines_cons_of_ne rest (by decide)]
      exact .close _
  | plain hquote hescape hcontrol _ ih =>
      rw [uniformLines_cons_of_ne _ (ne_line_of_control hcontrol).1]
      exact .plain hquote hescape hcontrol ih
  | short hc _ ih =>
      rw [hescape _ (ne_line_of_shortEscapes hc).1]
      exact .short hc ih
  | unit hunit halone _ ih =>
      obtain ⟨hunit', hdrop⟩ := unit_uniformLines hunit
      rw [hescape _ (by decide)]
      refine .unit hunit' (fun next low hnext hlow => ?_) (hdrop ▸ ih)
      rw [hdrop] at hnext
      have hplain : '\n' ∉ ['\\', 'u'] := by decide
      obtain ⟨back, hback, rfl⟩ := exists_of_uniformLines_append_plain hplain hnext
      exact halone back low hback (unit_of_uniformLines hlow)
  | pair hhigh hnext hlow hpair _ ih =>
      obtain ⟨hhigh', hdrop⟩ := unit_uniformLines hhigh
      obtain ⟨hlow', hdropLow⟩ := unit_uniformLines hlow
      rw [hescape _ (by decide)]
      refine .pair hhigh' ?_ hlow' hpair (hdropLow ▸ ih)
      rw [hdrop, hnext, hescape _ (by decide)]

end AddonBundle.Json
