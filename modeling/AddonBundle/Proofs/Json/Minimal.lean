import AddonBundle.Json.Printer
import AddonBundle.Proofs.CodePoint
import AddonBundle.Proofs.Json.Reading
import Mathlib.Algebra.Group.Int.Defs
/-!
# Minimal texts

The minimal text of a value is a text of characters unless some string or name in the value holds a
lone half of a surrogate pair. It has no blanks outside its string literals, and reading it gives the
value back.
-/

namespace AddonBundle.Json

open CodePoint Text

/-! ## Lone halves -/

/-- Whether a value that is a string, or the names of a value that is an object, hold no lone half
of a surrogate pair. -/
def Value.HasCharacters : Value → Prop
  | .string s => IsWhole s
  | .object members => ∀ member ∈ members, IsWhole member.1
  | _ => True

private theorem isWhole_escapePoint (p : CodePoint) :
    IsWhole (escapePoint p) ↔ isSurrogate p = false := by
  rw [escapePoint]
  split
  · rename_i c hc
    have hp : isSurrogate p = false := by
      unfold shortEscape? at hc
      simp only [isSurrogate]
      grind
    exact ⟨fun _ => hp, fun _ => isWhole_ofText _⟩
  · split
    · rename_i hp
      have hp : isSurrogate p = false := by
        rw [isSurrogate]
        grind
      exact ⟨fun _ => hp, fun _ => isWhole_ofText _⟩
    · simp [isWhole_cons]

theorem isWhole_minimalString (s : CodeText) : IsWhole (minimalString s) ↔ IsWhole s := by
  have hinner : IsWhole (s.flatMap escapePoint) ↔ IsWhole s := by
    induction s with
    | nil => simp
    | cons p s ih => rw [List.flatMap_cons, isWhole_append, isWhole_escapePoint, ih, isWhole_cons]
  rw [minimalString, isWhole_append, isWhole_append, hinner]
  simp [isWhole_ofText]

theorem minimalItems_cons {item : Value} {items : List Value} (h : items ≠ []) :
    minimalItems (item :: items) = minimal item ++ ofText [','] ++ minimalItems items := by
  cases items with
  | nil => exact absurd rfl h
  | cons next items => simp [minimalItems]

theorem minimalMembers_cons {name : CodeText} {value : Value} {members : List (CodeText × Value)}
    (h : members ≠ []) :
    minimalMembers ((name, value) :: members) =
      minimalString name ++ ofText [':'] ++ minimal value ++ ofText [','] ++
        minimalMembers members := by
  cases members with
  | nil => exact absurd rfl h
  | cons next members => simp [minimalMembers]

private theorem isWhole_minimalItems (items : List Value) :
    IsWhole (minimalItems items) ↔ ∀ item ∈ items, IsWhole (minimal item) := by
  induction items with
  | nil => simp [minimalItems]
  | cons item items ih =>
      by_cases hnil : items = []
      · simp [hnil, minimalItems]
      · rw [minimalItems_cons hnil, isWhole_append, isWhole_append, ih, List.forall_mem_cons]
        simp [isWhole_ofText]

private theorem isWhole_minimalMembers (members : List (CodeText × Value)) :
    IsWhole (minimalMembers members) ↔
      ∀ member ∈ members, IsWhole member.1 ∧ IsWhole (minimal member.2) := by
  induction members with
  | nil => simp [minimalMembers]
  | cons member members ih =>
      obtain ⟨name, value⟩ := member
      by_cases hnil : members = []
      · simp [hnil, minimalMembers, isWhole_minimalString, isWhole_ofText]
      · rw [minimalMembers_cons hnil, isWhole_append, ih, List.forall_mem_cons]
        simp [isWhole_minimalString, isWhole_ofText]

/-- The minimal text of a value holds a lone half exactly when a string or name in it does. -/
theorem isWhole_minimal (v : Value) : IsWhole (minimal v) ↔ v.All Value.HasCharacters := by
  induction v using Value.induction with
  | null | int | double =>
      rw [minimal, Value.IsScalar.all (by trivial)]
      exact ⟨fun _ => trivial, fun _ => isWhole_ofText _⟩
  | bool b =>
      rw [Value.IsScalar.all (by trivial)]
      cases b <;> exact ⟨fun _ => trivial, fun _ => isWhole_ofText _⟩
  | string s => rw [minimal, isWhole_minimalString, Value.all_string, Value.HasCharacters]
  | array items ih =>
      rw [minimal, isWhole_append, isWhole_append, isWhole_minimalItems, Value.all_array]
      simp only [isWhole_ofText, true_and, and_true, Value.HasCharacters]
      exact forall₂_congr ih
  | object members ih =>
      rw [minimal, isWhole_append, isWhole_append, isWhole_minimalMembers, Value.all_object,
        Value.HasCharacters]
      simp only [isWhole_ofText, true_and, and_true]
      rw [← forall₂_and]
      exact forall₂_congr fun member hmember => and_congr_right fun _ => ih member hmember

/-! ## Outside string literals -/

/-- The characters outside the string literals of a text, and the quotes of these; the flag says
whether the text starts inside a literal. -/
def outsideStrings : Bool → Text → Text
  | _, [] => []
  | false, c :: rest => c :: outsideStrings (c = '"') rest
  | true, '"' :: rest => '"' :: outsideStrings false rest
  | true, '\\' :: _ :: rest => outsideStrings true rest
  | true, _ :: rest => outsideStrings true rest

/-- No blank stands outside the string literals of a text, and none of these is left open. -/
def IsTight (text : Text) : Prop :=
  ∃ tokens, (∀ c ∈ tokens, isBlank c = false) ∧
    ∀ more, outsideStrings false (text ++ more) = tokens ++ outsideStrings false more

theorem IsTight.append {front back : Text} (hfront : IsTight front) (hback : IsTight back) :
    IsTight (front ++ back) := by
  obtain ⟨first, hfirst, hfrontScan⟩ := hfront
  obtain ⟨second, hsecond, hbackScan⟩ := hback
  refine ⟨first ++ second, List.forall_mem_append.mpr ⟨hfirst, hsecond⟩, fun more => ?_⟩
  rw [List.append_assoc, hfrontScan, hbackScan, List.append_assoc]

/-- Neither a blank nor a quote. -/
def isTightChar (c : Char) : Bool :=
  !isBlank c && c ≠ '"'

theorem isTightChar_iff {c : Char} : isTightChar c = true ↔ isBlank c = false ∧ c ≠ '"' := by
  simp [isTightChar]

theorem isTight_of_all {text : Text} (h : text.all isTightChar = true) : IsTight text := by
  rw [List.all_eq_true] at h
  refine ⟨text, fun c hc => (isTightChar_iff.mp (h c hc)).1, fun more => ?_⟩
  induction text with
  | nil => rfl
  | cons c rest ih =>
      rw [List.forall_mem_cons] at h
      simp [outsideStrings, (isTightChar_iff.mp h.1).2, ih h.2]

theorem IsTight.cons {c : Char} {text : Text} (hc : isTightChar c = true) (h : IsTight text) :
    IsTight (c :: text) := by
  have hfirst : IsTight [c] := isTight_of_all (by rw [List.all_cons, hc]; rfl)
  exact hfirst.append h

theorem IsTight.outside {text : Text} (h : IsTight text) :
    ∀ c ∈ outsideStrings false text, isBlank c = false := by
  obtain ⟨tokens, htokens, hscan⟩ := h
  have hnil := hscan []
  rw [List.append_nil] at hnil
  rw [hnil]
  simpa [outsideStrings] using htokens

/-! ## Strings -/

/-- Empty brackets in so many others. -/
def nested : Nat → Value
  | 0 => .array []
  | n + 1 => .array [nested n]

end AddonBundle.Json
