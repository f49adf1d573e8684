import AddonBundle.Proofs.Assoc
import AddonBundle.Proofs.Span
import AddonBundle.Proofs.Stylesheet.Renaming
/-!
# Classes as tokens of a selector

The classes that renaming finds are the longest tokens of a point and a name, wherever they stand in
the text. Renaming puts other tokens into their spans and leaves the gaps between them, and in the
new text these are the tokens again.
-/

namespace AddonBundle.Stylesheet

open Text

/-- A token is a point and a name, and no name character follows it. -/
structure IsClassToken (text : Text) (token : Found Text) : Prop where
  written : slice text token.start token.stop = '.' :: token.value
  stop_le : token.stop ≤ text.length
  ne_nil : token.value ≠ []
  chars : ∀ c ∈ token.value, isName c = true
  longest : ∀ c ∈ text[token.stop]?, isName c = false

theorem recogniseClass_iff {before : Option Char} {text name : Text} {length : Nat} :
    recogniseClass before text = some (name, length) ↔
      ∃ rest, IsRun name rest ∧ text = '.' :: (name ++ rest) ∧ length = name.length + 1 := by
  constructor
  · intro h
    cases hstart : startsClass text with
    | false =>
        rw [recogniseClass_plain hstart] at h
        cases h
    | true =>
        obtain ⟨run, rest, hrun, heq⟩ := startsClass_iff.mp hstart
        rw [heq, recogniseClass_run before hrun, Option.some.injEq, Prod.mk.injEq] at h
        obtain ⟨rfl, rfl⟩ := h
        exact ⟨rest, hrun, heq, rfl⟩
  · rintro ⟨rest, hrun, rfl, rfl⟩
    exact recogniseClass_run before hrun

/-- Inside a token stand only characters of its name, none of which is a point. -/
theorem isolated_recogniseClass : Isolated recogniseClass := by
  intro before text name length h i hpos hlt before'
  obtain ⟨rest, hrun, rfl, rfl⟩ := recogniseClass_iff.mp h
  obtain ⟨i, rfl⟩ : ∃ j, i = j + 1 := ⟨i - 1, by omega⟩
  have hinside : i < name.length := by omega
  rw [List.drop_succ_cons, List.drop_append_of_le_length (Nat.le_of_lt hinside),
    List.drop_eq_getElem_cons hinside, List.cons_append]
  apply recogniseClass_plain
  apply startsClass_cons_of_ne
  intro hpoint
  have hname := hrun.chars name[i] (List.getElem_mem hinside)
  rw [hpoint] at hname
  exact absurd hname (by decide)

theorem isClassToken_of_mem_findAll {text : Text} {token : Found Text}
    (h : token ∈ findAll recogniseClass text) : IsClassToken text token := by
  obtain ⟨-, hstop, hwritten, hrun⟩ : token.start < token.stop ∧ token.stop ≤ text.length ∧
      slice text token.start token.stop = '.' :: token.value ∧
      IsRun token.value (text.drop token.stop) := by
    refine written_in_span
      (P := fun _ name written rest => written = '.' :: name ∧ IsRun name rest) ?_ h
    intro before text name length hrec
    obtain ⟨rest, hrun, htext, hlength⟩ := recogniseClass_iff.mp hrec
    exact ⟨'.' :: name, rest, htext, List.cons_ne_nil _ _, hlength, rfl, hrun⟩
  refine ⟨hwritten, hstop, hrun.ne_nil, hrun.chars, ?_⟩
  rw [← List.head?_drop]
  exact hrun.stop

theorem IsClassToken.start_lt_stop {text : Text} {token : Found Text} (h : IsClassToken text token) :
    token.start < token.stop := by
  have hlength := congrArg List.length h.written
  rw [length_slice _ h.stop_le, List.length_cons] at hlength
  omega

/-- A text taken apart at a token. -/
theorem IsClassToken.split {text : Text} {token : Found Text} (h : IsClassToken text token) :
    text = text.take token.start ++ '.' :: (token.value ++ text.drop token.stop) := by
  calc text = text.take token.start ++ text.drop token.start := (List.take_append_drop _ _).symm
    _ = _ := by
      rw [← slice_append_drop (Nat.le_of_lt h.start_lt_stop), h.written, List.cons_append]

theorem IsClassToken.isRun {text : Text} {token : Found Text} (h : IsClassToken text token) :
    IsRun token.value (text.drop token.stop) := by
  refine ⟨h.ne_nil, h.chars, ?_⟩
  rw [List.head?_drop]
  exact h.longest

/-- Tokens that start together have the same name only if they are the same. -/
theorem IsClassToken.unique {text : Text} {token other : Found Text} (h : IsClassToken text token)
    (hother : IsClassToken text other) (hstart : token.start = other.start)
    (hvalue : token.value = other.value) : token = other := by
  have hlengths : token.stop - token.start = other.stop - other.start := by
    have hlength := congrArg List.length h.written
    have hlength' := congrArg List.length hother.written
    rw [length_slice _ h.stop_le] at hlength
    rw [length_slice _ hother.stop_le, ← hvalue] at hlength'
    exact hlength.trans hlength'.symm
  have hlt := h.start_lt_stop
  have hlt' := hother.start_lt_stop
  cases token
  cases other
  simp only [Found.mk.injEq]
  exact ⟨hvalue, hstart, by simp only at hstart hlengths hlt hlt'; omega⟩

/-- The classes that renaming finds are the tokens of the text. -/
theorem mem_findAll_recogniseClass {text : Text} {token : Found Text} :
    token ∈ findAll recogniseClass text ↔ IsClassToken text token := by
  constructor
  · exact isClassToken_of_mem_findAll
  · intro h
    have hrec := recogniseClass_run (charBefore none (text.take token.start)) h.isRun
    obtain ⟨found, hfound, hvalue, hstart⟩ :=
      mem_findAll_of_recognised isolated_recogniseClass (by simp) hrec
    have hle : token.start ≤ text.length := h.start_lt_stop.le.trans h.stop_le
    rw [List.length_take_of_le hle] at hstart
    rw [← h.split] at hfound
    rw [h.unique (isClassToken_of_mem_findAll hfound) hstart.symm hvalue.symm]
    exact hfound

/-! ## Renaming the tokens -/

/-- A text is the gaps between its tokens, woven with the tokens. -/
theorem weave_classes (text : Text) :
    let tokens := findAll recogniseClass text
    weave (gaps text 0 tokens) (tokens.map fun token => '.' :: token.value) = text := by
  intro tokens
  have hwritten : tokens.map (fun token => '.' :: token.value) =
      tokens.map fun token => slice text token.start token.stop :=
    List.map_congr_left fun token htoken => (isClassToken_of_mem_findAll htoken).written.symm
  rw [hwritten]
  refine weave_written text (fun token htoken => ⟨Nat.zero_le _, ?_⟩) (pairwise_foundFrom 0 _)
  exact (isClassToken_of_mem_findAll htoken).start_lt_stop.le

theorem renameClasses_eq_none_iff {mapping : ClassMapping} {text : Text} :
    renameClasses mapping text = none ↔
      ∃ name ∈ selectorClasses text, mapping.get? name = none := by
  rw [renameClasses_eq]
  split
  · rename_i hcovers
    rw [ClassMapping.covers_iff] at hcovers
    refine iff_of_false (by simp) ?_
    rintro ⟨name, hname, hnone⟩
    obtain ⟨generated, hsome⟩ := hcovers name hname
    rw [hnone] at hsome
    cases hsome
  · rename_i hcovers
    refine iff_of_true rfl ?_
    rw [ClassMapping.covers_iff] at hcovers
    push Not at hcovers
    obtain ⟨name, hname, hother⟩ := hcovers
    exact ⟨name, hname, Option.eq_none_iff_forall_ne_some.mpr hother⟩

theorem renameClasses_eq_some_iff {mapping : ClassMapping} {text result : Text} :
    renameClasses mapping text = some result ↔
      (∀ name ∈ selectorClasses text, ∃ generated, mapping.get? name = some generated) ∧
        renameText mapping.naming text = result := by
  rw [renameClasses_eq, ← ClassMapping.covers_iff]
  split
  · rename_i hcovers
    simp [hcovers]
  · rename_i hcovers
    simp [hcovers]

/-- Classes that are mapped, by the names that the mapping gives them. -/
theorem ClassMapping.map_get?_of_covers {mapping : ClassMapping} {names : List Text}
    (h : ∀ name ∈ names, ∃ generated, mapping.get? name = some generated) :
    names.map mapping.get? = (names.map mapping.naming).map some := by
  rw [List.map_map]
  refine List.map_congr_left fun name hname => ?_
  obtain ⟨generated, hget⟩ := h name hname
  rw [Function.comp_apply, ClassMapping.naming, hget, Option.getD_some]

/-- A selector is renamed token by token, or not at all when a class in it is not mapped. Nothing
changes between the tokens, the new tokens are those of the new text, and classes that a mapping has
besides make no difference. -/
theorem renameClasses_exact (mapping : ClassMapping)
    (hnames : ∀ name generated, mapping.get? name = some generated →
      generated ≠ [] ∧ ∀ c ∈ generated, isName c = true) (selector : Text) :
    let tokens := findAll recogniseClass selector
    (renameClasses mapping selector = none ↔
      ∃ name ∈ selectorClasses selector, mapping.get? name = none) ∧
    (∀ token, token ∈ tokens ↔ IsClassToken selector token) ∧
    (tokens.Pairwise fun a b => a.stop ≤ b.start) ∧
    tokens.map (·.value) = selectorClasses selector ∧
    weave (gaps selector 0 tokens) (tokens.map fun token => '.' :: token.value) = selector ∧
    ∀ result, renameClasses mapping selector = some result →
      ∃ generated : List Text,
        (selectorClasses selector).map mapping.get? = generated.map some ∧
        result = weave (gaps selector 0 tokens) (generated.map ('.' :: ·)) ∧
        selectorClasses result = generated ∧
        ∀ larger : ClassMapping,
          (∀ name, mapping.get? name ≠ none → larger.get? name = mapping.get? name) →
          renameClasses larger selector = some result := by
  intro tokens
  refine ⟨renameClasses_eq_none_iff, fun token => mem_findAll_recogniseClass,
    pairwise_foundFrom 0 _, rfl, weave_classes selector, fun result hresult => ?_⟩
  obtain ⟨hmapped, rfl⟩ := renameClasses_eq_some_iff.mp hresult
  refine ⟨(selectorClasses selector).map mapping.naming, ClassMapping.map_get?_of_covers hmapped,
    ?_, ?_, ?_⟩
  · calc renameText mapping.naming selector
        = weave (gaps selector 0 tokens) (tokens.map fun t => '.' :: mapping.naming t.value) :=
          substitute_eq_weave recogniseClass _ selector
      _ = _ := by
          rw [selectorClasses, List.map_map, List.map_map]
          rfl
  · apply selectorClasses_renameText
    intro name hname
    obtain ⟨generated, hget⟩ := hmapped name hname
    rw [ClassMapping.naming, hget, Option.getD_some]
    exact hnames name generated hget
  · intro larger hlarger
    have hsame : ∀ name ∈ selectorClasses selector, larger.get? name = mapping.get? name := by
      intro name hname
      obtain ⟨generated, hget⟩ := hmapped name hname
      exact hlarger name (by rw [hget]; exact Option.some_ne_none generated)
    refine renameClasses_eq_some_iff.mpr ⟨fun name hname => ?_, renameText_congr fun name hname => ?_⟩
    · rw [hsame name hname]
      exact hmapped name hname
    · rw [ClassMapping.naming, ClassMapping.naming, hsame name hname]

/-- Tokens side by side, behind a point of their own, and a new name that is itself mapped. -/
theorem renameClasses_exact_adjacent :
    let mapping : ClassMapping :=
      ⟨"s".toList, [("a".toList, "b".toList), ("b".toList, "s_b_1-2".toList)]⟩
    let selector := "..a.b:not(.a)".toList
    let result := "..b.s_b_1-2:not(.b)".toList
    let tokens := findAll recogniseClass selector
    (∀ name generated, mapping.get? name = some generated →
      generated ≠ [] ∧ ∀ c ∈ generated, isName c = true) ∧
    renameClasses mapping selector = some result ∧
    ∃ generated : List Text,
      (selectorClasses selector).map mapping.get? = generated.map some ∧
      result = weave (gaps selector 0 tokens) (generated.map ('.' :: ·)) ∧
      selectorClasses result = generated ∧
      ∀ larger : ClassMapping,
        (∀ name, mapping.get? name ≠ none → larger.get? name = mapping.get? name) →
        renameClasses larger selector = some result := by
  intro mapping selector result tokens
  have hnames : ∀ name generated, mapping.get? name = some generated →
      generated ≠ [] ∧ ∀ c ∈ generated, isName c = true := by
    intro name generated hget
    have hall : (mapping.classes.all fun entry => entry.2 ≠ [] && entry.2.all isName) = true := by
      decide +kernel
    have hentry := List.all_eq_true.mp hall _ (Assoc.mem_of_get? hget)
    rwa [Bool.and_eq_true, decide_eq_true_eq, List.all_eq_true] at hentry
  have hresult : renameClasses mapping selector = some result := by
    decide +kernel
  obtain ⟨-, -, -, -, -, hexact⟩ := renameClasses_exact mapping hnames selector
  exact ⟨hnames, hresult, hexact result hresult⟩

end AddonBundle.Stylesheet
