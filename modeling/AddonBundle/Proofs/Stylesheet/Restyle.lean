import AddonBundle.Proofs.Stylesheet.ClassMapping
import AddonBundle.Proofs.Stylesheet.NormalText
import AddonBundle.Stylesheet.Restyle
/-!
# Restyled rules

A rule is restyled by renaming classes in the normal text of its selectors. This does what it
should, under every mapping, exactly when the classes found in the text are those of the selectors.
The text that comes out is then read as the renamed selectors, provided that it is for one sample
of generated names and that no generated name starts with a digit.
-/

namespace AddonBundle.Stylesheet

open Text

variable {mapping : ClassMapping} {block : Block} {selectors : List (List Part)}

/-- Markers that come from decomposed names. -/
def Decomposed (markers : List Script.ClassMarker) : Prop :=
  ∀ marker ∈ markers, ∃ token, Script.decompose token = some marker

/-- Markers whose generated names do not start with a digit. -/
def StartsNoDigit (markers : List Script.ClassMarker) : Prop :=
  ∀ marker ∈ markers, ∀ c ∈ marker.generated.head?, isDecimal c = false

/-- What a mapping should make of a rule: it is restyled when each of its classes is mapped, and
its text is then that of the renamed selectors. -/
structure Restyles (mapping : ClassMapping) (block : Block) (selectors : List (List Part)) :
    Prop where
  emitted : (restyleBlock mapping block).isSome = true ↔
    mapping.covers (classNames selectors) = true
  text : ∀ rule ∈ restyleBlock mapping block,
    rule.after = selectorsText (renameSelectors mapping.naming selectors)

/-! ## One rule -/

private theorem restyleBlock_eq (mapping : ClassMapping) (hrule : block.isAtRule = false)
    (hread : readSelectors block.prelude = some selectors) :
    restyleBlock mapping block =
      if mapping.covers (selectorClasses (selectorsText selectors)) then
        some ⟨selectorsText selectors, renameText mapping.naming (selectorsText selectors),
          renderRule (renameText mapping.naming (selectorsText selectors))
            (declarations block.body)⟩
      else none := by
  have hnormal : normalSelector block.prelude = some (selectorsText selectors) := by
    rw [normalSelector, hread]
    rfl
  rw [restyleBlock, hrule, if_neg (by decide), hnormal, Option.bind_eq_bind, Option.bind_some,
    renameClasses_eq]
  split <;> rfl

private theorem renameSelectors_congr {naming naming' : Text → Text}
    (h : ∀ name ∈ classNames selectors, naming name = naming' name) :
    renameSelectors naming selectors = renameSelectors naming' selectors := by
  apply List.map_congr_left
  intro parts hparts
  apply List.map_congr_left
  intro part hpart
  cases part with
  | ofClass name =>
      have hname : name ∈ classNames selectors :=
        List.mem_flatMap.mpr ⟨parts, hparts, List.mem_filterMap.mpr ⟨_, hpart, rfl⟩⟩
      simp only [Part.rename, h name hname]
  | _ => rfl

private theorem renameSelectors_comp (naming naming' : Text → Text)
    (selectors : List (List Part)) :
    renameSelectors naming' (renameSelectors naming selectors) =
      renameSelectors (naming' ∘ naming) selectors := by
  have hpart : ∀ part : Part, (part.rename naming).rename naming' = part.rename (naming' ∘ naming) := by
    intro part
    cases part <;> rfl
  simp [renameSelectors, hpart]

/-! ## Generated names -/

variable {markers : List Script.ClassMarker}

private theorem isClassName_generated (hmarkers : Decomposed markers)
    (hdigits : StartsNoDigit markers) {marker : Script.ClassMarker} (h : marker ∈ markers) :
    IsClassName marker.generated := by
  obtain ⟨token, htoken⟩ := hmarkers marker h
  have hdigit := hdigits marker h
  obtain ⟨heq, hchars, hlong, hword⟩ := Script.decompose_eq_some htoken
  rw [heq] at hdigit ⊢
  refine ⟨hchars, ?_, by omega⟩
  cases token with
  | nil => simp at hlong
  | cons c rest => exact ⟨c, rest, rfl, isIdentStart_of_isWord (hword c rfl) (hdigit c rfl)⟩

private theorem isName_of_get? (hmarkers : Decomposed markers)
    (hmapping : mapping ∈ groupMarkers markers) {name generated : Text}
    (h : mapping.get? name = some generated) : ∀ c ∈ generated, isName c = true := by
  obtain ⟨marker, hmarker, -, rfl⟩ := exists_marker_of_get? hmapping h
  obtain ⟨token, htoken⟩ := hmarkers marker hmarker
  obtain ⟨heq, hchars, -⟩ := Script.decompose_eq_some htoken
  rw [heq]
  exact hchars

/-- Names for all classes: those of a mapping, and one other. -/
private def total (mapping : ClassMapping) (name : Text) : Text :=
  (mapping.get? name).getD "none".toList

private theorem isClassName_total (hmarkers : Decomposed markers) (hdigits : StartsNoDigit markers)
    (hmapping : mapping ∈ groupMarkers markers) (name : Text) :
    IsClassName (total mapping name) := by
  rw [total]
  cases hget : mapping.get? name with
  | none => exact ⟨List.all_eq_true.mp (by decide), ⟨'n', "one".toList, rfl, by decide⟩, by decide⟩
  | some generated =>
      obtain ⟨marker, hmarker, -, rfl⟩ := exists_marker_of_get? hmapping hget
      exact isClassName_generated hmarkers hdigits hmarker

private theorem total_eq_naming {name : Text} (h : ∃ generated, mapping.get? name = some generated) :
    total mapping name = mapping.naming name := by
  obtain ⟨generated, hget⟩ := h
  rw [total, ClassMapping.naming, hget]
  rfl

/-! ## Samples -/

private theorem decomposed_sample (width : Text → Nat) {names : List Text}
    (hnames : ∀ name ∈ names, name ≠ [] ∧ ∀ c ∈ name, isName c = true) :
    Decomposed (names.map fun name => Script.sampleMarker (width name) name) ∧
      StartsNoDigit (names.map fun name => Script.sampleMarker (width name) name) := by
  constructor
  · intro marker hmarker
    obtain ⟨name, hname, rfl⟩ := List.mem_map.mp hmarker
    exact ⟨_, Script.decompose_sampleName _ (hnames name hname).1 (hnames name hname).2⟩
  · intro marker hmarker
    obtain ⟨name, -, rfl⟩ := List.mem_map.mp hmarker
    intro c hc
    cases hc
    decide

private theorem isName_sampleName {width : Nat} {name : Text} (hne : name ≠ [])
    (hchars : ∀ c ∈ name, isName c = true) : ∀ c ∈ Script.sampleName width name, isName c = true :=
  (Script.decompose_eq_some (Script.decompose_sampleName width hne hchars)).2.1

/-- A sample mapping for the classes found in a text. It maps one more, so that there is one. -/
private theorem exists_sample (width : Text → Nat) (text : Text) :
    ∃ markers, Decomposed markers ∧ StartsNoDigit markers ∧ ∃ mapping ∈ groupMarkers markers,
      mapping.covers (selectorClasses text) = true ∧
      renameText mapping.naming text =
        renameText (fun name => Script.sampleName (width name) name) text ∧
      ∀ name, (∃ generated, mapping.get? name = some generated) →
        name ≠ [] ∧ (∀ c ∈ name, isName c = true) ∧
          mapping.naming name = Script.sampleName (width name) name := by
  have hnames : ∀ name ∈ ['x'] :: selectorClasses text, name ≠ [] ∧ ∀ c ∈ name, isName c = true := by
    intro name hname
    rcases List.mem_cons.mp hname with rfl | hname
    · exact ⟨by decide, List.all_eq_true.mp (by decide)⟩
    · exact isName_of_mem_selectorClasses hname
  obtain ⟨hdecomposed, hdigits⟩ := decomposed_sample width hnames
  obtain ⟨mapping, hmapping, hget⟩ := exists_sample_mapping width (List.cons_ne_nil ['x'] _)
  have hcovers : mapping.covers (selectorClasses text) = true := by
    rw [ClassMapping.covers_iff]
    intro name hname
    exact ⟨_, by rw [hget, if_pos (List.mem_cons_of_mem _ hname)]⟩
  have hsample : ∀ name, (∃ generated, mapping.get? name = some generated) →
      name ≠ [] ∧ (∀ c ∈ name, isName c = true) ∧
        mapping.naming name = Script.sampleName (width name) name := by
    rintro name ⟨generated, hgenerated⟩
    rw [hget] at hgenerated
    split at hgenerated
    · rename_i hname
      refine ⟨(hnames name hname).1, (hnames name hname).2, ?_⟩
      rw [ClassMapping.naming, hget, if_pos hname]
      rfl
    · cases hgenerated
  refine ⟨_, hdecomposed, hdigits, mapping, hmapping, hcovers, ?_, hsample⟩
  apply renameText_congr
  intro name hname
  exact (hsample name (ClassMapping.covers_iff.mp hcovers name hname)).2.2

/-- The class that a sample of a name stands for. -/
private def unsample (sample : Text) : Text :=
  (sample.drop 2).take (sample.length - 4)

private theorem unsample_sampleName (name : Text) : unsample (Script.sampleName 0 name) = name := by
  have hdrop : (Script.sampleName 0 name).drop 2 = name ++ ['_', 'h'] := by
    simp [Script.sampleName]
  rw [unsample, hdrop, Script.length_sampleName, Nat.zero_add, Nat.add_sub_cancel, List.take_left]

/-- A sample of the restyled text of selectors. -/
def sampleText (selectors : List (List Part)) : Text :=
  renameText (Script.sampleName 0) (selectorsText selectors)

/-- A plain sample that is read as it should be makes every restyled text be read so. -/
private theorem readSelectors_naming (hmarkers : Decomposed markers)
    (hdigits : StartsNoDigit markers) (hmapping : mapping ∈ groupMarkers markers)
    (hplain : IsPlain (withBlock (sampleText selectors)))
    (hclasses : selectorClasses (selectorsText selectors) = classNames selectors)
    (hsample : readSelectors (sampleText selectors) =
      some (renameSelectors (Script.sampleName 0) selectors))
    (hcovers : mapping.covers (classNames selectors) = true) :
    readSelectors (renameText mapping.naming (selectorsText selectors)) =
      some (renameSelectors mapping.naming selectors) := by
  rw [ClassMapping.covers_iff] at hcovers
  have hmapped : ∀ name ∈ classNames selectors,
      mapping.naming name = (total mapping ∘ unsample) (Script.sampleName 0 name) := by
    intro name hname
    rw [Function.comp_apply, unsample_sampleName, total_eq_naming (hcovers name hname)]
  have htext : renameText mapping.naming (selectorsText selectors) =
      renameText (total mapping ∘ unsample) (sampleText selectors) := by
    rw [sampleText, renameText_renameText]
    · apply renameText_congr
      intro name hname
      rw [hclasses] at hname
      exact hmapped name hname
    · intro name hname
      obtain ⟨hne, hchars⟩ := isName_of_mem_selectorClasses hname
      exact ⟨by simp [Script.sampleName], isName_sampleName hne hchars⟩
  have hparts : renameSelectors mapping.naming selectors =
      renameSelectors (total mapping ∘ unsample)
        (renameSelectors (Script.sampleName 0) selectors) := by
    rw [renameSelectors_comp]
    exact renameSelectors_congr hmapped
  have hnames : ∀ name, IsClassName ((total mapping ∘ unsample) name) :=
    fun name => isClassName_total hmarkers hdigits hmapping (unsample name)
  rw [htext, hparts, readSelectors_renameText hnames hplain, hsample, Option.map_some]

/-! ## All mappings -/

private theorem restyles_of_selectorClasses (hrule : block.isAtRule = false)
    (hread : readSelectors block.prelude = some selectors)
    (hclasses : selectorClasses (selectorsText selectors) = classNames selectors)
    (hmarkers : Decomposed markers) (hmapping : mapping ∈ groupMarkers markers) :
    Restyles mapping block selectors := by
  have hrestyled := restyleBlock_eq mapping hrule hread
  rw [hclasses] at hrestyled
  constructor
  · rw [hrestyled]
    split <;> simp_all
  · intro rule hrule
    rw [hrestyled] at hrule
    split at hrule
    · rename_i hcovers
      cases hrule
      apply renameText_selectorsText hclasses
      intro name hname
      obtain ⟨generated, hget⟩ := ClassMapping.covers_iff.mp hcovers name hname
      rw [ClassMapping.naming, hget]
      exact isName_of_get? hmarkers hmapping hget
    · cases hrule

/-- Where a rule is restyled as it should be under every mapping, it is so under one that makes
longer names grow more, and nothing but the classes can then have been renamed. -/
private theorem selectorClasses_of_restyles (hrule : block.isAtRule = false)
    (hread : readSelectors block.prelude = some selectors)
    (h : ∀ markers, Decomposed markers → StartsNoDigit markers →
      ∀ mapping ∈ groupMarkers markers, Restyles mapping block selectors) :
    selectorClasses (selectorsText selectors) = classNames selectors := by
  obtain ⟨markers, hmarkers, hdigits, mapping, hmapping, hcovers, hfound, hsample⟩ :=
    exists_sample List.length (selectorsText selectors)
  obtain ⟨hemitted, htext⟩ := h markers hmarkers hdigits mapping hmapping
  have hrestyled := restyleBlock_eq mapping hrule hread
  rw [if_pos hcovers] at hrestyled
  rw [hrestyled] at hemitted htext
  have hnames := ClassMapping.covers_iff.mp (hemitted.mp rfl)
  have hrenamed := htext _ rfl
  have hparts : renameSelectors mapping.naming selectors =
      renameSelectors (fun name => Script.sampleName name.length name) selectors := by
    apply renameSelectors_congr
    intro name hname
    exact (hsample name (hnames name hname)).2.2
  rw [hparts] at hrenamed
  apply selectorClasses_selectorsText _ _ _ (hfound.symm.trans hrenamed)
  · intro name hname
    obtain ⟨hne, hchars, -⟩ := hsample name (hnames name hname)
    exact ⟨hne, hchars⟩
  · exact fun name => Script.length_sampleName _ _
  · intro name hname
    obtain ⟨hne, hchars, -⟩ := hsample name (hnames name hname)
    exact isName_sampleName hne hchars

/-- Rules are restyled as they should be under every mapping exactly when the classes found in the
normal text are those of the selectors. Where the sample is plain, their text is moreover read as
the renamed selectors exactly when the sample is, as long as no generated name starts with a
digit. -/
theorem restyleBlock_iff (hrule : block.isAtRule = false)
    (hread : readSelectors block.prelude = some selectors) :
    ((∀ markers, Decomposed markers → ∀ mapping ∈ groupMarkers markers,
        Restyles mapping block selectors) ↔
      selectorClasses (selectorsText selectors) = classNames selectors) ∧
    (IsPlain (withBlock (sampleText selectors)) →
      ((∀ markers, Decomposed markers → StartsNoDigit markers → ∀ mapping ∈ groupMarkers markers,
          Restyles mapping block selectors ∧ ∀ rule ∈ restyleBlock mapping block,
            readSelectors rule.after = some (renameSelectors mapping.naming selectors)) ↔
        selectorClasses (selectorsText selectors) = classNames selectors ∧
          readSelectors (sampleText selectors) =
            some (renameSelectors (Script.sampleName 0) selectors))) := by
  refine ⟨⟨fun h => ?_, fun h markers hmarkers mapping hmapping => ?_⟩, fun hplain =>
    ⟨fun h => ?_, fun h markers hmarkers hdigits mapping hmapping => ?_⟩⟩
  · exact selectorClasses_of_restyles hrule hread fun markers hmarkers _ => h markers hmarkers
  · exact restyles_of_selectorClasses hrule hread h hmarkers hmapping
  · have hclasses : selectorClasses (selectorsText selectors) = classNames selectors :=
      selectorClasses_of_restyles hrule hread fun markers hmarkers hdigits mapping hmapping =>
        (h markers hmarkers hdigits mapping hmapping).1
    refine ⟨hclasses, ?_⟩
    obtain ⟨markers, hmarkers, hdigits, mapping, hmapping, hcovers, hfound, hsample⟩ :=
      exists_sample (fun _ => 0) (selectorsText selectors)
    have hrestyled := restyleBlock_eq mapping hrule hread
    rw [if_pos hcovers] at hrestyled
    have hback := (h markers hmarkers hdigits mapping hmapping).2 _ hrestyled
    rw [hclasses] at hcovers
    have hparts : renameSelectors mapping.naming selectors =
        renameSelectors (Script.sampleName 0) selectors := by
      apply renameSelectors_congr
      intro name hname
      exact (hsample name (ClassMapping.covers_iff.mp hcovers name hname)).2.2
    rwa [hfound, hparts] at hback
  · have hrestyles := restyles_of_selectorClasses hrule hread h.1 hmarkers hmapping
    refine ⟨hrestyles, fun rule hemitted => ?_⟩
    have hcovers := hrestyles.emitted.mp (Option.isSome_of_mem hemitted)
    have hrestyled := restyleBlock_eq mapping hrule hread
    rw [h.1, if_pos hcovers, Option.mem_def.mp hemitted] at hrestyled
    cases hrestyled
    exact readSelectors_naming hmarkers hdigits hmapping hplain h.1 h.2 hcovers

/-- The rule of a class, a pseudo-class and a child meets all of the conditions. -/
theorem restyleBlock_iff_hover :
    ∃ block selectors, block = ⟨".a:hover > b".toList, "color: red".toList⟩ ∧
      readSelectors block.prelude = some selectors ∧
      ∀ markers, Decomposed markers → StartsNoDigit markers → ∀ mapping ∈ groupMarkers markers,
        Restyles mapping block selectors ∧ ∀ rule ∈ restyleBlock mapping block,
          readSelectors rule.after = some (renameSelectors mapping.naming selectors) := by
  refine ⟨_, [[.ofClass ['a'], .pseudo ":hover".toList, .combinator .child,
    .element .unqualified ['b']]], rfl, by decide +kernel, ?_⟩
  refine ((restyleBlock_iff (by decide) (by decide +kernel)).2 ⟨?_, ?_⟩).mpr ⟨?_, ?_⟩
  all_goals decide +kernel

/-- Rules that are not restyled as they should be: one that is left out for the text of a string,
one that is restyled by the start of its class, and one whose new selector is not read. -/
theorem restyleBlock_misses :
    (∃ markers, Decomposed markers ∧ ∃ mapping ∈ groupMarkers markers,
      ∃ selectors ∈ readSelectors ".a[t=\".b\"]".toList,
        mapping.covers (classNames selectors) = true ∧
          restyleBlock mapping ⟨".a[t=\".b\"]".toList, "color: red".toList⟩ = none) ∧
    (∃ markers, Decomposed markers ∧ ∃ mapping ∈ groupMarkers markers,
      ∃ selectors ∈ readSelectors ".a😀".toList,
        mapping.covers (classNames selectors) = false ∧
          (restyleBlock mapping ⟨".a😀".toList, "color: red".toList⟩).isSome = true) ∧
    (∃ markers, Decomposed markers ∧ ∃ mapping ∈ groupMarkers markers,
      ∃ rule ∈ restyleBlock mapping ⟨".a".toList, "color: red".toList⟩,
        readSelectors rule.after = none) := by
  have hname : ∀ name ∈ [['a']], name ≠ [] ∧ ∀ c ∈ name, isName c = true := by
    intro name h
    rw [List.mem_singleton.mp h]
    exact ⟨by decide, List.all_eq_true.mp (by decide)⟩
  have hsample : Decomposed [Script.sampleMarker 0 ['a']] :=
    (decomposed_sample (fun _ => 0) hname).1
  have hdigit : Decomposed [⟨['1'], ['a'], "1_a_h".toList, ['h']⟩] := by
    intro marker hmarker
    rw [List.mem_singleton.mp hmarker]
    exact ⟨"1_a_h".toList, by decide +kernel⟩
  refine ⟨⟨_, hsample, _, List.mem_singleton_self _, _, rfl, ?_, ?_⟩,
    ⟨_, hsample, _, List.mem_singleton_self _, _, rfl, ?_, ?_⟩,
    ⟨_, hdigit, _, List.mem_singleton_self _, _, rfl, ?_⟩⟩
  all_goals decide +kernel

end AddonBundle.Stylesheet
