import AddonBundle.Proofs.Stylesheet.Reading
import Mathlib.Data.List.Induction
/-!
# Classes in the normal text of selectors

The normal text of selectors is the text of their classes between other texts. Renaming its classes
gives the normal text of the renamed selectors exactly when the classes found in the text are those
of the selectors: no other is found, and each is found whole.
-/

namespace AddonBundle.Stylesheet

open Text

variable {naming : Text → Text}

/-- The class that a part tests for. -/
def Part.class? : Part → Option Text
  | .ofClass name => some name
  | _ => none

/-- The classes of selectors, in order. -/
def classNames (selectors : List (List Part)) : List Text :=
  selectors.flatMap (·.filterMap Part.class?)

/-! ## Segments of a text -/

/-- A class of the selectors, or a text between them. -/
private inductive Segment where
  | ofClass (name : Text)
  | plain (text : Text)

private def Segment.text (naming : Text → Text) : Segment → Text
  | .ofClass name => '.' :: naming name
  | .plain text => text

private def Segment.class? : Segment → Option Text
  | .ofClass name => some name
  | .plain _ => none

private theorem exists_dropGap (segments : List Segment) :
    ∃ fewer : List Segment, fewer.filterMap Segment.class? = segments.filterMap Segment.class? ∧
      ∀ naming, dropGap (segments.map (Segment.text naming)) =
        fewer.map (Segment.text naming) := by
  cases segments with
  | nil => exact ⟨[], rfl, fun _ => rfl⟩
  | cons last before =>
      cases last with
      | ofClass name =>
          refine ⟨.ofClass name :: before, rfl, fun naming => ?_⟩
          have hpoint : ('.' :: naming name).all isBlank = false := by
            rw [List.all_cons, show isBlank '.' = false by decide, Bool.false_and]
          simp only [List.map_cons, dropGap, Segment.text, hpoint]
          simp
      | plain text =>
          cases hblank : text.all isBlank with
          | true =>
              refine ⟨before, rfl, fun naming => ?_⟩
              simp only [List.map_cons, dropGap, Segment.text, hblank, if_true]
          | false =>
              refine ⟨.plain text :: before, rfl, fun naming => ?_⟩
              simp only [List.map_cons, dropGap, Segment.text, hblank]
              simp

private theorem exists_dropSign (segments : List Segment) :
    ∃ fewer : List Segment, fewer.filterMap Segment.class? = segments.filterMap Segment.class? ∧
      ∀ naming, (if (segments.map (Segment.text naming)).head? = some ['-'] then
          (segments.map (Segment.text naming)).drop 1 else segments.map (Segment.text naming)) =
        fewer.map (Segment.text naming) := by
  cases segments with
  | nil => exact ⟨[], rfl, fun _ => rfl⟩
  | cons last before =>
      cases last with
      | ofClass name =>
          refine ⟨.ofClass name :: before, rfl, fun naming => ?_⟩
          rw [if_neg (by simp [Segment.text])]
      | plain text =>
          by_cases hsign : text = ['-']
          · refine ⟨before, rfl, fun naming => ?_⟩
            rw [if_pos (by simp [Segment.text, hsign])]
            rfl
          · refine ⟨.plain text :: before, rfl, fun naming => ?_⟩
            rw [if_neg (by simp [Segment.text, hsign])]

private theorem writePart_ofClass {name : Text} (written : List Text)
    (h : ∀ c ∈ name, isName c = true) :
    writePart written (.ofClass name) = ('.' :: name) :: written := by
  have htext : (Part.ofClass name).text = '.' :: name := rfl
  have htight : isTight ('.' :: name) = false := by
    cases name <;> rfl
  have hspaced : isSpaced ('.' :: name) = false := by
    cases name <;> rfl
  have hlast : ('.' :: name).getLast? ≠ some ' ' := by
    intro hlast
    rcases List.mem_cons.mp (List.mem_of_getLast? hlast) with heq | hmem
    · exact absurd heq (by decide)
    · exact absurd (h ' ' hmem) (by decide)
  simp only [writePart, htext, htight, hspaced, if_neg hlast]
  simp

/-- One more part is written as a class, or as texts without one. -/
private theorem exists_writePart (segments : List Segment) (part : Part) :
    ∃ more : List Segment,
      more.filterMap Segment.class? = part.class?.toList ++ segments.filterMap Segment.class? ∧
      ∀ naming, (∀ name ∈ part.class?, ∀ c ∈ naming name, isName c = true) →
        writePart (segments.map (Segment.text naming)) (part.rename naming) =
          more.map (Segment.text naming) := by
  by_cases hclass : ∃ name, part = .ofClass name
  · obtain ⟨name, rfl⟩ := hclass
    refine ⟨.ofClass name :: segments, rfl, fun naming hnaming => ?_⟩
    exact writePart_ofClass _ (hnaming name rfl)
  · have hrename : ∀ naming, part.rename naming = part := by
      intro naming
      cases part <;> first | rfl | exact absurd ⟨_, rfl⟩ hclass
    have hnone : part.class? = none := by
      cases part <;> first | rfl | exact absurd ⟨_, rfl⟩ hclass
    obtain ⟨tight, htight, hdropTight⟩ := exists_dropGap segments
    obtain ⟨bare, hbare, hdropSign⟩ := exists_dropSign segments
    -- the segments kept before the part, and what is written behind them
    have hkept : ∃ kept : List Segment,
        kept.filterMap Segment.class? = segments.filterMap Segment.class? ∧
        ∀ naming, (if isTight part.text then dropGap (segments.map (Segment.text naming))
          else if part = .number ['0'] && (segments.map (Segment.text naming)).head? = some ['-'] then
            (segments.map (Segment.text naming)).drop 1
          else segments.map (Segment.text naming)) = kept.map (Segment.text naming) := by
      by_cases hcase : isTight part.text = true
      · exact ⟨tight, htight, fun naming => by rw [if_pos hcase, hdropTight]⟩
      · by_cases hzero : part = .number ['0']
        · refine ⟨bare, hbare, fun naming => ?_⟩
          rw [if_neg hcase, ← hdropSign naming]
          simp [hzero]
        · refine ⟨segments, rfl, fun naming => ?_⟩
          rw [if_neg hcase, if_neg (by simp [hzero])]
    obtain ⟨kept, hkept, hwritten⟩ := hkept
    obtain ⟨last, hlast, hdropLast⟩ := exists_dropGap kept
    have hbehind : ∃ behind : List Segment,
        behind.filterMap Segment.class? = segments.filterMap Segment.class? ∧
        ∀ naming, (if part.text.getLast? = some ' ' then dropGap (kept.map (Segment.text naming))
          else kept.map (Segment.text naming)) = behind.map (Segment.text naming) := by
      by_cases hcase : part.text.getLast? = some ' '
      · exact ⟨last, hlast.trans hkept, fun naming => by rw [if_pos hcase, hdropLast]⟩
      · exact ⟨kept, hkept, fun naming => by rw [if_neg hcase]⟩
    obtain ⟨behind, hbehind, hrest⟩ := hbehind
    by_cases hspaced : isSpaced part.text = true
    · refine ⟨.plain [' '] :: .plain part.text :: .plain [' '] :: behind, ?_, fun naming _ => ?_⟩
      · rw [hnone]
        exact hbehind
      · rw [hrename]
        simp only [writePart, hwritten, hrest, hspaced]
        rfl
    · refine ⟨.plain part.text :: behind, ?_, fun naming _ => ?_⟩
      · rw [hnone]
        exact hbehind
      · rw [hrename]
        simp only [writePart, hwritten, hrest, hspaced]
        rfl

private theorem exists_written (parts : List Part) :
    ∃ segments : List Segment,
      segments.filterMap Segment.class? = (parts.filterMap Part.class?).reverse ∧
      ∀ naming, (∀ name ∈ parts.filterMap Part.class?, ∀ c ∈ naming name, isName c = true) →
        (parts.map (Part.rename naming)).foldl writePart [] =
          segments.map (Segment.text naming) := by
  induction parts using List.reverseRecOn with
  | nil => exact ⟨[], rfl, fun _ _ => rfl⟩
  | append_singleton parts part ih =>
      obtain ⟨segments, hclasses, htexts⟩ := ih
      obtain ⟨more, hmore, hwrite⟩ := exists_writePart segments part
      have hsplit : (parts ++ [part]).filterMap Part.class? =
          parts.filterMap Part.class? ++ part.class?.toList := by
        rw [List.filterMap_append]
        cases hclass : part.class? <;> simp [hclass]
      refine ⟨more, ?_, fun naming hnaming => ?_⟩
      · rw [hmore, hclasses, hsplit, List.reverse_append]
        cases part.class? <;> rfl
      · rw [hsplit] at hnaming
        rw [List.map_append, List.foldl_append, List.map_singleton, List.foldl_cons, List.foldl_nil,
          htexts naming fun name hname => hnaming name (List.mem_append_left _ hname),
          hwrite naming]
        intro name hname
        exact hnaming name (List.mem_append_right _ (by simpa using hname))

private theorem exists_segments_parts (parts : List Part) :
    ∃ segments : List Segment, segments.filterMap Segment.class? = parts.filterMap Part.class? ∧
      ∀ naming, (∀ name ∈ parts.filterMap Part.class?, ∀ c ∈ naming name, isName c = true) →
        partsText (parts.map (Part.rename naming)) = segments.flatMap (Segment.text naming) := by
  obtain ⟨segments, hclasses, htexts⟩ := exists_written parts
  obtain ⟨fewer, hfewer, hdrop⟩ := exists_dropGap segments
  refine ⟨fewer.reverse, ?_, fun naming hnaming => ?_⟩
  · rw [List.filterMap_reverse, hfewer, hclasses, List.reverse_reverse]
  · rw [partsText, htexts naming hnaming, hdrop, ← List.map_reverse, ← List.flatMap_def]

private theorem exists_segments (selectors : List (List Part)) :
    ∃ segments : List Segment, segments.filterMap Segment.class? = classNames selectors ∧
      ∀ naming, (∀ name ∈ classNames selectors, ∀ c ∈ naming name, isName c = true) →
        selectorsText (renameSelectors naming selectors) =
          segments.flatMap (Segment.text naming) := by
  induction selectors with
  | nil => exact ⟨[], rfl, fun _ _ => rfl⟩
  | cons parts rest ih =>
      obtain ⟨first, hfirst, hfirstText⟩ := exists_segments_parts parts
      obtain ⟨others, hothers, hothersText⟩ := ih
      have hsplit : classNames (parts :: rest) =
          parts.filterMap Part.class? ++ classNames rest := List.flatMap_cons
      have hparts : ∀ naming : Text → Text,
          (∀ name ∈ classNames (parts :: rest), ∀ c ∈ naming name, isName c = true) →
          partsText (parts.map (Part.rename naming)) = first.flatMap (Segment.text naming) := by
        intro naming hnaming
        rw [hsplit] at hnaming
        exact hfirstText naming fun name hname => hnaming name (List.mem_append_left _ hname)
      cases rest with
      | nil =>
          refine ⟨first, ?_, hparts⟩
          rw [hsplit, hfirst]
          exact (List.append_nil _).symm
      | cons next rest =>
          refine ⟨first ++ .plain ", ".toList :: others, ?_, fun naming hnaming => ?_⟩
          · rw [List.filterMap_append, hfirst, hsplit, ← hothers]
            rfl
          · have htail := hothersText naming fun name hname =>
              hnaming name (hsplit ▸ List.mem_append_right _ hname)
            have hjoin : selectorsText (renameSelectors naming (parts :: next :: rest)) =
                partsText (parts.map (Part.rename naming)) ++ ", ".toList ++
                  selectorsText (renameSelectors naming (next :: rest)) := rfl
            rw [hjoin, hparts naming hnaming, htail, List.flatMap_append, List.flatMap_cons,
              List.append_assoc]
            rfl

/-! ## The classes found in segments -/

/-- How much longer a name gets, by a naming under which longer names grow more. -/
private def growth : List Text → Nat
  | [] => 0
  | name :: names => name.length + 4 + growth names

private theorem growth_cons (name : Text) (names : List Text) :
    growth (name :: names) = name.length + 4 + growth names := rfl

private theorem growth_append (front back : List Text) :
    growth (front ++ back) = growth front + growth back := by
  induction front with
  | nil => rw [List.nil_append, growth, Nat.zero_add]
  | cons name front ih => rw [List.cons_append, growth_cons, growth_cons, ih, ← Nat.add_assoc]

/-- Every class of the segments is found, possibly with more behind its name. -/
private theorem growth_le {segments : List Segment}
    (h : ∀ name ∈ segments.filterMap Segment.class?, name ≠ [] ∧ ∀ c ∈ name, isName c = true) :
    growth (segments.filterMap Segment.class?) ≤
        growth (selectorClasses (segments.flatMap (Segment.text id))) ∧
      (growth (selectorClasses (segments.flatMap (Segment.text id))) ≤
          growth (segments.filterMap Segment.class?) →
        selectorClasses (segments.flatMap (Segment.text id)) =
          segments.filterMap Segment.class?) := by
  induction segments with
  | nil => exact ⟨Nat.le_refl _, fun _ => rfl⟩
  | cons segment rest ih =>
      cases segment with
      | plain text =>
          obtain ⟨hle, heq⟩ := ih h
          obtain ⟨extra, hextra⟩ := selectorClasses_drop_suffix text.length
            (text ++ rest.flatMap (Segment.text id))
          rw [List.drop_left] at hextra
          have hclasses : (Segment.plain text :: rest).filterMap Segment.class? =
              rest.filterMap Segment.class? := rfl
          have htext : (Segment.plain text :: rest).flatMap (Segment.text id) =
              text ++ rest.flatMap (Segment.text id) := rfl
          rw [hclasses, htext, ← hextra, growth_append]
          refine ⟨by omega, fun hle' => ?_⟩
          have hzero : growth extra = 0 := by omega
          cases extra with
          | nil => exact heq (by omega)
          | cons name names =>
              rw [growth_cons] at hzero
              omega
      | ofClass name =>
          have hclasses : (Segment.ofClass name :: rest).filterMap Segment.class? =
              name :: rest.filterMap Segment.class? := rfl
          have htext : (Segment.ofClass name :: rest).flatMap (Segment.text id) =
              '.' :: (name ++ rest.flatMap (Segment.text id)) := rfl
          rw [hclasses] at h ⊢
          obtain ⟨hne, hchars⟩ := h name List.mem_cons_self
          obtain ⟨hle, heq⟩ := ih fun other hother => h other (List.mem_cons_of_mem _ hother)
          have hstart : startsClass ('.' :: (name ++ rest.flatMap (Segment.text id))) = true := by
            obtain ⟨c, more, rfl⟩ := List.exists_cons_of_ne_nil hne
            exact hchars c List.mem_cons_self
          rw [htext, selectorClasses_cons, if_pos hstart,
            selectorClasses_append_of_isName _ hchars, List.takeWhile_append_of_pos hchars,
            growth_cons, growth_cons, List.length_append]
          refine ⟨by omega, fun hle' => ?_⟩
          have hnone : (rest.flatMap (Segment.text id)).takeWhile isName = [] :=
            List.eq_nil_of_length_eq_zero (by omega)
          rw [hnone, List.append_nil, heq (by omega)]

/-- Where the classes found are those of the segments, renaming goes segment by segment. -/
private theorem renameText_segments (naming : Text → Text) {segments : List Segment}
    (h : selectorClasses (segments.flatMap (Segment.text id)) =
      segments.filterMap Segment.class?) :
    renameText naming (segments.flatMap (Segment.text id)) =
      segments.flatMap (Segment.text naming) := by
  induction segments with
  | nil => rfl
  | cons segment rest ih =>
      have hnames : ∀ name ∈ (segment :: rest).filterMap Segment.class?,
          name ≠ [] ∧ ∀ c ∈ name, isName c = true := by
        intro name hname
        rw [← h] at hname
        exact isName_of_mem_selectorClasses hname
      cases segment with
      | plain text =>
          have htext : ∀ naming, (Segment.plain text :: rest).flatMap (Segment.text naming) =
              text ++ rest.flatMap (Segment.text naming) := fun _ => rfl
          rw [htext] at h ⊢
          have hrestNames : ∀ name ∈ rest.filterMap Segment.class?,
              name ≠ [] ∧ ∀ c ∈ name, isName c = true := hnames
          obtain ⟨hle, heq⟩ := growth_le hrestNames
          obtain ⟨extra, hextra⟩ := selectorClasses_drop_suffix text.length
            (text ++ rest.flatMap (Segment.text id))
          rw [List.drop_left] at hextra
          have hsum := congrArg growth (hextra.trans h)
          rw [growth_append] at hsum
          have hclasses : (Segment.plain text :: rest).filterMap Segment.class? =
              rest.filterMap Segment.class? := rfl
          rw [hclasses] at h hsum
          have hrest := heq (by omega)
          have hclear : isClear text.length (text ++ rest.flatMap (Segment.text id)) = true := by
            apply isClear_of_length_le
            rw [h, List.drop_left, hrest]
          have hrename : renameText naming (text ++ rest.flatMap (Segment.text id)) = _ :=
            renameText_of_isClear hclear
          rw [hrename, List.take_left, List.drop_left, ih hrest, htext]
      | ofClass name =>
          obtain ⟨hne, hchars⟩ := hnames name List.mem_cons_self
          have htext : ∀ naming, (Segment.ofClass name :: rest).flatMap (Segment.text naming) =
              '.' :: (naming name ++ rest.flatMap (Segment.text naming)) := fun _ => rfl
          have hclasses : (Segment.ofClass name :: rest).filterMap Segment.class? =
              name :: rest.filterMap Segment.class? := rfl
          rw [htext, id_eq, hclasses] at h
          have hstart : startsClass ('.' :: (name ++ rest.flatMap (Segment.text id))) = true := by
            obtain ⟨c, more, rfl⟩ := List.exists_cons_of_ne_nil hne
            exact hchars c List.mem_cons_self
          obtain ⟨found, behind, hrun, heq⟩ := startsClass_iff.mp hstart
          rw [heq, selectorClasses_run hrun] at h
          obtain ⟨rfl, hrest⟩ := List.cons.inj h
          obtain rfl := List.append_cancel_left (List.cons.inj heq).2
          rw [htext, id_eq, renameText_run hrun, ih hrest, htext]

private theorem length_renameText (h : ∀ name, (naming name).length = name.length + (name.length + 4))
    (text : Text) : (renameText naming text).length = text.length + growth (selectorClasses text) := by
  induction text using classInduction with
  | nil => rfl
  | plain c rest hstart ih =>
      rw [renameText_plain hstart, selectorClasses_plain hstart, List.length_cons, List.length_cons,
        ih]
      omega
  | run name rest hrun ih =>
      rw [renameText_run hrun, selectorClasses_run hrun, List.length_cons, List.length_cons,
        List.length_append, List.length_append, h, ih, growth_cons]
      omega

private theorem length_segments (h : ∀ name, (naming name).length = name.length + (name.length + 4))
    (segments : List Segment) :
    (segments.flatMap (Segment.text naming)).length =
      (segments.flatMap (Segment.text id)).length +
        growth (segments.filterMap Segment.class?) := by
  induction segments with
  | nil => rfl
  | cons segment rest ih =>
      rw [List.flatMap_cons, List.flatMap_cons, List.length_append, List.length_append, ih]
      cases segment with
      | plain text =>
          have hclasses : (Segment.plain text :: rest).filterMap Segment.class? =
              rest.filterMap Segment.class? := rfl
          rw [hclasses]
          simp only [Segment.text]
          omega
      | ofClass name =>
          have hclasses : (Segment.ofClass name :: rest).filterMap Segment.class? =
              name :: rest.filterMap Segment.class? := rfl
          rw [hclasses, growth_cons]
          simp only [Segment.text, List.length_cons, h, id_eq]
          omega

/-! ## Normal texts -/

private theorem renameSelectors_id (selectors : List (List Part)) :
    renameSelectors id selectors = selectors := by
  have hpart : Part.rename id = id := by
    funext part
    cases part <;> rfl
  simp [renameSelectors, hpart]

private theorem exists_segments_normal {selectors : List (List Part)}
    (h : ∀ name ∈ classNames selectors, ∀ c ∈ name, isName c = true) :
    ∃ segments : List Segment, segments.filterMap Segment.class? = classNames selectors ∧
      selectorsText selectors = segments.flatMap (Segment.text id) ∧
      ∀ naming, (∀ name ∈ classNames selectors, ∀ c ∈ naming name, isName c = true) →
        selectorsText (renameSelectors naming selectors) =
          segments.flatMap (Segment.text naming) := by
  obtain ⟨segments, hclasses, htexts⟩ := exists_segments selectors
  refine ⟨segments, hclasses, ?_, htexts⟩
  have hnormal := htexts id h
  rwa [renameSelectors_id] at hnormal

/-- When the classes found in a normal text are those of the selectors, renaming them gives the
normal text of the renamed selectors. -/
theorem renameText_selectorsText {selectors : List (List Part)}
    (h : selectorClasses (selectorsText selectors) = classNames selectors)
    (hnaming : ∀ name ∈ classNames selectors, ∀ c ∈ naming name, isName c = true) :
    renameText naming (selectorsText selectors) =
      selectorsText (renameSelectors naming selectors) := by
  have hnames : ∀ name ∈ classNames selectors, ∀ c ∈ name, isName c = true := by
    intro name hname
    rw [← h] at hname
    exact (isName_of_mem_selectorClasses hname).2
  obtain ⟨segments, hclasses, hnormal, htexts⟩ := exists_segments_normal hnames
  rw [hnormal, ← hclasses] at h
  rw [htexts naming hnaming, hnormal, renameText_segments naming h]

/-- Conversely, one naming under which longer names grow more shows that the classes found are
those of the selectors. -/
theorem selectorClasses_selectorsText {selectors : List (List Part)}
    (hnames : ∀ name ∈ classNames selectors, name ≠ [] ∧ ∀ c ∈ name, isName c = true)
    (hgrowth : ∀ name, (naming name).length = name.length + (name.length + 4))
    (hnaming : ∀ name ∈ classNames selectors, ∀ c ∈ naming name, isName c = true)
    (h : renameText naming (selectorsText selectors) =
      selectorsText (renameSelectors naming selectors)) :
    selectorClasses (selectorsText selectors) = classNames selectors := by
  obtain ⟨segments, hclasses, hnormal, htexts⟩ :=
    exists_segments_normal fun name hname => (hnames name hname).2
  rw [← hclasses] at hnames
  have hlength := congrArg List.length h
  rw [htexts naming hnaming, length_segments hgrowth, length_renameText hgrowth,
    hnormal] at hlength
  rw [hnormal, ← hclasses]
  exact (growth_le hnames).2 (by omega)

end AddonBundle.Stylesheet
