import AddonBundle.Proofs.Stylesheet.Brackets
/-!
# Rules that are written are read back

A rule is written on one line, its declarations trimmed and what stands between them left out. When
its declarations come from a nested body they are split from each other and read as they were,
whatever strings and brackets are in them, and rules written one after the other are split likewise.
-/

namespace AddonBundle.Stylesheet

open Text

/-! ## White space in a segment -/

/-- Outside strings, or in one between quotation marks. -/
def Quoting.IsMarked : Quoting → Prop
  | .bare => True
  | .inside mark | .escaped mark => mark = '"' ∨ mark = '\''

theorem Quoting.IsMarked.step {quoting : Quoting} (h : quoting.IsMarked) (c : Char) :
    (quoting.step c).IsMarked := by
  cases quoting with
  | bare =>
      rw [Quoting.step]
      split
      · rename_i hc
        simpa [IsMarked] using hc
      · trivial
  | inside mark =>
      rw [Quoting.step]
      split
      · exact h
      · split
        · trivial
        · exact h
  | escaped mark => exact h

theorem isMarked_of_stay {place last : Place} {text : Text} (h : place.quoting.IsMarked)
    (hstay : place.stay text = some last) : last.quoting.IsMarked := by
  induction text generalizing place with
  | nil =>
      cases hstay
      exact h
  | cons c text ih =>
      obtain ⟨-, next, hstep, hnext⟩ := Place.stay_cons_eq_some.mp hstay
      exact ih (hstep.quoting_eq ▸ h.step c) hnext

/-- White space changes nothing but that it may be the character behind a backslash. -/
theorem Place.Step.of_isBlank {place next : Place} {c : Char} (hmarked : place.quoting.IsMarked)
    (hblank : isBlank c = true) (h : place.Step c next) :
    next = place ∨
      ∃ mark opened, place = ⟨.escaped mark, opened⟩ ∧ next = ⟨.inside mark, opened⟩ := by
  have hne : ∀ d : Char, isBlank d = false → c ≠ d := by
    rintro d hd rfl
    rw [hblank] at hd
    cases hd
  cases h with
  | @quoted quoting opened c hstructure hline =>
      cases quoting with
      | bare =>
          rw [Quoting.isStructure, Quoting.step, if_neg] at hstructure
          · cases hstructure
          · simp [hne '"' (by decide), hne '\'' (by decide)]
      | inside mark =>
          refine .inl ?_
          have hmark : c ≠ mark := by
            rcases hmarked with rfl | rfl
            · exact hne _ (by decide)
            · exact hne _ (by decide)
          rw [Quoting.breaksAt, decide_eq_false_iff_not] at hline
          simp [Quoting.step, hne '\\' (by decide), hmark, hline]
      | escaped mark => exact .inr ⟨mark, opened, rfl, rfl⟩
  | opening hc => rcases hc with rfl | rfl <;> cases hblank
  | closing hc => rcases opener?_eq_some hc with ⟨rfl, -⟩ | ⟨rfl, -⟩ <;> cases hblank
  | plain hstructure hround hcurly hc => exact .inl rfl

theorem stay_of_isBlankText {place last : Place} {blanks : Text} (hmarked : place.quoting.IsMarked)
    (hblanks : IsBlankText blanks) (h : place.stay blanks = some last) :
    last = place ∨
      ∃ mark opened, place = ⟨.escaped mark, opened⟩ ∧ last = ⟨.inside mark, opened⟩ := by
  induction blanks generalizing place with
  | nil =>
      cases h
      exact .inl rfl
  | cons c blanks ih =>
      rw [IsBlankText, List.forall_mem_cons] at hblanks
      obtain ⟨-, next, hstep, hnext⟩ := Place.stay_cons_eq_some.mp h
      have hlast := ih (hstep.quoting_eq ▸ hmarked.step c) hblanks.2 hnext
      rcases hstep.of_isBlank hmarked hblanks.1 with rfl | ⟨mark, opened, rfl, rfl⟩
      · exact hlast
      · rcases hlast with rfl | ⟨other, _, hescaped, -⟩
        · exact .inr ⟨mark, opened, rfl, rfl⟩
        · cases hescaped

/-- A colon means the same behind white space. -/
private theorem step_colon {place before next : Place} (hmarked : place.quoting.IsMarked)
    (hbefore : before = place ∨
      ∃ mark opened, place = ⟨.escaped mark, opened⟩ ∧ before = ⟨.inside mark, opened⟩)
    (h : before.Step ':' next) : place.Step ':' next := by
  rcases hbefore with rfl | ⟨mark, opened, rfl, rfl⟩
  · exact h
  · have hescaped : Place.Step ⟨.escaped mark, opened⟩ ':' ⟨.inside mark, opened⟩ := .quoted rfl rfl
    have hinside : Place.step ⟨.inside mark, opened⟩ ':' = some ⟨.inside mark, opened⟩ := by
      rcases hmarked with rfl | rfl <;> rfl
    obtain rfl : next = ⟨.inside mark, opened⟩ :=
      Option.some.inj (h.eq_some.symm.trans hinside)
    exact hescaped

private theorem step_colon_ne_escaped (quoting : Quoting) (mark : Char) :
    quoting.step ':' ≠ .escaped mark := by
  cases quoting with
  | bare => simp [Quoting.step]
  | inside other =>
      simp only [Quoting.step]
      split
      · rename_i hc
        cases hc
      · split <;> simp
  | escaped other => simp [Quoting.step]

private theorem splitsAt_colon (place : Place) : place.splitsAt ':' = false := by
  simp [Place.splitsAt]

/-- White space around a segment, and around its first colon, may be left out. -/
theorem IsSegment.of_blanks {first before after last front back : Text}
    (hfirst : IsBlankText first) (hbefore : IsBlankText before) (hafter : IsBlankText after)
    (hlast : IsBlankText last)
    (h : IsSegment (first ++ front ++ before ++ ':' :: (after ++ back ++ last))) :
    IsSegment (front ++ ':' :: back) := by
  simp only [IsSegment, List.append_assoc, Place.stay_append_eq_some, Place.stay_cons_eq_some] at h
  obtain ⟨start, hstart, name, hname, colon, hcolon, -, behind, hbehind, value, hvalue, finish,
    hfinish, hend⟩ := h
  have houtside : Place.outside.quoting.IsMarked := trivial
  have hnameMarked := isMarked_of_stay (isMarked_of_stay houtside hstart) hname
  have hcolonMarked := isMarked_of_stay hnameMarked hcolon
  have hbehindMarked : behind.quoting.IsMarked := hbehind.quoting_eq ▸ hcolonMarked.step ':'
  have hfinishMarked := isMarked_of_stay (isMarked_of_stay hbehindMarked hvalue) hfinish
  -- only what stands before the colon can end with a backslash
  obtain rfl : start = .outside :=
    (stay_of_isBlankText houtside hfirst hstart).resolve_right fun ⟨_, _, hescaped, _⟩ => by
      cases hescaped
  have hname' : name.Step ':' behind :=
    step_colon hnameMarked (stay_of_isBlankText hnameMarked hbefore hcolon) hbehind
  obtain rfl : value = behind :=
    (stay_of_isBlankText hbehindMarked hafter hvalue).resolve_right
      fun ⟨mark, opened, hescaped, _⟩ => by
      have hquoting := hbehind.quoting_eq
      rw [hescaped] at hquoting
      exact step_colon_ne_escaped _ _ hquoting.symm
  obtain rfl : finish = .outside := by
    rcases stay_of_isBlankText hfinishMarked hlast hend with rfl | ⟨mark, opened, -, hinside⟩
    · rfl
    · cases hinside
  simp only [IsSegment, Place.stay_append_eq_some, Place.stay_cons_eq_some]
  exact ⟨name, hname, splitsAt_colon name, _, hname', hfinish⟩

/-! ## Declarations -/

/-- A declaration as it is written, without the semicolon. -/
def Declaration.text (declaration : Declaration) : Text :=
  declaration.property ++ ':' :: declaration.value

theorem takeWhile_colon {front : Text} (h : ':' ∉ front) (back : Text) :
    (front ++ ':' :: back).takeWhile (· ≠ ':') = front := by
  have hpasses : ∀ c ∈ front, decide (c ≠ ':') = true := fun c hc =>
    decide_eq_true fun heq => h (heq ▸ hc)
  rw [List.takeWhile_append_of_pos hpasses, List.takeWhile_cons_of_neg (by simp), List.append_nil]

theorem dropWhile_colon {front : Text} (h : ':' ∉ front) (back : Text) :
    (front ++ ':' :: back).dropWhile (· ≠ ':') = ':' :: back := by
  have hpasses : ∀ c ∈ front, decide (c ≠ ':') = true := fun c hc =>
    decide_eq_true fun heq => h (heq ▸ hc)
  rw [List.dropWhile_append_of_pos hpasses, List.dropWhile_cons_of_neg (by simp)]

/-- A trimmed property and a trimmed value are read back. -/
theorem declaration?_text {declaration : Declaration}
    (hproperty : trim declaration.property = declaration.property)
    (hvalue : trim declaration.value = declaration.value) (hne : declaration.property ≠ [])
    (hcolon : ':' ∉ declaration.property) (hat : declaration.property.head? ≠ some '@') :
    declaration? declaration.text = some declaration := by
  obtain ⟨property, value⟩ := declaration
  dsimp only at hproperty hvalue hne hcolon hat
  obtain ⟨c, rest, rfl⟩ := List.exists_cons_of_ne_nil hne
  have htrim : trim (c :: rest ++ ':' :: value) = c :: rest ++ ':' :: value := by
    have hhead := head?_trim (c :: rest)
    have hlast := getLast?_trim value
    rw [hproperty] at hhead
    rw [hvalue] at hlast
    apply trim_eq_self
    · exact fun d hd => hhead d hd
    · intro d hd
      cases value with
      | nil =>
          rw [List.getLast?_concat, Option.mem_some_iff] at hd
          rw [← hd]
          decide
      | cons e value =>
          have hsplit : c :: rest ++ ':' :: e :: value = (c :: rest ++ [':']) ++ e :: value := by
            simp
          rw [hsplit, Option.mem_def, List.getLast?_append, Option.or_eq_some_iff] at hd
          rcases hd with hd | ⟨hnone, -⟩
          · exact hlast d hd
          · simp at hnone
  have hstart : (c :: rest ++ ':' :: value).head? ≠ some '@' := hat
  rw [declaration?, Declaration.text]
  dsimp only
  rw [htrim, if_neg hstart, dropWhile_colon hcolon, takeWhile_colon hcolon]
  dsimp only
  rw [hproperty, hvalue]
  rfl

/-- A declaration is read from what stands before the first colon of the trimmed segment, and from
what stands behind it. -/
theorem declaration?_split {segment : Text} {declaration : Declaration}
    (h : declaration? segment = some declaration) :
    ∃ name value, trim segment = name ++ ':' :: value ∧ ':' ∉ name ∧ name.head? ≠ some '@' ∧
      trim name ≠ [] ∧ declaration = ⟨trim name, trim value⟩ := by
  unfold declaration? at h
  dsimp only at h
  split at h
  · cases h
  · rename_i hat
    split at h
    · cases h
    · rename_i c value hdrop
      split at h
      · cases h
      · rename_i hproperty
        cases h
        have hc : c = ':' := by
          have hnot := List.head?_dropWhile_not (fun d => decide (d ≠ ':')) (trim segment)
          rw [hdrop] at hnot
          simpa using hnot
        have hsplit :=
          List.takeWhile_append_dropWhile (p := fun d => decide (d ≠ ':')) (l := trim segment)
        rw [hdrop, hc] at hsplit
        have hne : trim ((trim segment).takeWhile (· ≠ ':')) ≠ [] := fun hnil =>
          hproperty (List.isEmpty_iff.mpr hnil)
        refine ⟨_, value, hsplit.symm, fun hmem => ?_, fun hhead => hat ?_, hne, rfl⟩
        · simpa using List.all_eq_true.mp List.all_takeWhile _ hmem
        · rw [← hsplit, List.head?_append, hhead]
          rfl

/-- Property and value are what stands before and behind the first colon, trimmed. -/
theorem exists_colon_of_declaration? {segment : Text} {declaration : Declaration}
    (h : declaration? segment = some declaration) :
    ∃ name value, segment = name ++ ':' :: value ∧ ':' ∉ name ∧
      declaration.property = trim name ∧ declaration.value = trim value := by
  obtain ⟨name, value, hsplit, hname, -, -, rfl⟩ := declaration?_split h
  obtain ⟨first, last, hfirst, hlast, hsegment⟩ := exists_trim segment
  refine ⟨first ++ name, value ++ last, ?_, ?_, (trim_blank_append hfirst name).symm,
    (trim_append_blank hlast value).symm⟩
  · rw [hsegment, hsplit]
    simp
  · rw [List.mem_append, not_or]
    exact ⟨fun hmem => absurd (hfirst _ hmem) (by decide), hname⟩

theorem declaration?_eq_some {segment : Text} {declaration : Declaration}
    (h : declaration? segment = some declaration) :
    declaration? declaration.text = some declaration ∧
      ∃ first before after last, IsBlankText first ∧ IsBlankText before ∧ IsBlankText after ∧
        IsBlankText last ∧ segment = first ++ declaration.property ++ before ++
          ':' :: (after ++ declaration.value ++ last) := by
  obtain ⟨name, value, hsplit, hcolon, hat, hne, rfl⟩ := declaration?_split h
  obtain ⟨first, last, hfirst, hlast, hsegment⟩ := exists_trim segment
  obtain ⟨nameFirst, before, hnameFirst, hbefore, hname⟩ := exists_trim name
  obtain ⟨after, valueLast, hafter, hvalueLast, hvalue⟩ := exists_trim value
  have hhead := head?_trim segment
  rw [hsplit] at hhead hsegment
  -- the segment is trimmed, so nothing stands before the property
  obtain rfl : nameFirst = [] := by
    cases nameFirst with
    | nil => rfl
    | cons d nameFirst =>
        have hd := hhead d (by rw [hname]; rfl)
        rw [hnameFirst d List.mem_cons_self] at hd
        cases hd
  refine ⟨declaration?_text (trim_trim name) (trim_trim value) hne ?_ ?_, first, before, after,
    valueLast ++ last, hfirst, hbefore, hafter, hvalueLast.append hlast, ?_⟩
  · intro hmem
    apply hcolon
    rw [hname]
    simp [hmem]
  · obtain ⟨d, rest, hcons⟩ := List.exists_cons_of_ne_nil hne
    rw [hname, hcons] at hat
    rw [hcons]
    exact hat
  · rw [hsegment]
    dsimp only
    conv_lhs => rw [hname, hvalue]
    simp

theorem IsSegment.declaration {segment : Text} {declaration : Declaration} (h : IsSegment segment)
    (hdeclaration : declaration? segment = some declaration) : IsSegment declaration.text := by
  obtain ⟨-, first, before, after, last, hfirst, hbefore, hafter, hlast, rfl⟩ :=
    declaration?_eq_some hdeclaration
  exact h.of_blanks hfirst hbefore hafter hlast

/-- Declarations that are segments and are read back by themselves. -/
def AreReadable (declarations : List Declaration) : Prop :=
  ∀ declaration ∈ declarations,
    IsSegment declaration.text ∧ declaration? declaration.text = some declaration

theorem IsNested.areReadable {body : Text} (h : IsNested body) :
    AreReadable (declarations body) := by
  intro declaration hmem
  obtain ⟨segment, hsegment, hdeclaration⟩ := List.mem_filterMap.mp hmem
  exact ⟨(h.segments segment hsegment).declaration hdeclaration,
    (declaration?_eq_some hdeclaration).1⟩

/-- Declarations as a rule has them between its brackets. -/
def bodyText (declarations : List Declaration) : Text :=
  declarations.flatMap fun declaration =>
    declaration.property ++ ':' :: declaration.value ++ [';']

theorem declarations_bodyText {ds : List Declaration} (h : AreReadable ds) :
    declarations (bodyText ds) = ds := by
  have hsegments : segmentsOutside .bare 0 [] (bodyText ds) = ds.map Declaration.text ++ [[]] := by
    induction ds with
    | nil => rfl
    | cons declaration ds ih =>
        rw [AreReadable, List.forall_mem_cons] at h
        have hsplit : bodyText (declaration :: ds) = declaration.text ++ ';' :: bodyText ds := by
          simp [bodyText, Declaration.text]
        rw [hsplit, h.1.1.segments, ih h.2, List.map_cons, List.cons_append]
  have hread : (ds.map Declaration.text).filterMap declaration? = ds := by
    rw [List.filterMap_map]
    have hsome : ∀ declaration ∈ ds,
        (declaration? ∘ Declaration.text) declaration = some declaration :=
      fun declaration hmem => (h declaration hmem).2
    rw [List.filterMap_congr hsome, List.filterMap_some]
  have hnone : declaration? [] = none := by decide
  rw [declarations, hsegments, List.filterMap_append, hread]
  simp [hnone]

theorem isNested_bodyText {ds : List Declaration} (h : AreReadable ds) :
    IsNested (bodyText ds) := by
  induction ds with
  | nil => rfl
  | cons declaration ds ih =>
      rw [AreReadable, List.forall_mem_cons] at h
      have hsplit : bodyText (declaration :: ds) = declaration.text ++ ';' :: bodyText ds := by
        simp [bodyText, Declaration.text]
      rw [IsNested, hsplit]
      have hsemicolon : Place.outside.Step ';' .outside := Place.step_of_eq_some rfl
      exact Place.scan_append_eq_some.mpr ⟨.outside, Place.scan_of_stay h.1.1,
        Place.scan_cons_eq_some.mpr ⟨.outside, hsemicolon, ih h.2⟩⟩

/-! ## Rules -/

/-- Where a scan stands behind a text without a semicolon and a curly bracket outside strings. -/
def Quoting.flat (quoting : Quoting) (text : Text) : Option Quoting :=
  text.foldlM (fun quoting c =>
    if quoting.isStructure c && (c = ';' || c = '\x7b' || c = '\x7d') then none
    else some (quoting.step c)) quoting

/-- Strings are closed, and outside them there is no semicolon and no curly bracket. -/
def IsFlat (selector : Text) : Prop :=
  Quoting.bare.flat selector = some .bare

instance (selector : Text) : Decidable (IsFlat selector) :=
  inferInstanceAs (Decidable (_ = _))

theorem blocksOutside_flat {quoting last : Quoting} {text : Text}
    (h : quoting.flat text = some last) (start rest : Text) :
    blocksOutside quoting start (text ++ rest) =
      blocksOutside last (text.reverse ++ start) rest := by
  induction text generalizing quoting start with
  | nil =>
      cases h
      rfl
  | cons c text ih =>
      rw [Quoting.flat, List.foldlM_cons, Option.bind_eq_bind, Option.bind_eq_some_iff] at h
      obtain ⟨next, hstep, hnext⟩ := h
      split at hstep
      · cases hstep
      · rename_i hplain
        cases hstep
        have hskip : blocksOutside quoting start (c :: (text ++ rest)) =
            blocksOutside (quoting.step c) (c :: start) (text ++ rest) := by
          cases hstructure : quoting.isStructure c with
          | false => simp [blocksOutside, hstructure]
          | true =>
              simp only [hstructure, Bool.true_and, Bool.or_eq_true, decide_eq_true_eq,
                not_or] at hplain
              simp [blocksOutside, hstructure, hplain]
        rw [List.cons_append, hskip, ih hnext, List.reverse_cons]
        simp

/-- A rule that is written behind white space is read as one block. -/
theorem blocksOutside_renderRule {selector start : Text} {ds : List Declaration}
    (hselector : IsFlat selector) (hds : AreReadable ds) (hstart : IsBlankText start) (rest : Text) :
    blocksOutside .bare start (renderRule selector ds ++ rest) =
      ⟨trim selector, bodyText ds⟩ :: blocksOutside .bare ['\n'] rest := by
  have htext : renderRule selector ds ++ rest =
      selector ++ ' ' :: '\x7b' :: (bodyText ds ++ '\x7d' :: '\n' :: rest) := by
    simp [renderRule, bodyText]
  have hopen : ∀ start rest, blocksOutside .bare start (' ' :: '\x7b' :: rest) =
      blocksInside .bare 0 (' ' :: start) [] rest := by
    intro start rest
    simp [blocksOutside, Quoting.isStructure, Quoting.step]
  have hbody := blocksInside_scan (isNested_bodyText hds) (' ' :: (selector.reverse ++ start)) []
    ('\x7d' :: '\n' :: rest)
  have hprelude : trim (' ' :: (selector.reverse ++ start)).reverse = trim selector := by
    have hreverse : IsBlankText start.reverse := fun c hc => hstart c (List.mem_reverse.mp hc)
    have hblank : IsBlankText [' '] := by
      intro c hc
      rw [List.mem_singleton.mp hc]
      decide
    rw [List.reverse_cons, List.reverse_append, List.reverse_reverse, trim_append_blank hblank,
      trim_blank_append hreverse]
  rw [htext, blocksOutside_flat hselector, hopen]
  refine hbody.trans ?_
  have hzero : Place.outside.curly = 0 := rfl
  have hbare : Place.outside.quoting = .bare := rfl
  rw [hzero, hbare, blocksInside_close, hprelude, List.append_nil, List.reverse_reverse]
  simp [blocksOutside, Quoting.isStructure, Quoting.step]

/-- Rules that are written one after the other are read as one block each. -/
theorem blocksOutside_renderRules {rules : List (Text × List Declaration)}
    (h : ∀ rule ∈ rules, IsFlat rule.1 ∧ AreReadable rule.2) {start : Text}
    (hstart : IsBlankText start) :
    blocksOutside .bare start (rules.flatMap fun rule => renderRule rule.1 rule.2) =
      rules.map fun rule => ⟨trim rule.1, bodyText rule.2⟩ := by
  induction rules generalizing start with
  | nil => rfl
  | cons rule rules ih =>
      rw [List.forall_mem_cons] at h
      have hblank : IsBlankText ['\n'] := by
        intro c hc
        rw [List.mem_singleton.mp hc]
        decide
      rw [List.flatMap_cons, blocksOutside_renderRule h.1.1 h.1.2 hstart, ih h.2 hblank,
        List.map_cons]

end AddonBundle.Stylesheet
