import AddonBundle.Proofs.Script.Operand
import AddonBundle.Proofs.Span
import AddonBundle.Script.Linking
/-!
# Computed paths of a script

A computed path is a root, a plus sign with white space around it, and an operand. Those found in a
script stand one behind the other, and one that stands elsewhere lies in the span of one of them.
Linking puts calls in the place of exactly these spans, and every load of a library lies in one.
-/

namespace AddonBundle.Script

open Text

/-! ## What a computed path is written as -/

/-- What stands before an operand: a root, and a plus sign with white space around it. -/
def PathRoot.IsLead (root : PathRoot) (lead : Text) : Prop :=
  ∃ before behind, IsBlankText before ∧ IsBlankText behind ∧
    lead = root.text ++ before ++ '+' :: behind

/-- A text starts with a computed path of a number of characters. The operand is read from the
first character behind the lead that is no white space, and loses the white space at its end. -/
def PathExpression.Starts (site : PathExpression) (text : Text) (length : Nat) : Prop :=
  ∃ lead front back, site.root.IsLead lead ∧ (∀ c ∈ (front ++ back).head?, isBlank c = false) ∧
    IsOperand front back ∧ text = lead ++ (front ++ back) ∧ site.operand = trimEnd front ∧
    length = (lead ++ site.operand).length

theorem rootAt_eq_some {text rest : Text} {root : PathRoot} :
    rootAt text = some (root, rest) ↔ text = root.text ++ rest := by
  unfold rootAt
  constructor
  · intro h
    split at h
    · rename_i found hdir
      cases h
      exact after?_eq_some.mp hdir
    · rw [Option.map_eq_map] at h
      obtain ⟨found, hlib, heq⟩ := Option.map_eq_some_iff.mp h
      cases heq
      exact after?_eq_some.mp hlib
  · rintro rfl
    cases root with
    | dir => rw [after?_append]
    | lib =>
        have hdir : after? PathRoot.dir.text (PathRoot.lib.text ++ rest) = none := by
          rw [Option.eq_none_iff_forall_ne_some]
          intro more hmore
          have hroots : PathRoot.dir.text <+: PathRoot.lib.text ++ rest :=
            ⟨more, (after?_eq_some.mp hmore).symm⟩
          have hequal := List.prefix_of_prefix_length_le hroots (List.prefix_append _ rest)
            (by decide)
          exact absurd hequal (by decide)
        rw [hdir, after?_append]
        rfl

/-- The plus sign is found behind white space, and the white space behind it is passed. -/
theorem afterPlus_iff {text rest : Text} :
    afterPlus text = some rest ↔
      (∀ c ∈ rest.head?, isBlank c = false) ∧
      ∃ before behind, IsBlankText before ∧ IsBlankText behind ∧
        text = before ++ '+' :: (behind ++ rest) := by
  constructor
  · intro h
    obtain ⟨before, behind, hbefore, hbehind, htext⟩ := afterPlus_eq_some h
    refine ⟨?_, before, behind, hbefore, hbehind, htext⟩
    simp only [afterPlus, Option.map_eq_map] at h
    obtain ⟨more, -, rfl⟩ := Option.map_eq_some_iff.mp h
    exact head?_dropWhile_isBlank more
  · rintro ⟨hrest, before, behind, hbefore, hbehind, rfl⟩
    have hplus : isBlank '+' = false := by decide
    have hafter : after? ['+'] ('+' :: (behind ++ rest)) = some (behind ++ rest) :=
      after?_append ['+'] (behind ++ rest)
    rw [afterPlus, dropWhile_isBlank hbefore, List.dropWhile_cons_of_neg (by rw [hplus]; decide),
      hafter, Option.map_eq_map, Option.map_some, dropWhile_isBlank hbehind,
      dropWhile_isBlank_eq_self hrest]

theorem recogniseSite_eq (before : Option Char) {root : PathRoot} {lead rest : Text}
    (hlead : root.IsLead lead) (hhead : ∀ c ∈ rest.head?, isBlank c = false) :
    recogniseSite before (lead ++ rest) =
      some (⟨root, operand rest⟩, (lead ++ operand rest).length) := by
  obtain ⟨before', behind, hbefore, hbehind, rfl⟩ := hlead
  have hplus := afterPlus_iff.mpr ⟨hhead, before', behind, hbefore, hbehind, rfl⟩
  have htext : root.text ++ before' ++ '+' :: behind ++ rest =
      root.text ++ (before' ++ '+' :: (behind ++ rest)) := by
    simp
  rw [htext]
  simp only [recogniseSite, rootAt_eq_some.mpr rfl, hplus, Option.bind_eq_bind, Option.bind_some,
    List.length_append, List.length_cons, Option.some.injEq, Prod.mk.injEq, true_and]
  omega

theorem recogniseSite_eq_some {before : Option Char} {text : Text} {site : PathExpression}
    {length : Nat} :
    recogniseSite before text = some (site, length) ↔ site.Starts text length := by
  constructor
  · intro h
    simp only [recogniseSite, Option.bind_eq_bind] at h
    obtain ⟨⟨root, behindRoot⟩, hroot, h⟩ := Option.bind_eq_some_iff.mp h
    obtain ⟨rest, hplus, h⟩ := Option.bind_eq_some_iff.mp h
    cases h
    obtain ⟨hhead, before, behind, hbefore, hbehind, rfl⟩ := afterPlus_iff.mp hplus
    obtain rfl := rootAt_eq_some.mp hroot
    obtain ⟨front, back, rfl, hoperand⟩ := exists_isOperand rest
    refine ⟨_, front, back, ⟨before, behind, hbefore, hbehind, rfl⟩, hhead, hoperand, by simp,
      operand_append hoperand, ?_⟩
    simp only [List.length_append, List.length_cons]
    omega
  · rintro ⟨lead, front, back, hlead, hhead, hoperand, rfl, hvalue, rfl⟩
    rw [recogniseSite_eq before hlead hhead, operand_append hoperand, ← hvalue]

theorem ignoresBefore_site : IgnoresBefore recogniseSite := fun _ _ _ => rfl

/-- A lead starts like a root, and nowhere else in it a root can start. -/
theorem PathRoot.IsLead.eq_cons {root : PathRoot} {lead : Text} (h : root.IsLead lead) :
    ∃ tail, lead = 'a' :: tail ∧ 'a' ∉ tail := by
  obtain ⟨before, behind, hbefore, hbehind, rfl⟩ := h
  have hnot : ∀ {blanks : Text}, IsBlankText blanks → 'a' ∉ blanks := by
    intro blanks hblanks hmem
    exact absurd (hblanks 'a' hmem) (by decide)
  have hroot : root.text = 'a' :: root.text.tail ∧ 'a' ∉ root.text.tail := by
    cases root <;> decide
  refine ⟨root.text.tail ++ before ++ '+' :: behind, ?_, ?_⟩
  · rw [← List.cons_append, ← List.cons_append, ← hroot.1]
  · simp [hroot.2, hnot hbefore, hnot hbehind]

theorem PathExpression.Starts.head? {site : PathExpression} {text : Text} {length : Nat}
    (h : site.Starts text length) : text.head? = some 'a' := by
  obtain ⟨lead, front, back, hlead, -, -, rfl, -⟩ := h
  obtain ⟨tail, rfl, -⟩ := hlead.eq_cons
  rfl

theorem PathExpression.Starts.length_bounds {site : PathExpression} {text : Text} {length : Nat}
    (h : site.Starts text length) : 0 < length ∧ length ≤ text.length := by
  obtain ⟨lead, front, back, hlead, -, -, rfl, hoperand, rfl⟩ := h
  have hle := (trimEnd_isPrefix front).length_le
  obtain ⟨tail, rfl, -⟩ := hlead.eq_cons
  rw [← hoperand] at hle
  simp only [List.length_append, List.length_cons]
  omega

/-- Two computed paths that start at the same place are the same. -/
theorem PathExpression.Starts.unique {site other : PathExpression} {text : Text}
    {length length' : Nat} (h : site.Starts text length) (hother : other.Starts text length') :
    site = other ∧ length = length' := by
  have hsite : recogniseSite none text = some (site, length) := recogniseSite_eq_some.mpr h
  rw [recogniseSite_eq_some.mpr hother] at hsite
  simpa [eq_comm] using hsite

/-- Nothing starts in the lead of a computed path, apart from itself. -/
theorem PathExpression.Starts.not_inside {site other : PathExpression} {text : Text}
    {length length' i : Nat} (h : site.Starts text length)
    (hother : other.Starts (text.drop i) length') (hi : i + site.operand.length < length) :
    i = 0 := by
  obtain ⟨lead, front, back, hlead, -, -, rfl, -, rfl⟩ := h
  obtain ⟨tail, rfl, htail⟩ := hlead.eq_cons
  cases i with
  | zero => rfl
  | succ i =>
      have hinside : i < tail.length := by
        simp only [List.length_append, List.length_cons] at hi
        omega
      have hhead := hother.head?
      rw [List.cons_append, List.drop_succ_cons, List.head?_drop,
        List.getElem?_append_left hinside] at hhead
      exact absurd (List.mem_of_getElem? hhead) htail

/-! ## The computed paths that are found -/

theorem starts_of_mem_pathSites {text : Text} {site : Found PathExpression}
    (h : site ∈ pathSites text) :
    site.value.operand ≠ [] ∧ site.start < site.stop ∧ site.stop ≤ text.length ∧
      site.value.Starts (text.drop site.start) (site.stop - site.start) := by
  obtain ⟨hfound, hoperand⟩ := List.mem_filter.mp h
  obtain ⟨front, back, length, htext, -, hstart, hrec, hstop⟩ := written_of_mem_findAll hfound
  have hstarts := recogniseSite_eq_some.mp hrec
  obtain ⟨hpos, hlength⟩ := hstarts.length_bounds
  have hstop := hstop hpos hlength
  refine ⟨by simpa using hoperand, by omega, stop_le_of_mem_findAll hfound, ?_⟩
  rw [htext, ← hstart, List.drop_left, hstop, ← hstart, Nat.add_sub_cancel_left]
  exact hstarts

theorem pairwise_pathSites (text : Text) :
    (pathSites text).Pairwise fun a b => a.stop ≤ b.start :=
  (pairwise_foundFrom 0 _).filter _

/-- A computed path with an operand starts in the span of one that is found. -/
theorem exists_span_of_starts {text : Text} {site : PathExpression} {start length : Nat}
    (hoperand : site.operand ≠ []) (h : site.Starts (text.drop start) length) :
    ∃ found ∈ pathSites text, found.start ≤ start ∧ start < found.stop := by
  have hback : text.drop start ≠ [] := by
    intro hnil
    have hhead := h.head?
    rw [hnil] at hhead
    cases hhead
  have hstart : start ≤ text.length := by
    by_contra hlong
    exact hback (List.drop_eq_nil_of_le (by omega))
  have hfront : (text.take start).length = start := List.length_take_of_le hstart
  obtain ⟨found, hfound, hbegin, hend⟩ := exists_span_of_recognised ignoresBefore_site
    (text.take start) hback (recogniseSite_eq_some.mpr h)
  rw [List.take_append_drop] at hfound
  rw [hfront] at hbegin hend
  refine ⟨found, List.mem_filter.mpr ⟨hfound, ?_⟩, hbegin, hend⟩
  cases hvalue : found.value.operand with
  | cons c rest => rfl
  | nil =>
      -- without an operand it is all lead, in which only itself can start
      exfalso
      obtain ⟨front, back, length', htext, -, hlength, hrec, hstop⟩ := written_of_mem_findAll hfound
      have hstarts := recogniseSite_eq_some.mp hrec
      obtain ⟨hpos, hle⟩ := hstarts.length_bounds
      have hstop := hstop hpos hle
      have hdrop : text.drop start = back.drop (start - front.length) := by
        rw [htext, List.drop_append, List.drop_eq_nil_of_le (by omega), List.nil_append]
      rw [hdrop] at h
      have hsame : start - front.length = 0 :=
        hstarts.not_inside h (by rw [hvalue, List.length_nil]; omega)
      rw [hsame, List.drop_zero] at h
      rw [(hstarts.unique h).1] at hvalue
      exact hoperand hvalue

theorem linkedSite_eq (site : PathExpression) :
    linkedSite site =
      "/* changed by addon-porter */ _twGetAsset(".toList ++ site.operand ++ [')'] := by
  have hcall : "/* changed by addon-porter */ _twGetAsset(".toList =
      "/* changed by addon-porter */ ".toList ++ AssetTable.lookupName ++ ['('] := by cbv
  rw [hcall]
  unfold linkedSite
  simp only [List.append_assoc, List.cons_append, List.nil_append]

/-- The computed paths of a text are written as such, stand one behind the other, and leave none
out that starts outside them. Linking puts a call in the place of each, and nothing else changes. -/
theorem pathSites_exact (text : Text) :
    let sites := pathSites text
    (∀ site ∈ sites, site.start < site.stop ∧ site.stop ≤ text.length ∧ site.value.operand ≠ [] ∧
      site.value.Starts (text.drop site.start) (site.stop - site.start)) ∧
    (sites.Pairwise fun a b => a.stop ≤ b.start) ∧
    (∀ (site : PathExpression) (start length : Nat), site.operand ≠ [] →
      site.Starts (text.drop start) length →
      ∃ found ∈ sites, found.start ≤ start ∧ start < found.stop) ∧
    linkSites text = weave (gaps text 0 sites) (sites.map fun site =>
      "/* changed by addon-porter */ _twGetAsset(".toList ++ site.value.operand ++ [')']) ∧
    weave (gaps text 0 sites) (sites.map fun site => slice text site.start site.stop) = text := by
  intro sites
  have hpairwise := pairwise_pathSites text
  refine ⟨fun site hsite => ?_, hpairwise, fun _ _ _ => exists_span_of_starts, ?_, ?_⟩
  · obtain ⟨hoperand, hstart, hstop, hstarts⟩ := starts_of_mem_pathSites hsite
    exact ⟨hstart, hstop, hoperand, hstarts⟩
  · have htext : text = [] ++ (pieces recogniseSite text).flatMap Piece.text :=
      (texts_pieces recogniseSite text).symm
    have hpieces := weave_foundFrom (fun site : PathExpression => !site.operand.isEmpty) linkedSite
      htext
    simp only [← linkedSite_eq]
    refine Eq.trans ?_ hpieces.symm
    refine List.flatMap_congr fun piece _ => ?_
    cases piece with
    | plain c => rfl
    | item site written => cases hoperand : site.operand <;> simp
  · refine weave_written text (fun site hsite => ⟨Nat.zero_le _, ?_⟩) hpairwise
    exact Nat.le_of_lt (starts_of_mem_pathSites hsite).2.1

/-! ## Loads of libraries -/

theorem plain_of_mem_file {name : Text} (hname : ∀ c ∈ name, isName c = true) :
    ∀ c ∈ '/' :: (name ++ ".js".toList), isQuote c = false ∧ c ≠ '\\' ∧ c ≠ '\n' := by
  have hother : ∀ c ∈ ['/', '.', 'j', 's'], isQuote c = false ∧ c ≠ '\\' ∧ c ≠ '\n' := by
    simp [isQuote]
  have hnot : ∀ c ∈ ['"', '\'', '\\', '\n'], (!isName c) = true :=
    List.all_eq_true.mp (by decide)
  intro c hc
  have hcases : c ∈ name ∨ c ∈ ['/', '.', 'j', 's'] := by
    rcases List.mem_cons.mp hc with rfl | hc
    · exact .inr (by decide)
    · rcases List.mem_append.mp hc with hc | hc
      · exact .inl hc
      · exact .inr (List.mem_cons_of_mem _ hc)
  rcases hcases with hc | hc
  · have hne : ∀ d ∈ ['"', '\'', '\\', '\n'], c ≠ d := by
      rintro d hd rfl
      have hother := hnot c hd
      rw [hname c hc] at hother
      cases hother
    simp only [isQuote, Bool.or_eq_false_iff, decide_eq_false_iff_not]
    simp only [List.forall_mem_cons] at hne
    exact ⟨⟨hne.1, hne.2.1⟩, hne.2.2.1, hne.2.2.2.1⟩
  · exact hother c hc

/-- What a load is written as, up to the mark that closes its literal. -/
theorem recogniseLoad_iff {before : Option Char} {text file : Text} {length : Nat} :
    recogniseLoad before text = some (file, length) ↔
      ∃ lead quote name rest, PathRoot.lib.IsLead lead ∧ isQuote quote = true ∧ name ≠ [] ∧
        (∀ c ∈ name, isName c = true) ∧ file = name ++ ".js".toList ∧
        text = lead ++ (quote :: '/' :: (file ++ quote :: rest)) ∧
        length + rest.length = text.length := by
  have hroot : "addon.self.lib".toList = PathRoot.lib.text := rfl
  constructor
  · intro h
    obtain ⟨blanks, more, quote, name, rest, hblanks, hmore, hquote, hne, hname, hfile, htext,
      hlength⟩ := recogniseLoad_eq_some h
    rw [hroot, ← hfile] at htext
    refine ⟨_, quote, name, rest, ⟨blanks, more, hblanks, hmore, rfl⟩, hquote, hne, hname, hfile, ?_,
      hlength⟩
    rw [htext]
    simp only [List.append_assoc, List.cons_append]
  · rintro ⟨_, quote, name, rest, ⟨blanks, more, hblanks, hmore, rfl⟩, hquote, hne, hname, rfl, htext,
      hlength⟩
    have hhead : ∀ c ∈ (quote :: '/' :: (name ++ ".js".toList ++ quote :: rest)).head?,
        isBlank c = false := by
      intro c hc
      rw [← Option.some.inj hc]
      exact isBlank_of_isQuote hquote
    have hshape : text = PathRoot.lib.text ++ (blanks ++ '+' :: (more ++
        quote :: '/' :: (name ++ ".js".toList ++ quote :: rest))) := by
      rw [htext]
      simp only [List.append_assoc, List.cons_append]
    have hplus := afterPlus_iff.mpr ⟨hhead, blanks, more, hblanks, hmore, rfl⟩
    have hend : text.length - (quote :: rest).length + 1 = length := by
      have hlengths := congrArg List.length htext
      simp only [List.length_append, List.length_cons] at hlengths ⊢
      omega
    rw [recogniseLoad, hroot, hshape, after?_append, Option.bind_eq_bind, Option.bind_some, hplus,
      ← hshape]
    simp only [Option.bind_eq_bind, Option.bind_some, hquote, if_true,
      libraryFile_append (quote :: rest) hne hname, List.head?_cons, hend]

/-- A load of a library is a computed path, and the operand begins with what is loaded. -/
theorem starts_of_load {text file : Text} {length : Nat}
    (h : recogniseLoad none text = some (file, length)) :
    ∃ (site : PathExpression) (quote : Char) (length' : Nat), isQuote quote = true ∧
      site.Starts text length' ∧ length ≤ length' ∧
      quote :: '/' :: (file ++ [quote]) <+: site.operand ∧
      quote :: '/' :: (file ++ [quote]) <:+ text.take length := by
  obtain ⟨lead, quote, name, rest, hlead, hquote, -, hname, rfl, htext, hlength⟩ :=
    recogniseLoad_iff.mp h
  have hplain := plain_of_mem_file hname
  generalize name ++ ".js".toList = file at *
  have hshape : text = lead ++ (quote :: ('/' :: file ++ [quote] ++ rest)) := by
    rw [htext]
    simp only [List.append_assoc, List.cons_append, List.nil_append]
  have hinside : ∀ c ∈ '/' :: file, c ≠ quote ∧ c ≠ '\\' ∧ c ≠ '\n' := by
    intro c hc
    obtain ⟨hnot, hothers⟩ := hplain c hc
    refine ⟨?_, hothers⟩
    rintro rfl
    rw [hquote] at hnot
    cases hnot
  have hprefix : quote :: '/' :: (file ++ [quote]) <+:
      operand (quote :: ('/' :: file ++ [quote] ++ rest)) :=
    literal_prefix_operand rest hquote hinside
  have hhead : ∀ c ∈ (quote :: ('/' :: file ++ [quote] ++ rest)).head?, isBlank c = false := by
    intro c hc
    rw [← Option.some.inj hc]
    exact isBlank_of_isQuote hquote
  have hsite := recogniseSite_eq none hlead hhead
  rw [← hshape, recogniseSite_eq_some] at hsite
  have hlengths := congrArg List.length hshape
  have hle := hprefix.length_le
  simp only [List.length_append, List.length_cons, List.length_nil] at hlengths hle
  refine ⟨_, quote, _, hquote, hsite, ?_, hprefix, ?_⟩
  · simp only [List.length_append]
    omega
  · refine ⟨lead, ?_⟩
    have htake : length = (lead ++ quote :: '/' :: (file ++ [quote])).length := by
      simp only [List.length_append, List.length_cons, List.length_nil]
      omega
    have hsplit : text = lead ++ quote :: '/' :: (file ++ [quote]) ++ rest := by
      rw [hshape]
      simp only [List.append_assoc, List.cons_append, List.nil_append]
    rw [hsplit, htake, List.take_left]

/-- Every load of a library starts in the span of exactly one computed path. One that starts where
the load does holds all of it, and its operand begins with the quoted name that is loaded. -/
theorem existsUnique_site_of_load {text : Text} {load : Found Text}
    (h : load ∈ libraryLoads text) :
    (∃! site, site ∈ pathSites text ∧ site.start ≤ load.start ∧ load.start < site.stop) ∧
    ∀ site ∈ pathSites text, site.start = load.start → load.stop ≤ site.stop ∧
      ∃ quote, isQuote quote = true ∧
        quote :: '/' :: (load.value ++ [quote]) <+: site.value.operand ∧
        quote :: '/' :: (load.value ++ [quote]) <:+ slice text load.start load.stop := by
  obtain ⟨front, back, length, htext, -, hstart, hrec, hstop⟩ := written_of_mem_findAll h
  have hload : recogniseLoad none back = some (load.value, length) := hrec
  obtain ⟨site, quote, length', hquote, hsite, hle, hprefix, hsuffix⟩ := starts_of_load hload
  have hpos : 0 < length := by
    have hlong := hsuffix.length_le
    simp only [List.length_cons, List.length_take] at hlong
    omega
  have hstop := hstop hpos (hle.trans hsite.length_bounds.2)
  have hback : text.drop load.start = back := by
    rw [htext, ← hstart, List.drop_left]
  have hoperand : site.operand ≠ [] := by
    intro hnil
    rw [hnil, List.prefix_nil] at hprefix
    cases hprefix
  rw [← hback] at hsite
  constructor
  · obtain ⟨found, hfound, hplace⟩ := exists_span_of_starts hoperand hsite
    exact ⟨found, ⟨hfound, hplace⟩, fun other hother =>
      eq_of_mem_span (pairwise_pathSites text) hother.1 hfound hother.2 hplace⟩
  · intro found hfound hsame
    obtain ⟨-, hrise, -, hstarts⟩ := starts_of_mem_pathSites hfound
    rw [hsame] at hstarts
    obtain ⟨hvalue, hlength⟩ := hstarts.unique hsite
    refine ⟨by omega, quote, hquote, hvalue ▸ hprefix, ?_⟩
    rw [slice, List.drop_take, hback, hstop, Nat.add_sub_cancel_left]
    exact hsuffix

/-- A load in the operand of another computed path, and one by itself. -/
theorem existsUnique_site_of_load_nested :
    let text := "addon.self.dir + f(addon.self.lib + \"/a.js\"); addon.self.lib+'/b.js' + x".toList
    let load : Found Text := ⟨"b.js".toList, 46, 68⟩
    load ∈ libraryLoads text ∧
      (∃! site, site ∈ pathSites text ∧ site.start ≤ 46 ∧ 46 < site.stop) ∧
      ∀ site ∈ pathSites text, site.start = 46 → 68 ≤ site.stop ∧
        ∃ quote, isQuote quote = true ∧
          quote :: '/' :: ("b.js".toList ++ [quote]) <+: site.value.operand ∧
          quote :: '/' :: ("b.js".toList ++ [quote]) <:+ slice text 46 68 := by
  intro text load
  have hload : load ∈ libraryLoads text := by
    decide +kernel
  exact ⟨hload, existsUnique_site_of_load hload⟩

end AddonBundle.Script
