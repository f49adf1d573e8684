import AddonBundle.Proofs.Script.PathSite
/-!
# Computed paths in operands

Linking keeps operands as they are, so a computed path that stands in the operand of another one is
not replaced. Nothing else is left: the calls hold no root, and what follows an operand in a linked
script starts no computed path that was not there before. A linked script has computed paths exactly
when one of the operands has.
-/

namespace AddonBundle.Script

open Text

/-! ## Texts that hold a computed path -/

/-- A computed path with an operand starts a text. -/
def StartsSite (text : Text) : Prop :=
  ∃ (root : PathRoot) (lead rest : Text), root.IsLead lead ∧ text = lead ++ rest ∧ rest ≠ [] ∧
    (∀ c ∈ rest.head?, isBlank c = false) ∧ ¬ Stops rest

/-- A computed path with an operand starts somewhere in a text. -/
def HasSite (text : Text) : Prop :=
  ∃ front back, text = front ++ back ∧ StartsSite back

/-- An operand is there unless it ends before its first character. -/
theorem operand_eq_nil_iff {text : Text} (hhead : ∀ c ∈ text.head?, isBlank c = false) :
    operand text = [] ↔ text = [] ∨ Stops text := by
  constructor
  · intro h
    cases text with
    | nil => exact .inl rfl
    | cons c rest =>
        right
        by_contra hstops
        have hstep : ∃ state, (OperandState.code 0).step c rest.head? = some state := by
          rw [← Option.ne_none_iff_exists']
          exact fun hnone => hstops (codeStep_eq_none.mp hnone).2
        obtain ⟨state, hstate⟩ := hstep
        have hkept : [c] <+: operand (c :: rest) := by
          rw [operand, operandFrom_of_step hstate, ← List.singleton_append]
          exact prefix_trimEnd _ fun d hd => hhead d hd
        rw [h, List.prefix_nil] at hkept
        cases hkept
  · intro h
    rw [operand, operandFrom_of_stops h]
    rfl

theorem startsSite_iff {text : Text} :
    StartsSite text ↔
      ∃ (site : PathExpression) (length : Nat), site.Starts text length ∧ site.operand ≠ [] := by
  constructor
  · rintro ⟨root, lead, rest, hlead, rfl, hrest, hhead, hstops⟩
    refine ⟨_, _, recogniseSite_eq_some.mp (recogniseSite_eq none hlead hhead), ?_⟩
    intro hnil
    exact ((operand_eq_nil_iff hhead).mp hnil).elim hrest hstops
  · rintro ⟨site, length, ⟨lead, front, back, hlead, hhead, hoperand, rfl, hvalue, -⟩, hne⟩
    rw [hvalue, ← operand_append hoperand] at hne
    obtain ⟨hrest, hstops⟩ := not_or.mp (mt (operand_eq_nil_iff hhead).mpr hne)
    exact ⟨site.root, lead, front ++ back, hlead, rfl, hrest, hhead, hstops⟩

theorem hasSite_iff {text : Text} : HasSite text ↔ pathSites text ≠ [] := by
  constructor
  · rintro ⟨front, back, rfl, hstarts⟩
    obtain ⟨site, length, hsite, hoperand⟩ := startsSite_iff.mp hstarts
    have hdrop : (front ++ back).drop front.length = back := List.drop_left
    rw [← hdrop] at hsite
    obtain ⟨found, hfound, -⟩ := exists_span_of_starts hoperand hsite
    exact List.ne_nil_of_mem hfound
  · intro h
    obtain ⟨found, hfound⟩ := List.exists_mem_of_ne_nil _ h
    obtain ⟨hoperand, -, -, hsite⟩ := starts_of_mem_pathSites hfound
    exact ⟨_, _, (List.take_append_drop found.start text).symm,
      startsSite_iff.mpr ⟨_, _, hsite, hoperand⟩⟩

theorem StartsSite.head? {text : Text} (h : StartsSite text) : text.head? = some 'a' := by
  obtain ⟨site, length, hsite, -⟩ := startsSite_iff.mp h
  exact hsite.head?

theorem not_hasSite_nil : ¬ HasSite [] := by
  rw [hasSite_iff]
  exact fun h => h rfl

theorem hasSite_cons {c : Char} {rest : Text} :
    HasSite (c :: rest) ↔ StartsSite (c :: rest) ∨ HasSite rest := by
  constructor
  · rintro ⟨front, back, hsplit, hstarts⟩
    cases front with
    | nil => exact .inl (hsplit ▸ hstarts)
    | cons d front => exact .inr ⟨front, back, (List.cons.inj hsplit).2, hstarts⟩
  · rintro (hstarts | ⟨front, back, rfl, hstarts⟩)
    · exact ⟨[], c :: rest, rfl, hstarts⟩
    · exact ⟨c :: front, back, rfl, hstarts⟩

/-- Text in which no computed path starts makes no difference. -/
theorem hasSite_append {front back : Text}
    (h : ∀ before after, front = before ++ after → after ≠ [] → ¬ StartsSite (after ++ back)) :
    HasSite (front ++ back) ↔ HasSite back := by
  induction front with
  | nil => rfl
  | cons c front ih =>
      have hfirst : ¬ StartsSite (c :: front ++ back) := h [] _ rfl (List.cons_ne_nil c front)
      rw [List.cons_append] at hfirst ⊢
      rw [hasSite_cons, or_iff_right hfirst]
      refine ih fun before after hsplit hne => h (c :: before) after ?_ hne
      rw [hsplit, List.cons_append]

theorem hasSite_append_of_not_mem {front : Text} (back : Text) (h : 'a' ∉ front) :
    HasSite (front ++ back) ↔ HasSite back := by
  refine hasSite_append fun before after hsplit hne hstarts => ?_
  obtain ⟨c, after, rfl⟩ := List.exists_cons_of_ne_nil hne
  obtain rfl : c = 'a' := by simpa using hstarts.head?
  exact h (hsplit ▸ by simp)

/-! ## Behind the operand of a call -/

theorem PathRoot.IsLead.not_mem {root : PathRoot} {lead : Text} (h : root.IsLead lead) :
    ')' ∉ lead ∧ '/' ∉ lead := by
  obtain ⟨before, behind, hbefore, hbehind, rfl⟩ := h
  have hnot : ∀ {blanks : Text}, IsBlankText blanks → ')' ∉ blanks ∧ '/' ∉ blanks := by
    intro blanks hblanks
    exact ⟨fun hmem => absurd (hblanks _ hmem) (by decide),
      fun hmem => absurd (hblanks _ hmem) (by decide)⟩
  have hroot : ')' ∉ root.text ∧ '/' ∉ root.text := by
    cases root <;> decide
  simp [hroot, hnot hbefore, hnot hbehind]

theorem Stops.append {text : Text} (h : Stops text) (back : Text) : Stops (text ++ back) := by
  obtain ⟨stop, hstop, hprefix⟩ := h
  exact ⟨stop, hstop, hprefix.trans (List.prefix_append text back)⟩

/-- A closing bracket behind a text ends no operand before it. -/
theorem stops_append_closing {text : Text} (back : Text) (hne : text ≠ []) :
    Stops (text ++ ')' :: back) ↔ Stops text := by
  constructor
  · rintro ⟨stop, hstop, hprefix⟩
    rcases List.prefix_or_prefix_of_prefix hprefix (List.prefix_append text _) with
      hshort | ⟨more, hmore⟩
    · exact ⟨stop, hstop, hshort⟩
    · have hbracket : ∀ stop ∈ stops, ')' ∉ stop.tail := by decide
      obtain ⟨c, text, rfl⟩ := List.exists_cons_of_ne_nil hne
      cases more with
      | nil => exact ⟨stop, hstop, hmore ▸ by simp⟩
      | cons d more =>
          rw [← hmore, List.prefix_append_right_inj, List.cons_prefix_cons] at hprefix
          refine absurd ?_ (hbracket stop hstop)
          rw [← hmore, ← hprefix.1]
          simp
  · exact fun h => h.append _

theorem startsSite_append_closing (text back : Text) :
    StartsSite (text ++ ')' :: back) ↔ StartsSite text := by
  constructor
  · rintro ⟨root, lead, rest, hlead, htext, hrest, hhead, hstops⟩
    -- the lead ends before the bracket, and so does what makes the operand start
    rcases List.append_eq_append_iff.mp htext with ⟨more, rfl, hmore⟩ | ⟨more, rfl, rfl⟩
    · cases more with
      | nil =>
          rw [List.nil_append] at hmore
          exact absurd (hmore ▸ ⟨[')'], by decide, by simp⟩) hstops
      | cons c more =>
          obtain rfl : c = ')' := (List.cons.inj hmore).1.symm
          exact absurd (by simp) hlead.not_mem.1
    · have hne : more ≠ [] := by
        rintro rfl
        exact hstops ⟨[')'], by decide, by simp⟩
      rw [stops_append_closing back hne] at hstops
      rw [List.head?_append_of_ne_nil more hne] at hhead
      exact ⟨root, lead, more, hlead, rfl, hne, hhead, hstops⟩
  · rintro ⟨root, lead, rest, hlead, rfl, hrest, hhead, hstops⟩
    refine ⟨root, lead, rest ++ ')' :: back, hlead, List.append_assoc _ _ _, by simp, ?_, ?_⟩
    · rwa [List.head?_append_of_ne_nil rest hrest]
    · rwa [stops_append_closing back hrest]

/-- In front of a closing bracket an operand has the computed paths that it has by itself. -/
theorem hasSite_append_closing (text back : Text) :
    HasSite (text ++ ')' :: back) ↔ HasSite text ∨ HasSite back := by
  induction text with
  | nil =>
      have hbracket : ¬ StartsSite (')' :: back) := fun h => absurd h.head? (by simp)
      rw [List.nil_append, hasSite_cons, or_iff_right hbracket, or_iff_right not_hasSite_nil]
  | cons c text ih =>
      have hfirst := startsSite_append_closing (c :: text) back
      rw [List.cons_append] at hfirst ⊢
      rw [hasSite_cons, hasSite_cons, hfirst, ih, or_assoc]

theorem StartsSite.addon {text : Text} (h : StartsSite text) : "addon.".toList <+: text := by
  obtain ⟨root, _, rest, ⟨before, behind, -, -, rfl⟩, rfl, -⟩ := h
  have hroot : "addon.".toList <+: root.text := by
    cases root <;> decide
  rw [List.append_assoc, List.append_assoc]
  exact hroot.trans (List.prefix_append _ _)

/-- A call has the computed paths of its operand. -/
theorem hasSite_linkedSite (site : PathExpression) (back : Text) :
    HasSite (linkedSite site ++ back) ↔ HasSite site.operand ∨ HasSite back := by
  rw [linkedSite_eq, List.append_assoc, List.append_assoc, List.singleton_append,
    ← hasSite_append_closing]
  refine hasSite_append fun before after hsplit hne hstarts => ?_
  generalize hcall : "/* changed by addon-porter */ _twGetAsset(".toList = call at hsplit
  have hnone : ∀ i < call.length, (call.drop i).head? ≠ some 'a' ∨
      "addon.".toList.length ≤ (call.drop i).length ∧ ¬ "addon.".toList <+: call.drop i := by
    rw [← hcall]
    decide
  have hafter : call.drop before.length = after := by
    rw [hsplit, List.drop_left]
  have hinside : before.length < call.length := by
    rw [hsplit, List.length_append]
    exact Nat.lt_add_of_pos_right (List.length_pos_iff.mpr hne)
  have hplace := hnone _ hinside
  rw [hafter] at hplace
  rcases hplace with hhead | ⟨hlong, hother⟩
  · have hstart := hstarts.head?
    rw [List.head?_append_of_ne_nil after hne] at hstart
    exact hhead hstart
  · exact hother (List.prefix_of_prefix_length_le hstarts.addon (List.prefix_append _ _) hlong)

/-! ## Where linking changes nothing -/

theorem PathRoot.IsLead.append_blank {root : PathRoot} {lead blanks : Text} (h : root.IsLead lead)
    (hblanks : IsBlankText blanks) : root.IsLead (lead ++ blanks) := by
  obtain ⟨before, behind, hbefore, hbehind, rfl⟩ := h
  exact ⟨before, behind ++ blanks, hbefore, hbehind.append hblanks, by simp⟩

theorem recogniseSite_ne_none {root : PathRoot} {lead : Text} (rest : Text)
    (h : root.IsLead lead) : recogniseSite none (lead ++ rest) ≠ none := by
  have hblanks : IsBlankText (rest.takeWhile isBlank) :=
    List.all_eq_true.mp List.all_takeWhile
  rw [← List.takeWhile_append_dropWhile (p := isBlank) (l := rest), ← List.append_assoc,
    recogniseSite_eq none (h.append_blank hblanks) (head?_dropWhile_isBlank rest)]
  exact Option.some_ne_none _

/-- What follows a computed path, and why it has no operand if it has none. -/
theorem PathExpression.Starts.eq_append {site : PathExpression} {text : Text} {length : Nat}
    (h : site.Starts text length) :
    ∃ lead rest, site.root.IsLead lead ∧ text = lead ++ site.operand ++ rest ∧
      length = (lead ++ site.operand).length ∧
      (∀ c ∈ (site.operand ++ rest).head?, isBlank c = false) ∧
      (site.operand = [] → rest = [] ∨ Stops rest) := by
  obtain ⟨lead, front, back, hlead, hhead, hoperand, rfl, hvalue, hlength⟩ := h
  obtain ⟨blanks, -, hfront⟩ := exists_trimEnd front
  rw [← hvalue] at hfront
  have htext : front ++ back = site.operand ++ (blanks ++ back) := by
    rw [← List.append_assoc, ← hfront]
  have hscan := operand_append hoperand
  rw [htext] at hhead hscan ⊢
  refine ⟨lead, blanks ++ back, hlead, (List.append_assoc _ _ _).symm, hlength, hhead, ?_⟩
  intro hnil
  rw [← hvalue, hnil, List.nil_append] at hscan
  rw [hnil, List.nil_append] at hhead
  exact (operand_eq_nil_iff hhead).mp hscan

/-- Pieces that are written in two ways have the same start up to the first one that is written
differently, if that starts with a character that is not looked for. -/
theorem prefix_flatMap {α : Type} {ps : List (Piece α)} {f g : Piece α → Text} {front : Text}
    {c : Char} (hc : c ∉ front) (h : ∀ piece ∈ ps, f piece = g piece ∨ (f piece).head? = some c)
    (hfront : front <+: ps.flatMap f) : front <+: ps.flatMap g := by
  induction ps generalizing front with
  | nil => exact hfront
  | cons piece ps ih =>
      rw [List.flatMap_cons] at hfront ⊢
      obtain ⟨hpiece, hrest⟩ := List.forall_mem_cons.mp h
      rcases hpiece with heq | hhead
      · rw [heq] at hfront
        rcases List.prefix_or_prefix_of_prefix hfront (List.prefix_append (g piece) _) with
          hshort | ⟨more, rfl⟩
        · exact hshort.trans (List.prefix_append _ _)
        · rw [List.prefix_append_right_inj] at hfront ⊢
          exact ih (fun hmem => hc (List.mem_append_right _ hmem)) hrest hfront
      · cases front with
        | nil => exact List.nil_prefix
        | cons d front =>
            obtain ⟨more, hmore⟩ := List.head?_eq_some_iff.mp hhead
            rw [hmore, List.cons_append, List.cons_prefix_cons] at hfront
            exact absurd (hfront.1 ▸ List.mem_cons_self) hc

/-- What linking puts in the place of a piece. -/
def linkedPiece : Piece PathExpression → Text
  | .plain c => [c]
  | .item site written => if site.operand.isEmpty then written else linkedSite site

theorem linkSites_eq (text : Text) :
    linkSites text = (pieces recogniseSite text).flatMap linkedPiece := rfl

/-- A linked script starts as the script does, as far as there is no slash. -/
theorem prefix_of_prefix_linkSites {front text : Text} (hslash : '/' ∉ front)
    (h : front <+: linkSites text) : front <+: text := by
  rw [linkSites_eq] at h
  rw [← texts_pieces recogniseSite text]
  refine prefix_flatMap hslash (fun piece _ => ?_) h
  cases piece with
  | plain c => exact .inl rfl
  | item site written =>
      by_cases hoperand : site.operand.isEmpty = true
      · exact .inl (if_pos hoperand)
      · refine .inr ?_
        rw [linkedPiece, if_neg hoperand, linkedSite_eq]
        rfl

/-- A script starts as the linked one does, as far as no root can start. -/
theorem prefix_linkSites {front text : Text} (hroot : 'a' ∉ front) (h : front <+: text) :
    front <+: linkSites text := by
  rw [← texts_pieces recogniseSite text] at h
  refine prefix_flatMap hroot (fun piece hpiece => ?_) h
  cases piece with
  | plain c => exact .inl rfl
  | item site written =>
      obtain ⟨before, c, rest, length, hrec, rfl⟩ := recognised_of_mem_piecesFrom hpiece
      exact .inr (recogniseSite_eq_some.mp hrec).head?

/-- Where no computed path starts, none starts in the linked script. -/
theorem not_startsSite_linkSites {text : Text} (h : recogniseSite none text = none) :
    ¬ StartsSite (linkSites text) := by
  rintro ⟨root, lead, rest, hlead, htext, -⟩
  obtain ⟨more, rfl⟩ := prefix_of_prefix_linkSites hlead.not_mem.2 ⟨rest, htext.symm⟩
  exact recogniseSite_ne_none more hlead h

/-- A computed path without an operand gets none by linking what follows it. -/
theorem not_startsSite_lead {root : PathRoot} {lead rest : Text} (hlead : root.IsLead lead)
    (hhead : ∀ c ∈ rest.head?, isBlank c = false) (hrest : rest = [] ∨ Stops rest) :
    ¬ StartsSite (lead ++ linkSites rest) := by
  have hlinked : (∀ c ∈ (linkSites rest).head?, isBlank c = false) ∧
      (linkSites rest = [] ∨ Stops (linkSites rest)) := by
    rcases hrest with rfl | ⟨stop, hstop, hprefix⟩
    · exact ⟨hhead, .inl rfl⟩
    · have hshape : ∀ stop ∈ stops, 'a' ∉ stop ∧ stop ≠ [] := by decide
      obtain ⟨hroot, hne⟩ := hshape stop hstop
      have hprefix' := prefix_linkSites hroot hprefix
      refine ⟨?_, .inr ⟨stop, hstop, hprefix'⟩⟩
      obtain ⟨behind, rfl⟩ := hprefix
      obtain ⟨behind', hbehind⟩ := hprefix'
      rw [← hbehind, List.head?_append_of_ne_nil stop hne]
      rwa [List.head?_append_of_ne_nil stop hne] at hhead
  intro hstarts
  obtain ⟨site, length, hsite, hoperand⟩ := startsSite_iff.mp hstarts
  have hfound := recogniseSite_eq_some.mp (recogniseSite_eq none hlead hlinked.1)
  rw [(hsite.unique hfound).1] at hoperand
  exact hoperand ((operand_eq_nil_iff hlinked.1).mpr hlinked.2)

/-! ## What a linked script has left -/

theorem linkSites_cons {c : Char} {rest : Text} (h : recogniseSite none (c :: rest) = none) :
    linkSites (c :: rest) = c :: linkSites rest := by
  rw [linkSites_eq, pieces_cons_plain ignoresBefore_site h]
  rfl

/-- A linked script has computed paths exactly where they stand in operands. -/
theorem hasSite_linkSites (text : Text) :
    HasSite (linkSites text) ↔
      ∃ site written, .item site written ∈ pieces recogniseSite text ∧ HasSite site.operand := by
  -- a computed path is passed in one step
  induction text using behind_induction with
  | nil => simp [linkSites_eq, pieces, not_hasSite_nil]
  | cons c rest ih =>
      cases hrec : recogniseSite none (c :: rest) with
      | none =>
          have hfirst := not_startsSite_linkSites hrec
          rw [linkSites_cons hrec] at hfirst ⊢
          rw [hasSite_cons, or_iff_right hfirst, pieces_cons_plain ignoresBefore_site hrec,
            ih [c] rest (List.cons_ne_nil _ _) rfl]
          simp
      | some result =>
          obtain ⟨site, length⟩ := result
          obtain ⟨lead, behind, hlead, htext, rfl, hhead, hnone⟩ :=
            (recogniseSite_eq_some.mp hrec).eq_append
          have hne : lead ++ site.operand ≠ [] := by
            obtain ⟨tail, rfl, -⟩ := hlead.eq_cons
            exact List.cons_ne_nil _ _
          have hbehind := ih _ behind hne htext
          rw [htext] at hrec ⊢
          rw [linkSites_eq, pieces_append_item ignoresBefore_site hne hrec, List.flatMap_cons,
            ← linkSites_eq, linkedPiece, exists_item_cons]
          by_cases hoperand : site.operand = []
          · rw [hoperand, List.nil_append] at hhead
            have hfirst := not_startsSite_lead hlead hhead (hnone hoperand)
            obtain ⟨tail, rfl, htail⟩ := hlead.eq_cons
            rw [List.cons_append] at hfirst
            rw [hoperand, List.append_nil, List.isEmpty_nil, if_pos rfl, List.cons_append,
              hasSite_cons, or_iff_right hfirst, hasSite_append_of_not_mem _ htail, hbehind]
            exact (or_iff_right not_hasSite_nil).symm
          · rw [if_neg (by simpa using hoperand), hasSite_linkedSite, hbehind]

/-- What linking makes of a text has computed paths left exactly when an operand of the text has
some. -/
theorem pathSites_linkSites_eq_nil_iff (media : List Text) (path text : Text) :
    let linked := link media path text
    linked.text = linked.table.header (librariesPath (Path.parent path)) ++ linkSites text ∧
      (pathSites (linkSites text) = [] ↔
        ∀ site ∈ pathSites text, pathSites site.value.operand = []) := by
  refine ⟨rfl, ?_⟩
  have hfound : HasSite (linkSites text) ↔
      ∃ found ∈ findAll recogniseSite text, HasSite found.value.operand := by
    rw [hasSite_linkSites, findAll]
    exact exists_mem_foundFrom.symm
  constructor
  · intro hnone site hsite
    by_contra hsome
    have hleft := hfound.mpr ⟨site, (List.mem_filter.mp hsite).1, hasSite_iff.mpr hsome⟩
    exact hasSite_iff.mp hleft hnone
  · intro hnone
    by_contra hsome
    obtain ⟨found, hmem, hoperand⟩ := hfound.mp (hasSite_iff.mpr hsome)
    have hkept : found ∈ pathSites text := by
      refine List.mem_filter.mpr ⟨hmem, ?_⟩
      cases hvalue : found.value.operand with
      | nil => exact absurd (hvalue ▸ hoperand) not_hasSite_nil
      | cons c rest => rfl
    exact hasSite_iff.mp hoperand (hnone found hkept)

/-- A computed path in the operand of another one is left. -/
theorem pathSites_linkSites_nested :
    let text := "addon.self.dir + f(addon.self.dir + \"/a.svg\")".toList
    linkSites text =
        "/* changed by addon-porter */ _twGetAsset(f(addon.self.dir + \"/a.svg\"))".toList ∧
      (pathSites (linkSites text)).map (·.value) = [⟨.dir, "\"/a.svg\"".toList⟩] ∧
      ¬ ∀ text, pathSites (linkSites text) = [] := by
  intro text
  have hlinked : linkSites text =
      "/* changed by addon-porter */ _twGetAsset(f(addon.self.dir + \"/a.svg\"))".toList := by
    decide +kernel
  have hleft : (pathSites (linkSites text)).map (·.value) = [⟨.dir, "\"/a.svg\"".toList⟩] := by
    rw [hlinked]
    decide +kernel
  refine ⟨hlinked, hleft, fun hnone => ?_⟩
  rw [hnone text] at hleft
  cases hleft

end AddonBundle.Script
