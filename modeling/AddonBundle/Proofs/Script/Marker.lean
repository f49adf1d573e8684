import AddonBundle.Proofs.Span
import AddonBundle.Script.Marker
/-!
# Class markers

A generated name may be cut at its underscores in several ways. It decomposes whenever it can be
cut at all, and then into the shortest sheet and, behind that, the longest class. The markers of a
script are those that a scan meets which goes on behind each of them; the first one with a name
that does not decompose refuses the script.
-/

namespace AddonBundle.Script

open Text

/-! ## Splitting at the last underscore -/

private theorem mark_of_dropWhile {text tail : Text} {mark : Char}
    (h : text.dropWhile (· ≠ '_') = mark :: tail) : mark = '_' := by
  have hhead := List.head?_dropWhile_not (· ≠ '_') text
  rw [h] at hhead
  simpa using hhead

theorem eq_append_of_dropWhile {text tail : Text} {mark : Char}
    (h : text.dropWhile (· ≠ '_') = mark :: tail) :
    text = text.takeWhile (· ≠ '_') ++ '_' :: tail := by
  calc text = text.takeWhile (· ≠ '_') ++ text.dropWhile (· ≠ '_') :=
        List.takeWhile_append_dropWhile.symm
    _ = text.takeWhile (· ≠ '_') ++ '_' :: tail := by rw [h, mark_of_dropWhile h]

theorem not_mem_takeWhile_mark (text : Text) : '_' ∉ text.takeWhile (· ≠ '_') := by
  intro hmem
  simpa using List.mem_takeWhile_imp hmem

/-- The second part has no underscore, unless it is its last character. -/
theorem splitLast_eq_some {text front back : Text} (h : splitLast text = some (front, back)) :
    text = front ++ '_' :: back ∧ front ≠ [] ∧ back ≠ [] ∧ '_' ∉ back.dropLast := by
  unfold splitLast at h
  split at h
  · cases h
  · rename_i last before hreverse
    split at h
    · rename_i mark c cs hdrop
      cases h
      have hsplit := eq_append_of_dropWhile hdrop
      have hrun := not_mem_takeWhile_mark before
      generalize before.takeWhile (· ≠ '_') = run at hsplit hrun
      refine ⟨?_, by simp, by simp, by simpa using hrun⟩
      rw [← List.reverse_reverse text, hreverse, hsplit]
      simp
    · cases h

/-- Where a text can be split at an underscore, it is split there or further on. -/
theorem exists_splitLast {text front back : Text} (htext : text = front ++ '_' :: back)
    (hfront : front ≠ []) (hback : back ≠ []) :
    ∃ front' back', splitLast text = some (front', back') ∧ front.length ≤ front'.length := by
  obtain ⟨start, last, hlast⟩ := List.eq_nil_or_concat back |>.resolve_left hback
  have hreverse : text.reverse = last :: (start.reverse ++ '_' :: front.reverse) := by
    rw [htext, hlast]
    simp
  obtain ⟨c, cs, hcs⟩ := List.exists_cons_of_ne_nil (mt List.reverse_eq_nil_iff.mp hfront)
  unfold splitLast
  rw [hreverse]
  dsimp only
  rw [List.dropWhile_append, hcs]
  cases hdrop : start.reverse.dropWhile (· ≠ '_') with
  | nil =>
      refine ⟨(c :: cs).reverse, _, rfl, ?_⟩
      rw [← hcs, List.reverse_reverse]
  | cons mark more =>
      -- a later underscore: what stands before it holds the whole front
      rw [List.isEmpty_cons, if_neg (by decide)]
      cases more with
      | nil =>
          refine ⟨('_' :: c :: cs).reverse, _, rfl, ?_⟩
          rw [← hcs]
          simp
      | cons d more =>
          refine ⟨(d :: more ++ '_' :: c :: cs).reverse, _, rfl, ?_⟩
          rw [← hcs]
          simp only [List.length_reverse, List.length_append, List.length_cons]
          omega

/-! ## Cutting a name -/

/-- A name is cut into a sheet, a class and a hash with underscores between them. -/
structure IsCut (token sheet plain hash : Text) : Prop where
  token_eq : token = sheet ++ '_' :: (plain ++ '_' :: hash)
  sheet_ne : sheet ≠ []
  plain_ne : plain ≠ []
  hash_ne : hash ≠ []
  sheet_chars : ∀ c ∈ sheet, isWord c = true
  plain_chars : ∀ c ∈ plain, isName c = true
  hash_chars : ∀ c ∈ hash, isName c = true

theorem isName_of_isWord {c : Char} (h : isWord c = true) : isName c = true := by
  rw [isName, h, Bool.true_or]

/-- A name decomposes into parts that it is cut into; the hash has an underscore at most at its
end. -/
theorem isCut_of_decompose {token : Text} {marker : ClassMarker}
    (h : decompose token = some marker) :
    IsCut token marker.sheet marker.plainClass marker.hash ∧ marker.generated = token ∧
      '_' ∉ marker.hash.dropLast := by
  unfold decompose at h
  split at h
  · cases h
  · rename_i c rest
    dsimp only at h
    split at h
    · cases h
    · rename_i mark tail hdrop
      split at h
      · rename_i hchars
        rw [Option.map_eq_map, Option.map_eq_some_iff] at h
        obtain ⟨⟨front, back⟩, hsplit, rfl⟩ := h
        obtain ⟨rfl, hfront, hback, hlast⟩ := splitLast_eq_some hsplit
        rw [Bool.and_eq_true, List.all_eq_true, List.all_eq_true] at hchars
        obtain ⟨hsheet, htail⟩ := hchars
        rw [List.forall_mem_append, List.forall_mem_cons] at htail
        obtain ⟨hplain, -, hhash⟩ := htail
        refine ⟨⟨?_, by simp, hfront, hback, hsheet, hplain, hhash⟩, rfl, hlast⟩
        rw [List.cons_append, ← eq_append_of_dropWhile hdrop]
      · cases h

/-- The sheet ends at the first underscore behind its first character. -/
private theorem decompose_sheet {c : Char} {run tail front back : Text} (hrun : '_' ∉ run)
    (hsheet : ∀ d ∈ c :: run, isWord d = true) (htail : ∀ d ∈ tail, isName d = true)
    (hsplit : splitLast tail = some (front, back)) :
    decompose (c :: (run ++ '_' :: tail)) =
      some ⟨c :: run, front, c :: (run ++ '_' :: tail), back⟩ := by
  have hkeep : ∀ d ∈ run, decide (d ≠ '_') = true := by
    intro d hd
    rw [decide_eq_true_eq]
    intro hmark
    exact hrun (hmark ▸ hd)
  have hstop : decide ('_' ≠ '_') = false := by decide
  have hchars : ((c :: run).all isWord && tail.all isName) = true := by
    rw [Bool.and_eq_true, List.all_eq_true, List.all_eq_true]
    exact ⟨hsheet, htail⟩
  unfold decompose
  dsimp only
  rw [takeWhile_append_stop tail hkeep hstop, dropWhile_append_stop tail hkeep hstop]
  dsimp only
  rw [if_pos hchars, hsplit]
  rfl

/-- A name that can be cut decomposes, and no cut has a shorter sheet, or a longer class behind a
sheet of the same length. -/
theorem IsCut.exists_decompose {token sheet plain hash : Text} (h : IsCut token sheet plain hash) :
    ∃ marker, decompose token = some marker ∧ marker.sheet.length ≤ sheet.length ∧
      (marker.sheet.length = sheet.length → plain.length ≤ marker.plainClass.length) := by
  have htoken := h.token_eq
  have hsheet := h.sheet_chars
  have hbehind : ∀ d ∈ plain ++ '_' :: hash, isName d = true := by
    rw [List.forall_mem_append, List.forall_mem_cons]
    exact ⟨h.plain_chars, by decide, h.hash_chars⟩
  obtain ⟨c, inside, rfl⟩ := List.exists_cons_of_ne_nil h.sheet_ne
  rw [List.cons_append] at htoken
  by_cases hmark : '_' ∈ inside
  · -- the sheet can end earlier, and what follows it can then be split all the more
    obtain ⟨run, more, rfl, hrun⟩ := List.eq_append_cons_of_mem hmark
    rw [List.append_assoc, List.cons_append] at htoken
    rw [← List.cons_append, List.forall_mem_append] at hsheet
    obtain ⟨hrunChars, hmoreChars⟩ := hsheet
    have htail : ∀ d ∈ more ++ '_' :: (plain ++ '_' :: hash), isName d = true := by
      rw [List.forall_mem_append, List.forall_mem_cons]
      exact ⟨fun d hd => isName_of_isWord (hmoreChars d (List.mem_cons_of_mem _ hd)), by decide,
        hbehind⟩
    have hlater : more ++ '_' :: (plain ++ '_' :: hash) = (more ++ '_' :: plain) ++ '_' :: hash := by
      rw [List.append_assoc, List.cons_append]
    obtain ⟨front, back, hsplit, -⟩ := exists_splitLast hlater (by simp) h.hash_ne
    refine ⟨_, htoken ▸ decompose_sheet hrun hrunChars htail hsplit, ?_, ?_⟩
    · simp only [List.length_cons, List.length_append]
      omega
    · simp only [List.length_cons, List.length_append]
      omega
  · obtain ⟨front, back, hsplit, hlength⟩ := exists_splitLast rfl h.plain_ne h.hash_ne
    exact ⟨_, htoken ▸ decompose_sheet hmark hsheet hbehind hsplit, Nat.le_refl _, fun _ => hlength⟩

/-- The cut that a name decomposes into, among all of its cuts. -/
structure IsCanonical (token : Text) (marker : ClassMarker) : Prop where
  cut : IsCut token marker.sheet marker.plainClass marker.hash
  generated : marker.generated = token
  shortest : ∀ sheet plain hash, IsCut token sheet plain hash → marker.sheet.length ≤ sheet.length
  longest : ∀ plain hash, IsCut token marker.sheet plain hash →
    plain.length ≤ marker.plainClass.length
  last : token.getLast? ≠ some '_' → '_' ∉ marker.hash

theorem isCanonical_of_decompose {token : Text} {marker : ClassMarker}
    (h : decompose token = some marker) : IsCanonical token marker := by
  obtain ⟨hcut, hgenerated, hdropLast⟩ := isCut_of_decompose h
  have hbest : ∀ {sheet plain hash : Text}, IsCut token sheet plain hash →
      marker.sheet.length ≤ sheet.length ∧
        (marker.sheet.length = sheet.length → plain.length ≤ marker.plainClass.length) := by
    intro sheet plain hash hother
    obtain ⟨best, hbest, hlengths⟩ := hother.exists_decompose
    rw [h, Option.some.injEq] at hbest
    rwa [hbest]
  refine ⟨hcut, hgenerated, ?_, ?_, ?_⟩
  · exact fun sheet plain hash hother => (hbest hother).1
  · exact fun plain hash hother => (hbest hother).2 rfl
  · intro hend hmem
    have htoken : token = (marker.sheet ++ '_' :: (marker.plainClass ++ ['_'])) ++ marker.hash := by
      rw [hcut.token_eq]
      simp
    have hlast : token.getLast? = marker.hash.getLast? := by
      rw [htoken, List.getLast?_append_of_ne_nil _ hcut.hash_ne]
    rw [← List.dropLast_concat_getLast hcut.hash_ne, List.mem_append, List.mem_singleton] at hmem
    apply hend
    rw [hlast, List.getLast?_eq_some_getLast hcut.hash_ne, ← hmem.resolve_left hdropLast]

theorem isSome_decompose_iff {token : Text} :
    (decompose token).isSome = true ↔ ∃ sheet plain hash, IsCut token sheet plain hash := by
  rw [Option.isSome_iff_exists]
  constructor
  · rintro ⟨marker, h⟩
    exact ⟨_, _, _, (isCut_of_decompose h).1⟩
  · rintro ⟨sheet, plain, hash, hcut⟩
    obtain ⟨marker, h, -⟩ := hcut.exists_decompose
    exact ⟨marker, h⟩

/-- An underscore at the end always belongs to the hash. -/
example : decompose "a__b-c_d_".toList =
    some ⟨"a".toList, "_b-c".toList, "a__b-c_d_".toList, "d_".toList⟩ := by decide +kernel

/-! ## Markers as they are written -/

/-- A marker in front of a text: the keyword, spaces or tabs, and the name that it records. Both
runs go as far as they can. -/
structure IsMarker (written token rest : Text) : Prop where
  written_eq : ∃ gap, written = "FIXCLASS:".toList ++ (gap ++ token) ∧ ∀ c ∈ gap, c = ' ' ∨ c = '\t'
  gap_stop : ∀ c ∈ (token ++ rest).head?, c ≠ ' ' ∧ c ≠ '\t'
  token_chars : ∀ c ∈ token, isName c = true
  token_stop : ∀ c ∈ rest.head?, isName c = false

theorem IsMarker.ne_nil {written token rest : Text} (h : IsMarker written token rest) :
    written ≠ [] := by
  obtain ⟨gap, hwritten, -⟩ := h.written_eq
  rw [hwritten]
  simp

theorem ignoresBefore_marker : IgnoresBefore recogniseMarker := fun _ _ _ => rfl

theorem recogniseMarker_iff {before : Option Char} {text token : Text} {length : Nat} :
    recogniseMarker before text = some (token, length) ↔
      ∃ written rest, text = written ++ rest ∧ IsMarker written token rest ∧
        length = written.length := by
  have hgap : ∀ c : Char, (decide (c = ' ') || decide (c = '\t')) = true ↔ c = ' ' ∨ c = '\t' := by
    simp
  have hother : ∀ c : Char,
      (decide (c = ' ') || decide (c = '\t')) = false ↔ c ≠ ' ' ∧ c ≠ '\t' := by
    simp
  constructor
  · intro h
    rw [recogniseMarker, Option.map_eq_map, Option.map_eq_some_iff] at h
    obtain ⟨behind, hafter, h⟩ := h
    obtain ⟨gap, more, hbehind, htake, hdrop, hgapChars, hgapStop⟩ :=
      exists_takeWhile (fun c => c = ' ' || c = '\t') behind
    obtain ⟨name, rest, hmore, hname, -, hnameChars, hnameStop⟩ := exists_takeWhile isName more
    rw [htake, hdrop, hname, Prod.mk.injEq] at h
    obtain ⟨rfl, hlength⟩ := h
    refine ⟨"FIXCLASS:".toList ++ (gap ++ name), rest, ?_, ⟨⟨gap, rfl, ?_⟩, ?_, hnameChars,
      hnameStop⟩, ?_⟩
    · rw [after?_eq_some.mp hafter, hbehind, hmore]
      simp only [List.append_assoc]
    · exact fun c hc => (hgap c).mp (hgapChars c hc)
    · rw [← hmore]
      exact fun c hc => (hother c).mp (hgapStop c hc)
    · rw [← hlength, List.length_append, List.length_append, Nat.add_assoc]
      rfl
  · rintro ⟨written, rest, rfl, h, rfl⟩
    obtain ⟨gap, rfl, hgapChars⟩ := h.written_eq
    have hgapStop := h.gap_stop
    have htake : (gap ++ (token ++ rest)).takeWhile (fun c => c = ' ' || c = '\t') = gap :=
      takeWhile_append_head (fun c hc => (hgap c).mpr (hgapChars c hc))
        fun c hc => (hother c).mpr (hgapStop c hc)
    have hdrop : (gap ++ (token ++ rest)).dropWhile (fun c => c = ' ' || c = '\t') =
        token ++ rest := by
      have hsplit := List.takeWhile_append_dropWhile (p := fun c => c = ' ' || c = '\t')
        (l := gap ++ (token ++ rest))
      rw [htake] at hsplit
      exact List.append_cancel_left hsplit
    have htoken : (token ++ rest).takeWhile isName = token :=
      takeWhile_append_head h.token_chars h.token_stop
    rw [List.append_assoc, List.append_assoc, recogniseMarker, after?_append]
    simp only [Option.map_eq_map, Option.map_some, htake, hdrop, htoken, List.length_append]
    rw [← Nat.add_assoc]
    rfl

theorem recogniseMarker_eq_none_iff {before : Option Char} {text : Text} :
    recogniseMarker before text = none ↔ ¬ "FIXCLASS:".toList <+: text := by
  rw [recogniseMarker, Option.map_eq_map, Option.map_eq_none_iff, Option.eq_none_iff_forall_ne_some,
    List.IsPrefix]
  simp only [ne_eq, after?_eq_some, eq_comm (a := text), not_exists]

/-! ## Scanning a script -/

/-- The scan of a text from an offset on: where no marker stands it goes on with the next character,
and a marker is passed as a whole. It gives the names recorded, with their spans. -/
inductive MarkerScan : Nat → Text → List (Found Text) → Prop
  | nil (pos : Nat) : MarkerScan pos [] []
  | skip {pos : Nat} {c : Char} {rest : Text} {found : List (Found Text)}
      (hnone : ¬ "FIXCLASS:".toList <+: c :: rest) (hrest : MarkerScan (pos + 1) rest found) :
      MarkerScan pos (c :: rest) found
  | marker {pos : Nat} {written token rest : Text} {found : List (Found Text)}
      (hmarker : IsMarker written token rest)
      (hrest : MarkerScan (pos + written.length) rest found) :
      MarkerScan pos (written ++ rest) (⟨token, pos, pos + written.length⟩ :: found)

theorem pieces_marker {written token rest : Text} (h : IsMarker written token rest) :
    pieces recogniseMarker (written ++ rest) = .item token written :: pieces recogniseMarker rest :=
  pieces_append_item ignoresBefore_marker h.ne_nil
    (recogniseMarker_iff.mpr ⟨written, rest, rfl, h, rfl⟩)

theorem MarkerScan.eq_found {pos : Nat} {text : Text} {found : List (Found Text)}
    (h : MarkerScan pos text found) : found = foundFrom pos (pieces recogniseMarker text) := by
  induction h with
  | nil pos => rfl
  | skip hnone _ ih =>
      rw [pieces_cons_plain ignoresBefore_marker (recogniseMarker_eq_none_iff.mpr hnone), foundFrom]
      exact ih
  | marker hmarker _ ih =>
      rw [pieces_marker hmarker, foundFrom, ← ih]

theorem markerScan_pieces (pos : Nat) (text : Text) :
    MarkerScan pos text (foundFrom pos (pieces recogniseMarker text)) := by
  induction text using behind_induction generalizing pos with
  | nil => exact .nil pos
  | cons c rest ih =>
      cases hrec : recogniseMarker none (c :: rest) with
      | none =>
          rw [pieces_cons_plain ignoresBefore_marker hrec, foundFrom]
          exact .skip (recogniseMarker_eq_none_iff.mp hrec)
            (ih [c] rest (List.cons_ne_nil _ _) rfl (pos + 1))
      | some result =>
          obtain ⟨written, behind, htext, hmarker, -⟩ := recogniseMarker_iff.mp hrec
          have hbehind := ih written behind hmarker.ne_nil htext (pos + written.length)
          rw [htext, pieces_marker hmarker, foundFrom]
          exact .marker hmarker hbehind

/-- The scan finds what the search finds. -/
theorem markerScan_iff {text : Text} {found : List (Found Text)} :
    MarkerScan 0 text found ↔ found = findAll recogniseMarker text := by
  constructor
  · exact MarkerScan.eq_found
  · intro h
    rw [h]
    exact markerScan_pieces 0 text

/-- What a scan finds stands in the text where its span is. -/
theorem isMarker_of_mem_findAll {text : Text} {found : Found Text}
    (h : found ∈ findAll recogniseMarker text) :
    found.start < found.stop ∧ found.stop ≤ text.length ∧
      IsMarker (slice text found.start found.stop) found.value (text.drop found.stop) := by
  refine written_in_span (P := fun _ token written rest => IsMarker written token rest) ?_ h
  intro before text token length hrec
  obtain ⟨written, rest, htext, hmarker, hlength⟩ := recogniseMarker_iff.mp hrec
  exact ⟨written, rest, htext, hmarker.ne_nil, hlength, hmarker⟩

/-! ## Decomposing what is found -/

/-- The name that a decomposed marker was read from, at the same place. -/
def recorded (marker : Found ClassMarker) : Found Text :=
  ⟨marker.value.generated, marker.start, marker.stop⟩

theorem decomposeAll_eq_error_iff {found : List (Found Text)} {token : Text} :
    decomposeAll found = .error token ↔
      ∃ front mark back, found = front ++ mark :: back ∧ mark.value = token ∧
        decompose token = none ∧ ∀ other ∈ front, (decompose other.value).isSome = true := by
  induction found with
  | nil => simp [decomposeAll]
  | cons first rest ih =>
      unfold decomposeAll
      cases hfirst : decompose first.value with
      | none =>
          constructor
          · intro h
            cases h
            exact ⟨[], first, rest, rfl, rfl, hfirst, by simp⟩
          · rintro ⟨front, mark, back, heq, rfl, -, hfront⟩
            cases front with
            | nil => rw [(List.cons.inj heq).1]
            | cons other front =>
                have hother := hfront other List.mem_cons_self
                rw [← (List.cons.inj heq).1, hfirst] at hother
                cases hother
      | some marker =>
          have hmap : ((⟨marker, first.start, first.stop⟩ :: ·) <$> decomposeAll rest :
              Except Text (List (Found ClassMarker))) = .error token ↔
                decomposeAll rest = .error token := by
            cases decomposeAll rest <;> simp [Functor.map, Except.map]
          rw [hmap, ih]
          constructor
          · rintro ⟨front, mark, back, rfl, hvalue, hnone, hfront⟩
            refine ⟨first :: front, mark, back, rfl, hvalue, hnone, ?_⟩
            rw [List.forall_mem_cons, hfirst]
            exact ⟨rfl, hfront⟩
          · rintro ⟨front, mark, back, heq, rfl, hnone, hfront⟩
            cases front with
            | nil =>
                rw [(List.cons.inj heq).1, hnone] at hfirst
                cases hfirst
            | cons other front =>
                exact ⟨front, mark, back, (List.cons.inj heq).2, rfl, hnone,
                  fun other hother => hfront other (List.mem_cons_of_mem _ hother)⟩

theorem decomposeAll_eq_ok_iff {found : List (Found Text)} {markers : List (Found ClassMarker)} :
    decomposeAll found = .ok markers ↔
      found = markers.map recorded ∧
        ∀ marker ∈ markers, decompose marker.value.generated = some marker.value := by
  induction found generalizing markers with
  | nil =>
      rw [decomposeAll, Except.ok.injEq, eq_comm (a := []), eq_comm (a := []), List.map_eq_nil_iff]
      constructor
      · intro h
        rw [h]
        exact ⟨rfl, by simp⟩
      · exact And.left
  | cons first rest ih =>
      unfold decomposeAll
      constructor
      · intro h
        cases hfirst : decompose first.value with
        | none => simp [hfirst] at h
        | some marker =>
            rw [hfirst] at h
            cases hrest : decomposeAll rest with
            | error token => simp [hrest, Functor.map, Except.map] at h
            | ok others =>
                obtain ⟨hothers, hall⟩ := ih.mp hrest
                simp only [hrest, Functor.map, Except.map, Except.ok.injEq] at h
                have hgenerated := (isCut_of_decompose hfirst).2.1
                rw [← h, List.map_cons, List.forall_mem_cons, ← hothers, recorded, hgenerated]
                exact ⟨rfl, hfirst, hall⟩
      · rintro ⟨heq, hall⟩
        cases markers with
        | nil => cases heq
        | cons marker others =>
            rw [List.map_cons, List.cons.injEq] at heq
            rw [List.forall_mem_cons] at hall
            rw [heq.1, recorded, hall.1, ih.mpr ⟨heq.2, hall.2⟩]
            rfl

/-- A name decomposes exactly when it can be cut, and then into the canonical cut. A script is
refused exactly for the first name of its scan that does not decompose; otherwise each name of the
scan gives its marker, and their spans stand one behind the other. -/
theorem markers_canonical :
    (∀ token, (decompose token).isSome = true ↔ ∃ sheet plain hash, IsCut token sheet plain hash) ∧
    (∀ token, ∀ marker ∈ decompose token, IsCanonical token marker) ∧
    (∀ text token, classMarkers text = .error token ↔
      ∃ front mark back, MarkerScan 0 text (front ++ mark :: back) ∧ mark.value = token ∧
        decompose token = none ∧ ∀ other ∈ front, (decompose other.value).isSome = true) ∧
    (∀ text markers, classMarkers text = .ok markers ↔
      MarkerScan 0 text (markers.map recorded) ∧
        ∀ marker ∈ markers, decompose marker.value.generated = some marker.value) ∧
    ∀ text markers, classMarkers text = .ok markers →
      (markers.Pairwise fun a b => a.stop ≤ b.start) ∧
      ∀ marker ∈ markers, marker.start < marker.stop ∧ marker.stop ≤ text.length ∧
        ∃ gap, (∀ c ∈ gap, c = ' ' ∨ c = '\t') ∧
          slice text marker.start marker.stop =
            "FIXCLASS:".toList ++ (gap ++ marker.value.generated) := by
  refine ⟨fun token => isSome_decompose_iff, fun token marker => isCanonical_of_decompose, ?_, ?_, ?_⟩
  · intro text token
    rw [classMarkers, decomposeAll_eq_error_iff]
    simp only [markerScan_iff, eq_comm (b := findAll recogniseMarker text)]
  · intro text markers
    rw [classMarkers, decomposeAll_eq_ok_iff, markerScan_iff, eq_comm]
  · intro text markers h
    obtain ⟨hfound, -⟩ := decomposeAll_eq_ok_iff.mp h
    refine ⟨?_, fun marker hmarker => ?_⟩
    · have hpairwise := pairwise_foundFrom 0 (pieces recogniseMarker text)
      rw [← findAll, hfound, List.pairwise_map] at hpairwise
      exact hpairwise
    · have hmem : recorded marker ∈ findAll recogniseMarker text := by
        rw [hfound]
        exact List.mem_map_of_mem hmarker
      obtain ⟨hstart, hstop, hwritten⟩ := isMarker_of_mem_findAll hmem
      obtain ⟨gap, heq, hgap⟩ := hwritten.written_eq
      exact ⟨hstart, hstop, gap, hgap, heq⟩

end AddonBundle.Script
