import AddonBundle.Proofs.Piece
/-!
# Spans of items

Each item found in a text has a span of its own, behind those of the items before it, and a place
that is recognised lies in one of them. A text is its gaps, which are outside all spans, woven with
what is written in the spans; with something else put into the spans, the gaps stay as they are.
-/

namespace AddonBundle.Text

variable {α : Type} {recognise : Recogniser α}

/-! ## Order -/

theorem start_of_mem_foundFrom {pos : Nat} {ps : List (Piece α)} {found : Found α}
    (h : found ∈ foundFrom pos ps) : pos ≤ found.start ∧ found.start ≤ found.stop := by
  induction ps generalizing pos with
  | nil => cases h
  | cons piece ps ih =>
      cases piece with
      | plain c =>
          obtain ⟨hstart, hstop⟩ := ih h
          exact ⟨by omega, hstop⟩
      | item value text =>
          rcases List.mem_cons.mp h with rfl | h
          · exact ⟨Nat.le_refl _, Nat.le_add_right _ _⟩
          · obtain ⟨hstart, hstop⟩ := ih h
            exact ⟨by omega, hstop⟩

theorem stop_le_of_mem_foundFrom {pos : Nat} {ps : List (Piece α)} {found : Found α}
    (h : found ∈ foundFrom pos ps) : found.stop ≤ pos + (ps.flatMap Piece.text).length := by
  induction ps generalizing pos with
  | nil => cases h
  | cons piece ps ih =>
      rw [List.flatMap_cons, List.length_append]
      cases piece with
      | plain c =>
          have hstop := ih h
          simp only [Piece.text, List.length_singleton]
          omega
      | item value text =>
          rcases List.mem_cons.mp h with rfl | h
          · simp only [Piece.text]
            omega
          · have hstop := ih h
            simp only [Piece.text]
            omega

theorem pairwise_foundFrom (pos : Nat) (ps : List (Piece α)) :
    (foundFrom pos ps).Pairwise fun a b => a.stop ≤ b.start := by
  induction ps generalizing pos with
  | nil => exact List.Pairwise.nil
  | cons piece ps ih =>
      cases piece with
      | plain c => exact ih _
      | item value text =>
          exact List.pairwise_cons.mpr ⟨fun found hfound => (start_of_mem_foundFrom hfound).1, ih _⟩

/-- Spans that stand one behind the other hold no place twice. -/
theorem eq_of_mem_span {spans : List (Found α)} (h : spans.Pairwise fun a b => a.stop ≤ b.start)
    {a b : Found α} {place : Nat} (ha : a ∈ spans) (hb : b ∈ spans)
    (hplace : a.start ≤ place ∧ place < a.stop) (hplace' : b.start ≤ place ∧ place < b.stop) :
    a = b := by
  induction spans with
  | nil => cases ha
  | cons found rest ih =>
      obtain ⟨hbehind, hrest⟩ := List.pairwise_cons.mp h
      rcases List.mem_cons.mp ha with rfl | ha'
      · rcases List.mem_cons.mp hb with rfl | hb'
        · rfl
        · have hapart := hbehind b hb'
          omega
      · rcases List.mem_cons.mp hb with rfl | hb'
        · have hapart := hbehind a ha'
          omega
        · exact ih hrest ha' hb'

theorem stop_le_of_mem_findAll {text : Text} {found : Found α}
    (h : found ∈ findAll recognise text) : found.stop ≤ text.length := by
  have hstop := stop_le_of_mem_foundFrom h
  rwa [texts_pieces, Nat.zero_add] at hstop

/-! ## Places that are recognised -/

/-- A place that is recognised lies in the span of an item. -/
theorem exists_span_of_recognised (hignores : IgnoresBefore recognise) (front : Text) {back : Text}
    {result : α × Nat} (hback : back ≠ []) (hrec : recognise none back = some result) :
    ∃ found ∈ findAll recognise (front ++ back),
      found.start ≤ front.length ∧ front.length < found.stop := by
  rw [hignores none (charBefore none front)] at hrec
  obtain ⟨found, hfound, ⟨hstart, -⟩ | ⟨hstart, hstop⟩⟩ := exists_found_of_recognised hback hrec
  · exact ⟨found, hfound, Nat.le_of_eq hstart, hstart ▸ start_lt_stop_of_mem_findAll hfound⟩
  · exact ⟨found, hfound, Nat.le_of_lt hstart, hstop⟩

/-! ## Items left out -/

/-- The recogniser that leaves out items at some places. -/
def omitting (skip : Text → Bool) (recognise : Recogniser α) : Recogniser α :=
  fun before text => if skip text then none else recognise before text

private theorem piecesFrom_append_plain {before : Option Char} {front back : Text}
    (h : ∀ i < front.length, ∀ before', recognise before' ((front ++ back).drop i) = none) :
    piecesFrom recognise before 0 (front ++ back) =
      front.map .plain ++ piecesFrom recognise (charBefore before front) 0 back := by
  induction front generalizing before with
  | nil => rfl
  | cons c front ih =>
      have hfirst := h 0 (Nat.zero_lt_succ _) before
      have hrest := @ih (some c) fun i hi => h (i + 1) (Nat.succ_lt_succ hi)
      rw [List.drop_zero, List.cons_append] at hfirst
      rw [List.cons_append, piecesFrom_plain hfirst, hrest, List.map_cons, List.cons_append,
        charBefore_cons]

private theorem foundFrom_append_plain (pos : Nat) (front : Text) (ps : List (Piece α)) :
    foundFrom pos (front.map .plain ++ ps) = foundFrom (pos + front.length) ps := by
  induction front generalizing pos with
  | nil => rfl
  | cons c front ih =>
      rw [List.map_cons, List.cons_append, foundFrom, ih, List.length_cons, Nat.add_assoc,
        Nat.add_comm 1]

/-- Without the items left out the same others are found, if none starts inside those. -/
theorem findAll_omitting {skip : Text → Bool}
    (h : ∀ before text value length, recognise before text = some (value, length) →
      0 < length ∧ length ≤ text.length ∧ (skip text = true →
        ∀ i, 0 < i → i < length → ∀ before', recognise before' (text.drop i) = none))
    (text : Text) :
    findAll (omitting skip recognise) text =
      (findAll recognise text).filter fun found => !skip (text.drop found.start) := by
  suffices hfrom : ∀ before rest, text = before ++ rest →
      foundFrom before.length (piecesFrom (omitting skip recognise) (charBefore none before) 0 rest) =
        (foundFrom before.length (piecesFrom recognise (charBefore none before) 0 rest)).filter
          fun found => !skip (text.drop found.start) from
    hfrom [] text rfl
  intro before rest htext
  induction rest using behind_induction generalizing before with
  | nil => simp [foundFrom]
  | cons c rest ih =>
      cases hrec : recognise (charBefore none before) (c :: rest) with
      | none =>
          have homit : omitting skip recognise (charBefore none before) (c :: rest) = none := by
            rw [omitting, hrec, ite_self]
          have hrest := ih [c] rest (List.cons_ne_nil _ _) rfl (before ++ [c])
            (by rw [htext, List.append_assoc, List.singleton_append])
          rw [charBefore_append, charBefore_cons, charBefore_nil, List.length_append,
            List.length_singleton] at hrest
          rw [piecesFrom_plain hrec, piecesFrom_plain homit, foundFrom, foundFrom, hrest]
      | some result =>
          obtain ⟨value, written⟩ := result
          obtain ⟨hpos, hle, hinside⟩ := h _ _ _ _ hrec
          obtain ⟨front, back, hsplit, rfl⟩ :
              ∃ front back, c :: rest = front ++ back ∧ front.length = written :=
            ⟨_, _, (List.take_append_drop written _).symm, List.length_take_of_le hle⟩
          have hfront : front ≠ [] := List.length_pos_iff.mp hpos
          have hrest := ih front back hfront hsplit (before ++ front)
            (by rw [htext, hsplit, List.append_assoc])
          rw [charBefore_append, List.length_append] at hrest
          rw [hsplit] at hrec hinside htext ⊢
          have hplace : text.drop before.length = front ++ back := by
            rw [htext, List.drop_left]
          rw [piecesFrom_append_item hfront hrec, foundFrom, List.filter_cons, hplace]
          cases hskip : skip (front ++ back) with
          | false =>
              have homit : omitting skip recognise (charBefore none before) (front ++ back) =
                  some (value, front.length) := by
                rw [omitting, hskip, hrec]
                rfl
              rw [piecesFrom_append_item hfront homit, foundFrom, hrest]
              rfl
          | true =>
              have hnone : ∀ i < front.length, ∀ before',
                  omitting skip recognise before' ((front ++ back).drop i) = none := by
                intro i hi before'
                cases i with
                | zero => rw [List.drop_zero, omitting, hskip, if_pos rfl]
                | succ i =>
                    rw [omitting, hinside hskip (i + 1) (Nat.succ_pos i) hi before', ite_self]
              rw [piecesFrom_append_plain hnone, foundFrom_append_plain, hrest]
              rfl

/-! ## Gaps and what is woven into them -/

/-- The characters from one offset to another. -/
def slice (text : Text) (start stop : Nat) : Text :=
  (text.take stop).drop start

/-- What a text has from an offset on outside spans: before the first, between them, and behind
the last. -/
def gaps (text : Text) : Nat → List (Found α) → List Text
  | pos, [] => [text.drop pos]
  | pos, found :: rest => slice text pos found.start :: gaps text found.stop rest

/-- Fillings put between gaps, of which there is one more. -/
def weave : List Text → List Text → Text
  | gap :: gaps, filling :: fillings => gap ++ filling ++ weave gaps fillings
  | gaps, _ => gaps.flatten

theorem length_gaps (text : Text) (pos : Nat) (spans : List (Found α)) :
    (gaps text pos spans).length = spans.length + 1 := by
  induction spans generalizing pos with
  | nil => rfl
  | cons found rest ih => simp [gaps, ih]

theorem length_slice {text : Text} {stop : Nat} (start : Nat) (h : stop ≤ text.length) :
    (slice text start stop).length = stop - start := by
  rw [slice, List.length_drop, List.length_take_of_le h]

theorem slice_append_append (front middle back : Text) :
    slice (front ++ middle ++ back) front.length (front.length + middle.length) = middle := by
  rw [slice, ← List.length_append, List.take_left, List.drop_left]

theorem slice_append_drop {text : Text} {start stop : Nat} (h : start ≤ stop) :
    slice text start stop ++ text.drop stop = text.drop start := by
  have hdrop : text.drop stop = (text.drop start).drop (stop - start) := by
    rw [List.drop_drop, Nat.add_sub_cancel' h]
  rw [slice, List.drop_take, hdrop, List.take_append_drop]

/-- What a recogniser says about the characters of an item and the text behind them holds of the
span of each item that is found, and of the text behind the span. -/
theorem written_in_span {P : Option Char → α → Text → Text → Prop}
    (hwritten : ∀ {before text value length}, recognise before text = some (value, length) →
      ∃ written rest, text = written ++ rest ∧ written ≠ [] ∧ length = written.length ∧
        P before value written rest)
    {text : Text} {found : Found α} (h : found ∈ findAll recognise text) :
    found.start < found.stop ∧ found.stop ≤ text.length ∧
      P (charBefore none (text.take found.start)) found.value
        (slice text found.start found.stop) (text.drop found.stop) := by
  obtain ⟨front, back, length, htext, -, hstart, hrec, hstop⟩ := written_of_mem_findAll h
  obtain ⟨written, rest, rfl, hne, rfl, hP⟩ := hwritten hrec
  have hpos := List.length_pos_iff.mpr hne
  have hend : found.stop = front.length + written.length := by
    rw [hstop hpos (by rw [List.length_append]; omega), hstart]
  rw [← List.append_assoc] at htext
  have htake : text.take found.start = front := by
    rw [htext, ← hstart, List.append_assoc, List.take_left]
  have hslice : slice text found.start found.stop = written := by
    rw [← hstart, hend, htext, slice_append_append]
  have hdrop : text.drop found.stop = rest := by
    rw [hend, htext, ← List.length_append, List.drop_left]
  refine ⟨by omega, stop_le_of_mem_findAll h, ?_⟩
  rw [htake, hslice, hdrop]
  exact hP

/-- A text is its gaps woven with what is written in the spans. -/
theorem weave_written (text : Text) {pos : Nat} {spans : List (Found α)}
    (hfirst : ∀ found ∈ spans, pos ≤ found.start ∧ found.start ≤ found.stop)
    (horder : spans.Pairwise fun a b => a.stop ≤ b.start) :
    weave (gaps text pos spans) (spans.map fun found => slice text found.start found.stop) =
      text.drop pos := by
  induction spans generalizing pos with
  | nil => simp [gaps, weave]
  | cons found rest ih =>
      obtain ⟨hrest, horder⟩ := List.pairwise_cons.mp horder
      obtain ⟨hstart, hstop⟩ := hfirst found List.mem_cons_self
      have hbehind := ih (fun other hother =>
        ⟨hrest other hother, (hfirst other (List.mem_cons_of_mem _ hother)).2⟩) horder
      rw [gaps, List.map_cons, weave, hbehind, List.append_assoc, slice_append_drop hstop,
        slice_append_drop hstart]

/-- What stands in front of all spans goes before everything that is woven. -/
theorem weave_gaps_append {text front plain rest : Text} {spans : List (Found α)}
    (filling : Found α → Text) (htext : text = front ++ plain ++ rest)
    (hspans : ∀ found ∈ spans, (front ++ plain).length ≤ found.start) :
    weave (gaps text front.length spans) (spans.map filling) =
      plain ++ weave (gaps text (front ++ plain).length spans) (spans.map filling) := by
  cases spans with
  | nil =>
      simp only [gaps, List.map_nil, weave, List.flatten_cons, List.flatten_nil, List.append_nil]
      rw [htext, List.drop_left, List.append_assoc, List.drop_left]
  | cons found rest' =>
      have hstart := hspans found List.mem_cons_self
      have hslice : slice text front.length found.start =
          plain ++ slice text (front ++ plain).length found.start := by
        unfold slice
        rw [htext, List.take_append, List.take_of_length_le hstart, List.drop_left,
          List.append_assoc, List.drop_left]
      rw [gaps, gaps, List.map_cons, weave, weave, hslice]
      simp only [List.append_assoc]

/-- The pieces of a text in which some of the items are filled anew: the gaps between these stay. -/
theorem weave_foundFrom (keep : α → Bool) (filling : α → Text) {text front : Text}
    {ps : List (Piece α)} (htext : text = front ++ ps.flatMap Piece.text) :
    let spans := (foundFrom front.length ps).filter fun found => keep found.value
    weave (gaps text front.length spans) (spans.map fun found => filling found.value) =
      ps.flatMap fun
        | .plain c => [c]
        | .item value written => if keep value then filling value else written := by
  intro spans
  induction ps generalizing front with
  | nil =>
      rw [List.flatMap_nil, List.append_nil] at htext
      simp [spans, foundFrom, gaps, weave, htext]
  | cons piece ps ih =>
      rw [List.flatMap_cons, ← List.append_assoc] at htext
      have hrest := ih htext
      have hbehind : ∀ found ∈ (foundFrom (front ++ piece.text).length ps).filter
          (fun found => keep found.value), (front ++ piece.text).length ≤ found.start :=
        fun found hfound => (start_of_mem_foundFrom (List.mem_filter.mp hfound).1).1
      have hskip := weave_gaps_append (fun found => filling found.value) htext hbehind
      rw [hrest] at hskip
      rw [List.flatMap_cons]
      cases piece with
      | plain c =>
          have hspans : spans = (foundFrom (front ++ [c]).length ps).filter
              (fun found => keep found.value) := by
            simp [spans, foundFrom]
          rw [hspans]
          exact hskip
      | item value written =>
          have hfound : foundFrom front.length (.item value written :: ps) =
              ⟨value, front.length, (front ++ written).length⟩ ::
                foundFrom (front ++ written).length ps := by
            simp [foundFrom]
          cases hkeep : keep value with
          | true =>
              have hgap : slice text front.length front.length = [] := by
                simp [slice]
              simp only [spans, hfound, List.filter_cons, hkeep, if_true, gaps, List.map_cons,
                weave, hgap, List.nil_append]
              rw [← hrest]
              rfl
          | false =>
              simp only [spans, hfound, List.filter_cons, hkeep, Bool.false_eq_true, if_false]
              exact hskip

/-- Replacing the items of a text leaves its gaps as they are. -/
theorem substitute_eq_weave (recognise : Recogniser α) (filling : α → Text) (text : Text) :
    let items := findAll recognise text
    substitute recognise filling text =
      weave (gaps text 0 items) (items.map fun item => filling item.value) := by
  intro items
  have htext : text = [] ++ (pieces recognise text).flatMap Piece.text :=
    (texts_pieces recognise text).symm
  have hpieces := weave_foundFrom (fun _ => true) filling htext
  rw [List.filter_true] at hpieces
  exact hpieces.symm

end AddonBundle.Text
