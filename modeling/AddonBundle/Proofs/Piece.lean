import AddonBundle.Proofs.Text
import AddonBundle.Text.Piece
/-!
# Items of a text

What the search from left to right finds. Every item found is one that the recogniser accepts at
its offset; and a place that the recogniser accepts is found, unless it lies inside an item that is
found. Where no item can start inside another, every such place is found, and where items that
overlap end together, every place where one ends.
-/

namespace AddonBundle.Text

variable {α : Type} {recognise : Recogniser α}

/-! ## Pieces -/

@[simp] theorem piecesFrom_nil (before : Option Char) (skip : Nat) :
    piecesFrom recognise before skip [] = [] := by
  cases skip <;> rfl

/-- The characters that belong to the item before give no pieces. -/
theorem piecesFrom_append (before : Option Char) (front back : Text) :
    piecesFrom recognise before front.length (front ++ back) =
      piecesFrom recognise (front.getLast?.or before) 0 back := by
  induction front generalizing before with
  | nil => rfl
  | cons c front ih =>
      rw [List.length_cons, List.cons_append, piecesFrom, ih, List.getLast?_cons]
      cases front.getLast? <;> rfl

theorem piecesFrom_of_length_le {before : Option Char} {skip : Nat} {text : Text}
    (h : text.length ≤ skip) : piecesFrom recognise before skip text = [] := by
  induction text generalizing before skip with
  | nil => simp
  | cons c rest ih =>
      cases skip with
      | zero => simp at h
      | succ skip => exact ih (by simpa using h)

theorem piecesFrom_plain {before : Option Char} {c : Char} {rest : Text}
    (h : recognise before (c :: rest) = none) :
    piecesFrom recognise before 0 (c :: rest) =
      .plain c :: piecesFrom recognise (some c) 0 rest := by
  rw [piecesFrom, h]

theorem piecesFrom_item {before : Option Char} {c : Char} {rest : Text} {value : α} {length : Nat}
    (h : recognise before (c :: rest) = some (value, length)) :
    piecesFrom recognise before 0 (c :: rest) =
      .item value (c :: rest.take (length - 1)) ::
        piecesFrom recognise (some c) (length - 1) rest := by
  rw [piecesFrom, h]

/-- An item whose characters are known, and what follows it. -/
theorem piecesFrom_item_append {before : Option Char} {c : Char} {inside rest : Text} {value : α}
    (h : recognise before (c :: inside ++ rest) = some (value, inside.length + 1)) :
    piecesFrom recognise before 0 (c :: inside ++ rest) =
      .item value (c :: inside) ::
        piecesFrom recognise (inside.getLast?.or (some c)) 0 rest := by
  rw [List.cons_append] at h ⊢
  rw [piecesFrom_item h, Nat.add_sub_cancel, piecesFrom_append, List.take_left]

/-! ## Recognisers that do not look behind -/

/-- The character before makes no difference. -/
def IgnoresBefore (recognise : Recogniser α) : Prop :=
  ∀ before before' text, recognise before text = recognise before' text

/-- A recogniser that does not look at the character before finds the same behind any. -/
theorem piecesFrom_before (h : IgnoresBefore recognise) (before before' : Option Char) (skip : Nat)
    (text : Text) :
    piecesFrom recognise before skip text = piecesFrom recognise before' skip text := by
  cases text with
  | nil => simp
  | cons c rest =>
      cases skip with
      | succ skip => rfl
      | zero => rw [piecesFrom, piecesFrom, h before before']

/-- The same, when characters belong to an item before. -/
theorem piecesFrom_skip (h : IgnoresBefore recognise) (before : Option Char) (skip : Nat)
    (text : Text) : piecesFrom recognise before skip text = pieces recognise (text.drop skip) := by
  induction text generalizing before skip with
  | nil => simp [pieces]
  | cons c rest ih =>
      cases skip with
      | zero => exact piecesFrom_before h before none 0 (c :: rest)
      | succ skip => exact ih (some c) skip

theorem pieces_cons_plain (h : IgnoresBefore recognise) {c : Char} {rest : Text}
    (hnone : recognise none (c :: rest) = none) :
    pieces recognise (c :: rest) = .plain c :: pieces recognise rest := by
  rw [pieces, piecesFrom_plain hnone, piecesFrom_skip h, List.drop_zero]

theorem pieces_cons_item (h : IgnoresBefore recognise) {c : Char} {rest : Text} {value : α}
    {length : Nat} (hsome : recognise none (c :: rest) = some (value, length)) :
    pieces recognise (c :: rest) =
      .item value (c :: rest.take (length - 1)) :: pieces recognise (rest.drop (length - 1)) := by
  rw [pieces, piecesFrom_item hsome, piecesFrom_skip h]

/-- An item has the first characters of a text in which it is recognised. -/
theorem recognised_of_mem_piecesFrom {before : Option Char} {skip : Nat} {text written : Text}
    {value : α} (h : Piece.item value written ∈ piecesFrom recognise before skip text) :
    ∃ before' c rest length, recognise before' (c :: rest) = some (value, length) ∧
      written = c :: rest.take (length - 1) := by
  induction text generalizing before skip with
  | nil => simp at h
  | cons c rest ih =>
      cases skip with
      | succ skip => exact ih h
      | zero =>
          cases hrec : recognise before (c :: rest) with
          | none =>
              rw [piecesFrom_plain hrec, List.mem_cons] at h
              exact ih (h.resolve_left (by simp))
          | some result =>
              rw [piecesFrom_item hrec, List.mem_cons] at h
              rcases h with heq | h
              · cases heq
                exact ⟨before, c, rest, result.2, hrec, rfl⟩
              · exact ih h

/-- No item starts in a text that stands at the start of another one. -/
def StartsNone (recognise : Recogniser α) (front back : Text) : Prop :=
  ∀ before after, front = before ++ after → after ≠ [] → recognise none (after ++ back) = none

theorem startsNone_nil (back : Text) : StartsNone recognise [] back := by
  intro before after hsplit hne
  exact absurd (List.append_eq_nil_iff.mp hsplit.symm).2 hne

theorem startsNone_cons {c : Char} {front back : Text} :
    StartsNone recognise (c :: front) back ↔
      recognise none (c :: front ++ back) = none ∧ StartsNone recognise front back := by
  constructor
  · intro h
    refine ⟨h [] _ rfl (by simp), fun before after hsplit hne => ?_⟩
    exact h (c :: before) after (by rw [hsplit, List.cons_append]) hne
  · rintro ⟨hfirst, hrest⟩ before after hsplit hne
    cases before with
    | nil =>
        rw [List.nil_append] at hsplit
        rwa [← hsplit]
    | cons d before => exact hrest before after (List.cons.inj hsplit).2 hne

theorem startsNone_append {front middle back : Text} :
    StartsNone recognise (front ++ middle) back ↔
      StartsNone recognise front (middle ++ back) ∧ StartsNone recognise middle back := by
  induction front with
  | nil => simp [startsNone_nil]
  | cons c front ih =>
      rw [List.cons_append, startsNone_cons, startsNone_cons, ih, and_assoc, List.cons_append,
        List.append_assoc, List.cons_append]

/-- The front of a text gives its plain characters exactly when no item starts there. -/
theorem pieces_append_iff (h : IgnoresBefore recognise) {front back : Text}
    {tail : List (Piece α)} :
    pieces recognise (front ++ back) = front.map .plain ++ tail ↔
      StartsNone recognise front back ∧ pieces recognise back = tail := by
  induction front with
  | nil => simp [startsNone_nil]
  | cons c front ih =>
      rw [startsNone_cons, List.cons_append]
      cases hfirst : recognise none (c :: (front ++ back)) with
      | none => rw [pieces_cons_plain h hfirst]; simp [ih]
      | some result => rw [pieces_cons_item h hfirst]; simp

theorem pieces_eq_plain (h : IgnoresBefore recognise) {text : Text}
    (hnone : StartsNone recognise text []) : pieces recognise text = text.map .plain := by
  have hpieces := (pieces_append_iff h).mpr ⟨hnone, rfl⟩
  simpa [pieces] using hpieces

/-! ## Items and their offsets -/

/-- The character before a place of a text that follows a character. -/
def charBefore (before : Option Char) (front : Text) : Option Char :=
  front.getLast?.or before

@[simp] theorem charBefore_nil (before : Option Char) : charBefore before [] = before := rfl

@[simp] theorem charBefore_cons (before : Option Char) (c : Char) (front : Text) :
    charBefore before (c :: front) = charBefore (some c) front := by
  unfold charBefore
  rw [List.getLast?_cons]
  cases front.getLast? <;> rfl

theorem charBefore_append (before : Option Char) (front back : Text) :
    charBefore before (front ++ back) = charBefore (charBefore before front) back := by
  unfold charBefore
  rw [List.getLast?_append, Option.or_assoc]

/-- An item whose characters are known comes before the pieces of what follows it. -/
theorem piecesFrom_append_item {before : Option Char} {written rest : Text} {value : α}
    (hwritten : written ≠ [])
    (h : recognise before (written ++ rest) = some (value, written.length)) :
    piecesFrom recognise before 0 (written ++ rest) =
      .item value written :: piecesFrom recognise (charBefore before written) 0 rest := by
  obtain ⟨c, inside, rfl⟩ := List.exists_cons_of_ne_nil hwritten
  rw [piecesFrom_item_append h, charBefore_cons, charBefore]

/-- The same, whatever stands before. -/
theorem pieces_append_item (hignores : IgnoresBefore recognise) {written rest : Text} {value : α}
    (hwritten : written ≠ [])
    (h : recognise none (written ++ rest) = some (value, written.length)) :
    pieces recognise (written ++ rest) = .item value written :: pieces recognise rest := by
  rw [pieces, piecesFrom_append_item hwritten h, piecesFrom_before hignores _ none, pieces]

theorem exists_item_cons {value : α} {text : Text} {ps : List (Piece α)} {P : α → Prop} :
    (∃ value' text', Piece.item value' text' ∈ .item value text :: ps ∧ P value') ↔
      P value ∨ ∃ value' text', Piece.item value' text' ∈ ps ∧ P value' := by
  simp only [List.mem_cons, Piece.item.injEq]
  constructor
  · rintro ⟨other, written, ⟨rfl, -⟩ | hmem, hother⟩
    · exact .inl hother
    · exact .inr ⟨other, written, hmem, hother⟩
  · rintro (hvalue | ⟨other, written, hmem, hother⟩)
    · exact ⟨value, text, .inl ⟨rfl, rfl⟩, hvalue⟩
    · exact ⟨other, written, .inr hmem, hother⟩

/-- What is found are the items among the pieces. -/
theorem exists_mem_foundFrom {pos : Nat} {ps : List (Piece α)} {P : α → Prop} :
    (∃ found ∈ foundFrom pos ps, P found.value) ↔
      ∃ value text, Piece.item value text ∈ ps ∧ P value := by
  induction ps generalizing pos with
  | nil => simp [foundFrom]
  | cons piece ps ih =>
      cases piece with
      | plain c => simp [foundFrom, ih]
      | item value text =>
          rw [exists_item_cons, ← @ih (pos + text.length)]
          simp only [foundFrom, List.mem_cons, exists_eq_or_imp]

theorem mem_foundFrom_value {pos : Nat} {ps : List (Piece α)} {found : Found α}
    (h : found ∈ foundFrom pos ps) : ∃ text, Piece.item found.value text ∈ ps := by
  obtain ⟨value, text, hmem, hvalue⟩ :=
    (exists_mem_foundFrom (P := (· = found.value))).mp ⟨found, h, rfl⟩
  exact ⟨text, hvalue ▸ hmem⟩

private theorem recognised_of_mem_foundFrom {pos skip : Nat} {before : Option Char} {text : Text}
    {found : Found α} (h : found ∈ foundFrom pos (piecesFrom recognise before skip text)) :
    ∃ front back length, text = front ++ back ∧ back ≠ [] ∧
      found.start + skip = pos + front.length ∧
      recognise (charBefore before front) back = some (found.value, length) ∧
      found.stop = found.start + (min (length - 1) (back.length - 1) + 1) := by
  induction text generalizing pos skip before with
  | nil => simp [foundFrom] at h
  | cons c rest ih =>
      cases skip with
      | succ skip =>
          obtain ⟨front, back, length, rfl, hback, hstart, hrec, hstop⟩ := ih h
          refine ⟨c :: front, back, length, rfl, hback, ?_, by simpa using hrec, hstop⟩
          simp only [List.length_cons]
          omega
      | zero =>
          cases hrec : recognise before (c :: rest) with
          | none =>
              rw [piecesFrom_plain hrec, foundFrom] at h
              obtain ⟨front, back, length, rfl, hback, hstart, hrec', hstop⟩ := ih h
              refine ⟨c :: front, back, length, rfl, hback, ?_, by simpa using hrec', hstop⟩
              simp only [List.length_cons]
              omega
          | some result =>
              obtain ⟨value, length⟩ := result
              rw [piecesFrom_item hrec, foundFrom, List.mem_cons] at h
              rcases h with rfl | h
              · exact ⟨[], c :: rest, length, rfl, by simp, by simp, by simpa using hrec, by simp⟩
              · -- a later item starts behind this one, which has at least one character
                obtain ⟨front, back, length', rfl, hback, hstart, hrec', hstop⟩ := ih h
                refine ⟨c :: front, back, length', rfl, hback, ?_, by simpa using hrec', hstop⟩
                simp only [List.length_cons, List.length_take, List.length_append] at hstart ⊢
                have hpos : 0 < back.length := List.length_pos_iff.mpr hback
                by_cases hlong : length - 1 ≤ front.length + back.length
                · rw [Nat.min_eq_left hlong] at hstart
                  omega
                · exfalso
                  rw [piecesFrom_of_length_le (by simp only [List.length_append]; omega)] at h
                  simp [foundFrom] at h

/-- An item that is found is recognised at its offset. -/
theorem recognised_of_mem_findAll {text : Text} {found : Found α}
    (h : found ∈ findAll recognise text) :
    ∃ front back length, text = front ++ back ∧ back ≠ [] ∧ front.length = found.start ∧
      recognise (charBefore none front) back = some (found.value, length) := by
  obtain ⟨front, back, length, htext, hback, hstart, hrec, -⟩ := recognised_of_mem_foundFrom h
  exact ⟨front, back, length, htext, hback, by omega, hrec⟩

/-- An item that is found has as many characters as it is recognised with. -/
theorem written_of_mem_findAll {text : Text} {found : Found α}
    (h : found ∈ findAll recognise text) :
    ∃ front back length, text = front ++ back ∧ back ≠ [] ∧ front.length = found.start ∧
      recognise (charBefore none front) back = some (found.value, length) ∧
      (0 < length → length ≤ back.length → found.stop = found.start + length) := by
  obtain ⟨front, back, length, htext, hback, hstart, hrec, hstop⟩ := recognised_of_mem_foundFrom h
  refine ⟨front, back, length, htext, hback, by omega, hrec, fun hpos hlength => ?_⟩
  rw [hstop, Nat.min_eq_left (by omega)]
  omega

theorem start_lt_stop_of_mem_findAll {text : Text} {found : Found α}
    (h : found ∈ findAll recognise text) : found.start < found.stop := by
  obtain ⟨_, _, _, -, -, -, -, hstop⟩ := recognised_of_mem_foundFrom h
  omega

/-! ## Places that are recognised -/

private theorem exists_found_from (pos : Nat) {skip : Nat} {before : Option Char}
    {front back : Text} {value : α} {length : Nat} (hback : back ≠ []) (hskip : skip ≤ front.length)
    (hrec : recognise (charBefore before front) back = some (value, length)) :
    ∃ found ∈ foundFrom pos (piecesFrom recognise before skip (front ++ back)),
      found.start + skip = pos + front.length ∧ found.value = value ∨
        found.start + skip < pos + front.length ∧ pos + front.length < found.stop + skip := by
  induction front generalizing pos skip before with
  | nil =>
      obtain rfl : skip = 0 := by simpa using hskip
      obtain ⟨c, rest, rfl⟩ := List.exists_cons_of_ne_nil hback
      rw [charBefore_nil] at hrec
      rw [List.nil_append, piecesFrom_item hrec, foundFrom]
      exact ⟨_, List.mem_cons_self, .inl ⟨rfl, rfl⟩⟩
  | cons c front ih =>
      rw [charBefore_cons] at hrec
      rw [List.length_cons] at hskip ⊢
      cases skip with
      | succ skip =>
          obtain ⟨found, hfound, hplace⟩ := ih pos (Nat.le_of_succ_le_succ hskip) hrec
          exact ⟨found, hfound, hplace.imp (fun h => ⟨by omega, h.2⟩) fun h => by omega⟩
      | zero =>
          cases hfirst : recognise before (c :: (front ++ back)) with
          | none =>
              obtain ⟨found, hfound, hplace⟩ := ih (pos + 1) (Nat.zero_le _) hrec
              rw [List.cons_append, piecesFrom_plain hfirst, foundFrom]
              exact ⟨found, hfound, hplace.imp (fun h => ⟨by omega, h.2⟩) fun h => by omega⟩
          | some result =>
              obtain ⟨other, length'⟩ := result
              have hpos : 0 < back.length := List.length_pos_iff.mpr hback
              have hlength : (c :: (front ++ back).take (length' - 1)).length =
                  min (length' - 1) (front.length + back.length) + 1 := by
                simp only [List.length_cons, List.length_take, List.length_append]
              rw [List.cons_append, piecesFrom_item hfirst, foundFrom, hlength]
              by_cases hlong : length' - 1 ≤ front.length
              · rw [Nat.min_eq_left (by omega)]
                obtain ⟨found, hfound, hplace⟩ := ih (pos + (length' - 1 + 1)) hlong hrec
                exact ⟨found, List.mem_cons_of_mem _ hfound,
                  hplace.imp (fun h => ⟨by omega, h.2⟩) fun h => by omega⟩
              · -- the place is inside the item that starts here
                exact ⟨_, List.mem_cons_self, .inr ⟨by dsimp only; omega, by dsimp only; omega⟩⟩

/-- At a place that is recognised an item is found, or the place lies inside one that is found. -/
theorem exists_found_of_recognised {front back : Text} {value : α} {length : Nat}
    (hback : back ≠ [])
    (hrec : recognise (charBefore none front) back = some (value, length)) :
    ∃ found ∈ findAll recognise (front ++ back),
      found.start = front.length ∧ found.value = value ∨
        found.start < front.length ∧ front.length < found.stop := by
  obtain ⟨found, hfound, hplace⟩ := exists_found_from 0 hback (Nat.zero_le _) hrec
  exact ⟨found, hfound, hplace.imp (fun h => ⟨by omega, h.2⟩) fun h => by omega⟩

/-- What is recognised where an item starts, seen from a place inside the item. -/
theorem recognised_around {front back : Text} {found : Found α}
    (h : found ∈ findAll recognise (front ++ back)) (hstart : found.start < front.length)
    (hstop : front.length < found.stop) :
    ∃ before text length, recognise before text = some (found.value, length) ∧
      text.drop (front.length - found.start) = back ∧ front.length - found.start < length ∧
      found.stop = found.start + (min (length - 1) (text.length - 1) + 1) := by
  obtain ⟨before, text, length, htext, -, hplace, hrec, hend⟩ := recognised_of_mem_foundFrom h
  rw [Nat.add_zero, Nat.zero_add] at hplace
  refine ⟨_, text, length, hrec, ?_, by omega, hend⟩
  have hsplit := congrArg (List.drop front.length) htext
  rw [List.drop_left, List.drop_append, List.drop_eq_nil_of_le (by omega), List.nil_append,
    ← hplace] at hsplit
  exact hsplit.symm

/-! ## Items that cannot start inside others -/

/-- No item starts inside another one. -/
def Isolated (recognise : Recogniser α) : Prop :=
  ∀ before text value length, recognise before text = some (value, length) →
    ∀ i, 0 < i → i < length → ∀ before', recognise before' (text.drop i) = none

/-- Where no item starts inside another, every place that is recognised is found. -/
theorem mem_findAll_of_recognised (hisolated : Isolated recognise) {front back : Text} {value : α}
    {length : Nat} (hback : back ≠ [])
    (hrec : recognise (charBefore none front) back = some (value, length)) :
    ∃ found ∈ findAll recognise (front ++ back), found.value = value ∧
      found.start = front.length := by
  obtain ⟨found, hfound, ⟨hstart, hvalue⟩ | ⟨hstart, hstop⟩⟩ := exists_found_of_recognised hback hrec
  · exact ⟨found, hfound, hvalue, hstart⟩
  · exfalso
    obtain ⟨before, text, length', haround, hdrop, hinside, -⟩ :=
      recognised_around hfound hstart hstop
    have hnone := hisolated _ _ _ _ haround _ (by omega) hinside (charBefore none front)
    rw [hdrop, hrec] at hnone
    cases hnone

/-! ## Items that end together -/

/-- An item that starts inside another one is the same up to its start. -/
def EndTogether (recognise : Recogniser α) : Prop :=
  ∀ before text value length, recognise before text = some (value, length) →
    ∀ i, 0 < i → i < length → ∀ before' value' length',
      recognise before' (text.drop i) = some (value', length') →
        value' = value ∧ i + length' = length

/-- Where items that overlap end together, every place where one ends is found. -/
theorem exists_stop_of_recognised (hends : EndTogether recognise)
    (hfits : ∀ before text value length, recognise before text = some (value, length) →
      0 < length ∧ length ≤ text.length)
    {front back : Text} {value : α} {length : Nat}
    (hrec : recognise (charBefore none front) back = some (value, length)) :
    ∃ found ∈ findAll recognise (front ++ back), found.value = value ∧
      found.stop = front.length + length := by
  obtain ⟨hpos, hle⟩ := hfits _ _ _ _ hrec
  have hback : back ≠ [] := List.ne_nil_of_length_pos (Nat.lt_of_lt_of_le hpos hle)
  obtain ⟨found, hfound, ⟨hstart, hvalue⟩ | ⟨hstart, hstop⟩⟩ := exists_found_of_recognised hback hrec
  · obtain ⟨before, text, length', htext, -, hplace, hrec', hend⟩ := recognised_of_mem_foundFrom hfound
    rw [Nat.add_zero, Nat.zero_add, hstart] at hplace
    obtain ⟨rfl, rfl⟩ := List.append_inj htext hplace
    rw [hrec, Option.some.injEq, Prod.mk.injEq] at hrec'
    rw [← hrec'.2, Nat.min_eq_left (by omega)] at hend
    exact ⟨found, hfound, hvalue, by omega⟩
  · obtain ⟨before, text, length', haround, hdrop, hinside, hend⟩ :=
      recognised_around hfound hstart hstop
    have hfit := (hfits _ _ _ _ haround).2
    rw [← hdrop] at hrec
    obtain ⟨hvalue, hlength⟩ := hends _ _ _ _ haround _ (by omega) hinside _ _ _ hrec
    rw [Nat.min_eq_left (by omega)] at hend
    exact ⟨found, hfound, hvalue.symm, by omega⟩

end AddonBundle.Text
