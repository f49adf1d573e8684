import AddonBundle.Proofs.Span
import AddonBundle.Text.Lines
/-!
# Uniform line ends

Making line ends uniform takes a text apart nowhere but between a carriage return and the line feed
behind it. So every part of the uniform text comes from a part of the text. A search finds the same
in both when its items stay what they are, each read where it starts.
-/

namespace AddonBundle.Text

/-- A carriage return by itself counts as a line end. -/
def asLine (c : Char) : Char :=
  if c = '\r' then '\n' else c

theorem asLine_of_ne {c : Char} (h : c ≠ '\r') : asLine c = c :=
  if_neg h

theorem ne_return_of_isBlank {c : Char} (h : isBlank c = false) : c ≠ '\r' := by
  rintro rfl
  exact absurd h (by decide)

theorem asLine_eq_iff {c d : Char} (hreturn : d ≠ '\r') (hfeed : d ≠ '\n') :
    asLine c = d ↔ c = d := by
  unfold asLine
  split
  · rename_i heq
    subst heq
    exact ⟨fun h => absurd h.symm hfeed, fun h => absurd h.symm hreturn⟩
  · rfl

/-- A property that does not tell line ends apart. -/
theorem apply_asLine {p : Char → Bool} (hp : p '\r' = p '\n') (c : Char) : p (asLine c) = p c := by
  unfold asLine
  split
  · rename_i heq
    rw [heq, hp]
  · rfl

theorem any_asLine {p : Char → Bool} (hp : p '\r' = p '\n') (next : Option Char) :
    (next.map asLine).any p = next.any p := by
  cases next with
  | none => rfl
  | some c => exact apply_asLine hp c

/-! ## Characters -/

theorem uniformLines_crlf (rest : Text) :
    uniformLines ('\r' :: '\n' :: rest) = '\n' :: uniformLines rest := rfl

theorem uniformLines_cons {c : Char} {rest : Text} (h : c = '\r' → rest.head? ≠ some '\n') :
    uniformLines (c :: rest) = asLine c :: uniformLines rest := by
  rw [uniformLines.eq_def]
  split
  · contradiction
  · rename_i hsplit
    cases hsplit
    exact absurd rfl (h rfl)
  · rename_i hsplit
    cases hsplit
    rfl

theorem uniformLines_cons_of_ne {c : Char} (rest : Text) (h : c ≠ '\r') :
    uniformLines (c :: rest) = c :: uniformLines rest := by
  rw [uniformLines_cons fun heq => absurd heq h, asLine_of_ne h]

/-- The induction that takes the two characters of a line end together. -/
theorem lines_induction {P : Text → Prop} (nil : P [])
    (crlf : ∀ rest, P rest → P ('\r' :: '\n' :: rest))
    (cons : ∀ c rest, (c = '\r' → rest.head? ≠ some '\n') → P rest → P (c :: rest)) (text : Text) :
    P text := by
  induction text using behind_induction with
  | nil => exact nil
  | cons c rest ih =>
      by_cases hpair : c = '\r' ∧ rest.head? = some '\n'
      · obtain ⟨rfl, hhead⟩ := hpair
        obtain ⟨behind, rfl⟩ := List.head?_eq_some_iff.mp hhead
        exact crlf behind (ih ['\r', '\n'] behind (by simp) rfl)
      · exact cons c rest (fun hc hhead => hpair ⟨hc, hhead⟩) (ih [c] rest (by simp) rfl)

theorem head?_uniformLines (text : Text) : (uniformLines text).head? = text.head?.map asLine := by
  induction text using lines_induction with
  | nil => rfl
  | crlf rest _ => rfl
  | cons c rest h _ => rw [uniformLines_cons h]; rfl

theorem uniformLines_eq_nil {text : Text} : uniformLines text = [] ↔ text = [] := by
  rw [← List.head?_eq_none_iff, head?_uniformLines, Option.map_eq_none_iff, List.head?_eq_none_iff]

theorem getLast?_uniformLines (text : Text) :
    (uniformLines text).getLast? = text.getLast?.map asLine := by
  induction text using lines_induction with
  | nil => rfl
  | crlf rest ih =>
      rw [uniformLines_crlf, List.getLast?_cons, ih, List.getLast?_cons, List.getLast?_cons]
      cases rest.getLast? <;> rfl
  | cons c rest h ih =>
      rw [uniformLines_cons h, List.getLast?_cons, ih, List.getLast?_cons]
      cases rest.getLast? <;> rfl

theorem all_uniformLines {p : Char → Bool} (hp : p '\r' = p '\n') {text : Text} :
    (∀ c ∈ uniformLines text, p c = true) ↔ ∀ c ∈ text, p c = true := by
  induction text using lines_induction with
  | nil => rfl
  | crlf rest ih => simp [uniformLines_crlf, ih, hp]
  | cons c rest h ih =>
      simp [uniformLines_cons h, ih, apply_asLine hp]

theorem isBlankText_uniformLines {text : Text} :
    IsBlankText (uniformLines text) ↔ IsBlankText text :=
  all_uniformLines (by decide)

/-- Text without carriage returns stays. -/
theorem uniformLines_eq_self {text : Text} (h : '\r' ∉ text) : uniformLines text = text := by
  induction text with
  | nil => rfl
  | cons c rest ih =>
      rw [List.mem_cons, not_or] at h
      rw [uniformLines_cons_of_ne rest (Ne.symm h.1), ih h.2]

/-- Text without line ends comes from itself only. -/
theorem eq_of_uniformLines_eq {text other : Text} (h : uniformLines text = other)
    (hline : '\n' ∉ other) : text = other := by
  induction text using lines_induction generalizing other with
  | nil => exact h
  | crlf rest _ =>
      rw [← h, uniformLines_crlf] at hline
      exact absurd List.mem_cons_self hline
  | cons c rest hc ih =>
      rw [uniformLines_cons hc] at h
      subst h
      rw [List.mem_cons, not_or] at hline
      have hother : c ≠ '\r' := by
        rintro rfl
        exact hline.1 rfl
      rw [asLine_of_ne hother, ← ih rfl hline.2]

/-! ## Parts -/

/-- Parts stay parts, unless they part a line end. -/
theorem uniformLines_append {front back : Text}
    (h : front.getLast? = some '\r' → back.head? ≠ some '\n') :
    uniformLines (front ++ back) = uniformLines front ++ uniformLines back := by
  induction front using lines_induction with
  | nil => rfl
  | crlf rest ih =>
      have hrest : rest.getLast? = some '\r' → back.head? ≠ some '\n' := by
        intro hlast
        refine h ?_
        rw [List.getLast?_cons, List.getLast?_cons, hlast]
        rfl
      rw [List.cons_append, List.cons_append, uniformLines_crlf, uniformLines_crlf, ih hrest]
      rfl
  | cons c rest hc ih =>
      have hrest : rest.getLast? = some '\r' → back.head? ≠ some '\n' := by
        intro hlast
        refine h ?_
        rw [List.getLast?_cons, hlast]
        rfl
      have hnext : c = '\r' → (rest ++ back).head? ≠ some '\n' := by
        rintro rfl
        cases rest with
        | nil => exact h rfl
        | cons d rest => exact hc rfl
      rw [List.cons_append, uniformLines_cons hnext, uniformLines_cons hc, ih hrest]
      rfl

/-- Every part of the uniform text comes from a part of the text. -/
theorem exists_of_uniformLines_append {text front back : Text}
    (h : uniformLines text = front ++ back) :
    ∃ front' back', text = front' ++ back' ∧ uniformLines front' = front ∧
      uniformLines back' = back := by
  induction text using lines_induction generalizing front with
  | nil =>
      obtain ⟨rfl, rfl⟩ := List.append_eq_nil_iff.mp h.symm
      exact ⟨[], [], rfl, rfl, rfl⟩
  | crlf rest ih =>
      cases front with
      | nil => exact ⟨[], _, rfl, rfl, h⟩
      | cons d front =>
          rw [uniformLines_crlf, List.cons_append, List.cons.injEq] at h
          obtain ⟨front', back', rfl, rfl, hback⟩ := ih h.2
          exact ⟨'\r' :: '\n' :: front', back', rfl, by rw [uniformLines_crlf, h.1], hback⟩
  | cons c rest hc ih =>
      cases front with
      | nil => exact ⟨[], _, rfl, rfl, h⟩
      | cons d front =>
          rw [uniformLines_cons hc, List.cons_append, List.cons.injEq] at h
          obtain ⟨front', back', rfl, rfl, hback⟩ := ih h.2
          have hnext : c = '\r' → front'.head? ≠ some '\n' := by
            intro heq hhead
            obtain ⟨more, rfl⟩ := List.head?_eq_some_iff.mp hhead
            exact hc heq rfl
          exact ⟨c :: front', back', rfl, by rw [uniformLines_cons hnext, h.1], hback⟩

theorem uniformLines_append_plain {front : Text} (back : Text) (h : '\r' ∉ front) :
    uniformLines (front ++ back) = front ++ uniformLines back := by
  rw [uniformLines_append fun hlast => absurd (List.mem_of_getLast? hlast) h,
    uniformLines_eq_self h]

theorem exists_of_uniformLines_append_plain {text front back : Text} (hline : '\n' ∉ front)
    (h : uniformLines text = front ++ back) :
    ∃ back', text = front ++ back' ∧ uniformLines back' = back := by
  obtain ⟨front', back', rfl, hfront, hback⟩ := exists_of_uniformLines_append h
  obtain rfl := eq_of_uniformLines_eq hfront hline
  exact ⟨back', rfl, hback⟩

theorem trimEnd_uniformLines (text : Text) :
    trimEnd (uniformLines text) = uniformLines (trimEnd text) := by
  obtain ⟨blanks, hblanks, htext⟩ := exists_trimEnd text
  have hlast := getLast?_trimEnd text
  generalize trimEnd text = front at htext hlast ⊢
  have hreturn : front.getLast? ≠ some '\r' := fun hend => absurd (hlast _ hend) (by decide)
  rw [htext, uniformLines_append fun hend => absurd hend hreturn]
  rw [trimEnd_append_blank (isBlankText_uniformLines.mpr hblanks)]
  refine trimEnd_eq_self fun c hc => ?_
  rw [getLast?_uniformLines] at hc
  obtain ⟨d, hd, rfl⟩ := Option.map_eq_some_iff.mp hc
  rw [asLine_of_ne fun heq => hreturn (heq ▸ hd)]
  exact hlast d hd

/-- A part that has no line end is found behind the same start. -/
theorem after?_uniformLines {part : Text} (text : Text) (hreturn : '\r' ∉ part)
    (hfeed : '\n' ∉ part) :
    after? part (uniformLines text) = (after? part text).map uniformLines := by
  cases hafter : after? part text with
  | some rest =>
      obtain rfl := after?_eq_some.mp hafter
      rw [uniformLines_append_plain rest hreturn, after?_append, Option.map_some]
  | none =>
      rw [Option.map_none, Option.eq_none_iff_forall_ne_some]
      intro rest hrest
      obtain ⟨back, rfl, -⟩ :=
        exists_of_uniformLines_append_plain hfeed (after?_eq_some.mp hrest)
      rw [after?_append] at hafter
      cases hafter

/-- What is taken up to the first line end at most is the same. -/
theorem takeWhile_uniformLines {p : Char → Bool} (hreturn : p '\r' = false) (hfeed : p '\n' = false)
    (text : Text) :
    (uniformLines text).takeWhile p = text.takeWhile p ∧
      (uniformLines text).dropWhile p = uniformLines (text.dropWhile p) := by
  induction text using lines_induction with
  | nil => exact ⟨rfl, rfl⟩
  | crlf rest _ => simp [uniformLines_crlf, hreturn, hfeed]
  | cons c rest h ih =>
      rw [uniformLines_cons h]
      by_cases hc : p c = true
      · have hne : c ≠ '\r' := by
          rintro rfl
          rw [hreturn] at hc
          cases hc
        rw [asLine_of_ne hne]
        simp [hc, ih]
      · have hline : p (asLine c) = false := by
          unfold asLine
          split
          · exact hfeed
          · simpa using hc
        simp [hc, hline, uniformLines_cons h]

/-! ## Searches -/

variable {α : Type}

/-- A search of the uniform text finds something exactly where one of the text does, and what it
finds ends at the same place if it is the same. -/
structure Follows (uniform raw : Recogniser α) (f : α → α) : Prop where
  none : ∀ {before : Option Char} {text : Text}, raw before text = none →
    uniform (before.map asLine) (uniformLines text) = none
  some : ∀ {before : Option Char} {text : Text} {value : α} {length : Nat},
    raw before text = some (value, length) →
    ∃ front back, text = front ++ back ∧ length = front.length ∧
      (∃ c ∈ front.head?, isBlank c = false) ∧ front.getLast? ≠ some '\r' ∧
      ∃ value' length', uniform (before.map asLine) (uniformLines text) = some (value', length') ∧
        (value' = f value → length' = (uniformLines front).length)

/-- What is found in a text is read as such in the uniform text. -/
def Alike (uniform : Recogniser α) (f : α → α) (text : Text) (found : Found α) : Prop :=
  ∃ length, uniform ((charBefore none (text.take found.start)).map asLine)
    (uniformLines (text.drop found.start)) = some (f found.value, length)

theorem charBefore_uniformLines (before : Option Char) (front : Text) :
    (charBefore before front).map asLine = charBefore (before.map asLine) (uniformLines front) := by
  unfold charBefore
  rw [getLast?_uniformLines]
  cases front.getLast? <;> rfl

theorem Follows.none_of_isBlank {uniform raw : Recogniser α} {f : α → α}
    (h : Follows uniform raw f) (before : Option Char) {c : Char} (rest : Text)
    (hc : isBlank c = true) : raw before (c :: rest) = .none := by
  rw [Option.eq_none_iff_forall_ne_some]
  rintro ⟨value, length⟩ hraw
  obtain ⟨front, back, htext, -, ⟨d, hd, hblank⟩, -⟩ := h.some hraw
  obtain ⟨more, rfl⟩ := List.head?_eq_some_iff.mp hd
  obtain rfl : c = d := (List.cons.inj htext).1
  rw [hc] at hblank
  cases hblank

/-- From a place on, the same is found exactly when all that is found there is read alike. -/
private def Agrees (uniform raw : Recogniser α) (f : α → α) (text before rest : Text)
    (pos : Nat) : Prop :=
  (foundFrom pos (piecesFrom uniform ((charBefore none before).map asLine) 0
      (uniformLines rest))).map (·.value) =
    (foundFrom before.length (piecesFrom raw (charBefore none before) 0 rest)).map
      (fun found => f found.value) ↔
  ∀ found ∈ foundFrom before.length (piecesFrom raw (charBefore none before) 0 rest),
    Alike uniform f text found

section Steps

variable {uniform raw : Recogniser α} {f : α → α} (h : Follows uniform raw f)
  {text before rest : Text} {pos : Nat}

include h

private theorem Agrees.plain {c : Char} (hraw : raw (charBefore none before) (c :: rest) = .none)
    (hpair : c = '\r' → rest.head? ≠ some '\n')
    (hrest : Agrees uniform raw f text (before ++ [c]) rest (pos + 1)) :
    Agrees uniform raw f text before (c :: rest) pos := by
  have huniform := h.none hraw
  rw [uniformLines_cons hpair] at huniform
  rw [Agrees, charBefore_append, charBefore_cons, charBefore_nil, List.length_append,
    List.length_singleton] at hrest
  rw [Agrees, uniformLines_cons hpair, piecesFrom_plain hraw, piecesFrom_plain huniform, foundFrom,
    foundFrom]
  exact hrest

private theorem Agrees.crlf
    (hraw : raw (charBefore none before) ('\r' :: '\n' :: rest) = .none)
    (hrest : Agrees uniform raw f text (before ++ ['\r', '\n']) rest (pos + 1)) :
    Agrees uniform raw f text before ('\r' :: '\n' :: rest) pos := by
  have huniform := h.none hraw
  rw [uniformLines_crlf] at huniform
  rw [Agrees, charBefore_append, charBefore_cons, charBefore_cons, charBefore_nil,
    List.length_append] at hrest
  rw [Agrees, uniformLines_crlf, piecesFrom_plain hraw, piecesFrom_plain huniform, foundFrom,
    foundFrom, piecesFrom_plain (h.none_of_isBlank _ rest (by decide)), foundFrom]
  exact hrest

private theorem Agrees.item {front back : Text} {value : α} (hne : front ≠ [])
    (htext : text = before ++ (front ++ back))
    (hraw : raw (charBefore none before) (front ++ back) = .some (value, front.length))
    (hrest : ∀ pos, Agrees uniform raw f text (before ++ front) back pos) :
    Agrees uniform raw f text before (front ++ back) pos := by
  obtain ⟨front', back', hsplit, hlength, -, hlast, value', length', huniform, hend⟩ := h.some hraw
  obtain ⟨rfl, rfl⟩ := List.append_inj hsplit hlength
  have hlines : uniformLines front ≠ [] := mt uniformLines_eq_nil.mp hne
  have hparts : uniformLines (front ++ back) = uniformLines front ++ uniformLines back :=
    uniformLines_append fun hreturn => absurd hreturn hlast
  have halike : Alike uniform f text ⟨value, before.length, before.length + front.length⟩ ↔
      value' = f value := by
    rw [Alike, htext, List.take_left, List.drop_left, huniform]
    simp
  rw [Agrees, piecesFrom_append_item hne hraw, foundFrom, List.map_cons, List.forall_mem_cons,
    halike]
  by_cases hvalue : value' = f value
  · rw [hvalue, hend hvalue, hparts] at huniform
    have hrest := hrest (pos + (uniformLines front).length)
    rw [Agrees, charBefore_append, charBefore_uniformLines, List.length_append] at hrest
    rw [hparts, piecesFrom_append_item hlines huniform, foundFrom, List.map_cons,
      List.cons.injEq, hrest]
    simp [hvalue]
  · -- what is read first in the uniform text differs already
    obtain ⟨e, more, hmore⟩ := List.exists_cons_of_ne_nil
      (hparts ▸ List.append_ne_nil_of_left_ne_nil hlines (uniformLines back))
    rw [hmore] at huniform ⊢
    rw [piecesFrom_item huniform, foundFrom, List.map_cons, List.cons.injEq]
    simp [hvalue]

private theorem values_foundFrom_iff (htext : text = before ++ rest) (pos : Nat) :
    Agrees uniform raw f text before rest pos := by
  -- items and line ends are passed in one step
  induction rest using behind_induction generalizing before pos with
  | nil => simp [Agrees, foundFrom, uniformLines]
  | cons c rest ih =>
      have hbehind : ∀ {front back : Text}, front ≠ [] → c :: rest = front ++ back → ∀ pos,
          Agrees uniform raw f text (before ++ front) back pos := by
        intro front back hne hsplit
        exact ih front back hne hsplit (by rw [htext, hsplit, List.append_assoc])
      cases hraw : raw (charBefore none before) (c :: rest) with
      | none =>
          by_cases hpair : c = '\r' → rest.head? ≠ some '\n'
          · exact .plain h hraw hpair (hbehind (List.cons_ne_nil c []) rfl _)
          · obtain ⟨rfl, hhead⟩ := Classical.not_imp.mp hpair
            obtain ⟨rest, rfl⟩ := List.head?_eq_some_iff.mp (not_not.mp hhead)
            exact .crlf h hraw (hbehind (List.cons_ne_nil '\r' ['\n']) rfl _)
      | some result =>
          obtain ⟨value, written⟩ := result
          obtain ⟨front, back, hsplit, rfl, ⟨d, hd, -⟩, -⟩ := h.some hraw
          have hne : front ≠ [] := by
            rintro rfl
            cases hd
          have hrest := hbehind hne hsplit
          rw [hsplit] at hraw htext ⊢
          exact .item h hne htext hraw hrest

end Steps

/-- The same is found in the uniform text exactly when everything is read alike. -/
theorem values_findAll_iff {uniform raw : Recogniser α} {f : α → α} (h : Follows uniform raw f)
    (text : Text) :
    (findAll uniform (uniformLines text)).map (·.value) =
      (findAll raw text).map (fun found => f found.value) ↔
    ∀ found ∈ findAll raw text, Alike uniform f text found :=
  values_foundFrom_iff h (List.nil_append text).symm 0

/-- The same is found when what is recognised always stays. -/
theorem values_findAll {uniform raw : Recogniser α} {f : α → α} (h : Follows uniform raw f)
    (hsame : ∀ before text value length, raw before text = some (value, length) →
      ∃ length', uniform (before.map asLine) (uniformLines text) = some (f value, length'))
    (text : Text) :
    (findAll uniform (uniformLines text)).map (·.value) =
      (findAll raw text).map fun found => f found.value := by
  refine (values_findAll_iff h text).mpr fun found hfound => ?_
  obtain ⟨front, back, length, rfl, -, hstart, hrec⟩ := recognised_of_mem_findAll hfound
  rw [Alike, ← hstart, List.take_left, List.drop_left]
  exact hsame _ _ _ _ hrec

end AddonBundle.Text
