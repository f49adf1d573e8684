import AddonBundle.Text.Basic
import AddonBundle.Text.Word
import Mathlib.Data.List.Basic
import Mathlib.Data.List.Induction
import Mathlib.Data.List.TakeWhile
/-!
# Texts

The text functions in terms of the list operations that proofs reason with: a start that is taken
off is a prefix, an occurrence is an infix, and splitting undoes joining.
-/

namespace AddonBundle.Text

/-! ## Induction -/

/-- The induction in which the first characters, at least one, are passed in one step. -/
theorem behind_induction {P : Text → Prop} (nil : P [])
    (cons : ∀ c rest,
      (∀ front behind, front ≠ [] → c :: rest = front ++ behind → P behind) → P (c :: rest))
    (text : Text) : P text := by
  induction hlength : text.length using Nat.strongRecOn generalizing text with
  | ind length ih =>
      cases text with
      | nil => exact nil
      | cons c rest =>
          refine cons c rest fun front behind hne hsplit => ih behind.length ?_ behind rfl
          rw [← hlength, hsplit, List.length_append]
          exact Nat.lt_add_of_pos_left (List.length_pos_iff.mpr hne)

theorem cons_eq_take_append_drop (c : Char) (rest : Text) (n : Nat) :
    c :: rest = (c :: rest.take n) ++ rest.drop n := by
  rw [List.cons_append, List.take_append_drop]

/-! ## Starts, occurrences and stops -/

theorem after?_eq_some {part text rest : Text} :
    after? part text = some rest ↔ text = part ++ rest := by
  induction part generalizing text with
  | nil => simp [after?, eq_comm]
  | cons p part ih =>
      cases text with
      | nil => simp [after?]
      | cons c text =>
          by_cases h : p = c
          · simp [after?, h, ih]
          · simp [after?, h, Ne.symm h]

@[simp] theorem after?_append (part rest : Text) : after? part (part ++ rest) = some rest :=
  after?_eq_some.mpr rfl

theorem occursIn_iff (part text : Text) : occursIn part text = true ↔ part <:+: text := by
  induction text with
  | nil => simp [occursIn, List.infix_nil]
  | cons c rest ih => simp [occursIn, ih, List.infix_cons_iff]

theorem takeWhile_append_head {keep : Char → Bool} {front back : Text}
    (hfront : ∀ c ∈ front, keep c = true) (hback : ∀ c ∈ back.head?, keep c = false) :
    (front ++ back).takeWhile keep = front := by
  rw [List.takeWhile_append_of_pos hfront]
  cases back with
  | nil => simp
  | cons c back => simp [hback c rfl]

theorem takeWhile_append_stop {keep : Char → Bool} {front : Text} {c : Char} (rest : Text)
    (hfront : ∀ d ∈ front, keep d = true) (hc : keep c = false) :
    (front ++ c :: rest).takeWhile keep = front :=
  takeWhile_append_head hfront (by simpa using hc)

theorem dropWhile_append_stop {keep : Char → Bool} {front : Text} {c : Char} (rest : Text)
    (hfront : ∀ d ∈ front, keep d = true) (hc : keep c = false) :
    (front ++ c :: rest).dropWhile keep = c :: rest := by
  rw [List.dropWhile_append_of_pos hfront]
  simp [hc]

theorem drop_length_takeWhile (keep : Char → Bool) (text : Text) :
    text.drop (text.takeWhile keep).length = text.dropWhile keep := by
  have hsplit : (text.takeWhile keep ++ text.dropWhile keep).drop (text.takeWhile keep).length =
      text.dropWhile keep := List.drop_left
  rwa [List.takeWhile_append_dropWhile] at hsplit

/-- A text is what it starts with of a kind, and what follows. -/
theorem exists_takeWhile (keep : Char → Bool) (text : Text) :
    ∃ front back, text = front ++ back ∧ text.takeWhile keep = front ∧
      text.dropWhile keep = back ∧ (∀ c ∈ front, keep c = true) ∧
      ∀ c ∈ back.head?, keep c = false := by
  refine ⟨_, _, List.takeWhile_append_dropWhile.symm, rfl, rfl,
    List.all_eq_true.mp List.all_takeWhile, fun c hc => ?_⟩
  have hnot := List.head?_dropWhile_not keep text
  rwa [Option.mem_def.mp hc] at hnot

/-! ## Splitting and joining -/

theorem split_cons_self (sep : Char) (rest : Text) :
    split sep (sep :: rest) = [] :: split sep rest :=
  if_pos rfl

theorem split_ne_nil (sep : Char) (text : Text) : split sep text ≠ [] := by
  cases text with
  | nil => exact List.cons_ne_nil _ _
  | cons c rest =>
      rw [split]
      split
      · simp
      · split <;> simp

/-- A character that is no separator is put in front of the first part. -/
theorem exists_split_cons {sep c : Char} (rest : Text) (h : c ≠ sep) :
    ∃ part parts, split sep rest = part :: parts ∧
      split sep (c :: rest) = (c :: part) :: parts := by
  obtain ⟨part, parts, hrest⟩ := List.exists_cons_of_ne_nil (split_ne_nil sep rest)
  exact ⟨part, parts, hrest, by rw [split, if_neg h, hrest]⟩

/-- The parts hold no separator. -/
theorem not_mem_of_mem_split {sep : Char} {text part : Text} (h : part ∈ split sep text) :
    sep ∉ part := by
  induction text generalizing part with
  | nil =>
      rw [List.mem_singleton.mp h]
      exact List.not_mem_nil
  | cons c rest ih =>
      by_cases hc : c = sep
      · rw [hc, split_cons_self] at h
        rcases List.mem_cons.mp h with rfl | h
        · exact List.not_mem_nil
        · exact ih h
      · obtain ⟨first, parts, hrest, hsplit⟩ := exists_split_cons rest hc
        rw [hsplit] at h
        rw [hrest] at ih
        rcases List.mem_cons.mp h with rfl | h
        · have hfirst : sep ∉ first := ih List.mem_cons_self
          simp [hfirst, Ne.symm hc]
        · exact ih (List.mem_cons_of_mem _ h)

/-- Characters of a part are characters of the text. -/
theorem mem_of_mem_split {sep c : Char} {text part : Text} (h : part ∈ split sep text)
    (hc : c ∈ part) : c ∈ text := by
  induction text generalizing part with
  | nil =>
      rw [List.mem_singleton.mp h] at hc
      exact hc
  | cons d rest ih =>
      by_cases hd : d = sep
      · rw [hd, split_cons_self] at h
        rcases List.mem_cons.mp h with rfl | h
        · exact absurd hc List.not_mem_nil
        · exact List.mem_cons_of_mem _ (ih h hc)
      · obtain ⟨first, parts, hrest, hsplit⟩ := exists_split_cons rest hd
        rw [hsplit] at h
        rw [hrest] at ih
        rcases List.mem_cons.mp h with rfl | h
        · rcases List.mem_cons.mp hc with rfl | hc
          · exact List.mem_cons_self
          · exact List.mem_cons_of_mem _ (ih List.mem_cons_self hc)
        · exact List.mem_cons_of_mem _ (ih (List.mem_cons_of_mem _ h) hc)

theorem split_append (sep : Char) (front back : Text) :
    split sep (front ++ sep :: back) = split sep front ++ split sep back := by
  induction front with
  | nil => exact split_cons_self sep back
  | cons c front ih =>
      rw [List.cons_append]
      by_cases hc : c = sep
      · rw [hc, split_cons_self, split_cons_self, ih, List.cons_append]
      · obtain ⟨first, parts, hfront, hsplit⟩ := exists_split_cons front hc
        obtain ⟨first', parts', hwhole, hsplit'⟩ := exists_split_cons (front ++ sep :: back) hc
        rw [ih, hfront, List.cons_append] at hwhole
        obtain ⟨rfl, rfl⟩ := List.cons.inj hwhole
        rw [hsplit, hsplit', List.cons_append]

theorem split_of_not_mem {sep : Char} {text : Text} (h : sep ∉ text) :
    split sep text = [text] := by
  induction text with
  | nil => rfl
  | cons c rest ih =>
      rw [List.mem_cons, not_or] at h
      obtain ⟨part, parts, hrest, hsplit⟩ := exists_split_cons rest (Ne.symm h.1)
      rw [ih h.2] at hrest
      obtain ⟨rfl, rfl⟩ := List.cons.inj hrest
      exact hsplit

theorem split_append_cons {sep : Char} {part : Text} (rest : Text) (h : sep ∉ part) :
    split sep (part ++ sep :: rest) = part :: split sep rest := by
  rw [split_append, split_of_not_mem h, List.singleton_append]

theorem head?_split (sep : Char) (text : Text) :
    (split sep text).head? = some (text.takeWhile (· ≠ sep)) := by
  induction text with
  | nil => rfl
  | cons c rest ih =>
      by_cases hc : c = sep
      · rw [hc, split_cons_self]
        simp
      · obtain ⟨part, parts, hrest, hsplit⟩ := exists_split_cons rest hc
        rw [hrest] at ih
        obtain rfl : part = rest.takeWhile (· ≠ sep) := by simpa using ih
        simp [hsplit, hc]

@[simp] theorem join_nil (sep : Text) : join sep [] = [] := rfl

@[simp] theorem join_singleton (sep part : Text) : join sep [part] = part := rfl

theorem join_cons_cons (sep part next : Text) (parts : List Text) :
    join sep (part :: next :: parts) = part ++ sep ++ join sep (next :: parts) := rfl

theorem join_cons {sep part : Text} {parts : List Text} (h : parts ≠ []) :
    join sep (part :: parts) = part ++ sep ++ join sep parts := by
  cases parts with
  | nil => exact absurd rfl h
  | cons next parts => rfl

theorem join_append {sep : Text} {front back : List Text} (hf : front ≠ []) (hb : back ≠ []) :
    join sep (front ++ back) = join sep front ++ sep ++ join sep back := by
  induction front with
  | nil => exact absurd rfl hf
  | cons part front ih =>
      cases front with
      | nil => simp [join_cons hb]
      | cons next front =>
          have hrest := ih (by simp)
          rw [List.cons_append] at hrest
          rw [List.cons_append, List.cons_append, join_cons_cons, hrest, join_cons_cons]
          simp [List.append_assoc]

theorem split_join {sep : Char} {parts : List Text} (hne : parts ≠ [])
    (h : ∀ part ∈ parts, sep ∉ part) : split sep (join [sep] parts) = parts := by
  induction parts with
  | nil => exact absurd rfl hne
  | cons part parts ih =>
      cases parts with
      | nil => exact split_of_not_mem (h part (by simp))
      | cons next parts =>
          have hpart : sep ∉ part := h part (by simp)
          rw [join_cons_cons, List.append_assoc, List.singleton_append,
            split_append_cons _ hpart, ih (by simp) (fun p hp => h p (by simp [hp]))]

theorem join_split (sep : Char) (text : Text) : join [sep] (split sep text) = text := by
  induction text with
  | nil => rfl
  | cons c rest ih =>
      by_cases hc : c = sep
      · rw [hc, split_cons_self, join_cons (split_ne_nil sep rest), ih]
        rfl
      · obtain ⟨part, parts, hrest, hsplit⟩ := exists_split_cons rest hc
        rw [hrest] at ih
        rw [hsplit]
        cases parts with
        | nil => simpa using ih
        | cons next parts =>
            rw [join_cons_cons] at ih ⊢
            simp [← ih]

/-! ## Trimming -/

/-- All characters are white space. -/
def IsBlankText (text : Text) : Prop :=
  ∀ c ∈ text, isBlank c = true

theorem isBlankText_nil : IsBlankText [] := fun _ h => absurd h (by simp)

theorem IsBlankText.append {front back : Text} (hfront : IsBlankText front)
    (hback : IsBlankText back) : IsBlankText (front ++ back) :=
  List.forall_mem_append.mpr ⟨hfront, hback⟩

theorem dropWhile_isBlank {front : Text} (h : IsBlankText front) (text : Text) :
    (front ++ text).dropWhile isBlank = text.dropWhile isBlank :=
  List.dropWhile_append_of_pos h

/-- White space is not part of names. -/
theorem isName_of_isBlank {c : Char} (h : isBlank c = true) : isName c = false := by
  have hlow : ∀ n ∈ [9, 10, 11, 12, 13, 28, 29, 30, 31, 32], isName (Char.ofNat n) = false := by
    decide
  have hranges : ∀ r ∈ wordRanges, 0xa0 < r.1 ∧ (r.2 < 0x1680 ∨ 0x1680 < r.1) ∧
      (r.2 < 0x2000 ∨ 0x205f < r.1) ∧ (r.2 < 0x3000 ∨ 0x3000 < r.1) := by
    decide +kernel
  simp only [isBlank, Bool.or_eq_true, Bool.and_eq_true, decide_eq_true_eq, beq_iff_eq] at h
  by_cases hsmall : c.toNat < 128
  · rw [← Char.ofNat_toNat c]
    refine hlow _ ?_
    simp only [List.mem_cons, List.not_mem_nil, or_false]
    omega
  · have hword : isWord c = false := by
      rw [isWord, if_neg hsmall, List.any_eq_false]
      intro r hr
      have hapart := hranges r hr
      simp only [Bool.and_eq_true, decide_eq_true_eq]
      omega
    rw [isName, hword, Bool.false_or, beq_eq_false_iff_ne]
    rintro rfl
    exact hsmall (by decide)

theorem trim_blank_append {front : Text} (h : IsBlankText front) (text : Text) :
    trim (front ++ text) = trim text := by
  rw [trim, trim, dropWhile_isBlank h]

theorem IsBlankText.trim_eq_nil {text : Text} (h : IsBlankText text) : trim text = [] := by
  have hempty := trim_blank_append h []
  rwa [List.append_nil] at hempty

theorem trimEnd_append_blank {back : Text} (h : IsBlankText back) (text : Text) :
    trimEnd (text ++ back) = trimEnd text := by
  have hreverse : IsBlankText back.reverse := fun c hc => h c (List.mem_reverse.mp hc)
  rw [trimEnd, trimEnd, List.reverse_append, dropWhile_isBlank hreverse]

theorem trim_append_blank {back : Text} (h : IsBlankText back) (text : Text) :
    trim (text ++ back) = trim text := by
  rw [trim, trim, List.dropWhile_append]
  split
  · rename_i hempty
    rw [List.isEmpty_iff.mp hempty, ← List.append_nil back, dropWhile_isBlank h]
    rfl
  · exact trimEnd_append_blank h _

theorem exists_trimEnd (text : Text) :
    ∃ back, IsBlankText back ∧ text = trimEnd text ++ back := by
  refine ⟨(text.reverse.takeWhile isBlank).reverse, fun c hc =>
    List.all_eq_true.mp List.all_takeWhile c (List.mem_reverse.mp hc), ?_⟩
  rw [trimEnd, ← List.reverse_append, List.takeWhile_append_dropWhile, List.reverse_reverse]

/-- White space at the end may be taken off before something is put in front. -/
theorem trimEnd_append_trimEnd (front back : Text) :
    trimEnd (front ++ trimEnd back) = trimEnd (front ++ back) := by
  obtain ⟨blanks, hblanks, hback⟩ := exists_trimEnd back
  calc trimEnd (front ++ trimEnd back)
      = trimEnd (front ++ trimEnd back ++ blanks) := (trimEnd_append_blank hblanks _).symm
    _ = trimEnd (front ++ back) := by rw [List.append_assoc, ← hback]

theorem exists_trim (text : Text) :
    ∃ front back, IsBlankText front ∧ IsBlankText back ∧ text = front ++ trim text ++ back := by
  obtain ⟨back, hback, htext⟩ := exists_trimEnd (text.dropWhile isBlank)
  refine ⟨text.takeWhile isBlank, back, List.all_eq_true.mp List.all_takeWhile, hback, ?_⟩
  rw [List.append_assoc, trim, ← htext, List.takeWhile_append_dropWhile]

theorem head?_dropWhile_isBlank (text : Text) :
    ∀ c ∈ (text.dropWhile isBlank).head?, isBlank c = false := by
  intro c hc
  have hnot := List.head?_dropWhile_not isBlank text
  rwa [Option.mem_def.mp hc] at hnot

theorem dropWhile_isBlank_eq_self {text : Text} (h : ∀ c ∈ text.head?, isBlank c = false) :
    text.dropWhile isBlank = text := by
  cases text with
  | nil => rfl
  | cons c rest => rw [List.dropWhile_cons_of_neg (by rw [h c rfl]; decide)]

theorem getLast?_trimEnd (text : Text) : ∀ c ∈ (trimEnd text).getLast?, isBlank c = false := by
  rw [trimEnd, List.getLast?_reverse]
  exact head?_dropWhile_isBlank _

theorem trimEnd_eq_self {text : Text} (h : ∀ c ∈ text.getLast?, isBlank c = false) :
    trimEnd text = text := by
  rw [trimEnd, dropWhile_isBlank_eq_self (by rwa [List.head?_reverse]), List.reverse_reverse]

/-- Text that ends with no white space stays when the white space behind it is taken off. -/
theorem prefix_trimEnd {front : Text} (back : Text) (h : ∀ c ∈ front.getLast?, isBlank c = false) :
    front <+: trimEnd (front ++ back) := by
  obtain ⟨blanks, hblanks, htext⟩ := exists_trimEnd (front ++ back)
  rcases List.prefix_or_prefix_of_prefix (List.prefix_append front back) ⟨blanks, htext.symm⟩ with
    hkept | ⟨more, hmore⟩
  · exact hkept
  · cases hlast : more.getLast? with
    | none =>
        rw [List.getLast?_eq_none_iff.mp hlast, List.append_nil] at hmore
        exact ⟨[], by rw [hmore, List.append_nil]⟩
    | some c =>
        have hfront : front.getLast? = some c := by
          rw [← hmore, List.getLast?_append, hlast, Option.some_or]
        have hmem : c ∈ blanks := by
          have hback : more ++ back = blanks := by
            have hsame : trimEnd (front ++ back) ++ (more ++ back) =
                trimEnd (front ++ back) ++ blanks := by
              rw [← List.append_assoc, hmore, ← htext]
            exact List.append_cancel_left hsame
          rw [← hback]
          exact List.mem_append_left _ (List.mem_of_getLast? hlast)
        have hblank := hblanks c hmem
        rw [h c hfront] at hblank
        cases hblank

/-- A text that starts and ends with no white space is left as it is. -/
theorem trim_eq_self {text : Text} (hhead : ∀ c ∈ text.head?, isBlank c = false)
    (hlast : ∀ c ∈ text.getLast?, isBlank c = false) : trim text = text := by
  rw [trim, dropWhile_isBlank_eq_self hhead, trimEnd_eq_self hlast]

theorem getLast?_trim (text : Text) : ∀ c ∈ (trim text).getLast?, isBlank c = false :=
  getLast?_trimEnd _

theorem head?_trim (text : Text) : ∀ c ∈ (trim text).head?, isBlank c = false := by
  intro c hc
  obtain ⟨back, -, htext⟩ := exists_trimEnd (text.dropWhile isBlank)
  obtain ⟨rest, hrest⟩ := List.head?_eq_some_iff.mp hc
  apply head?_dropWhile_isBlank text
  rw [htext, ← trim, hrest]
  rfl

@[simp] theorem trim_trim (text : Text) : trim (trim text) = trim text :=
  trim_eq_self (head?_trim text) (getLast?_trim text)

/-- Trimming does not reach into a text that starts and ends with no white space. -/
theorem infix_trim {part text : Text} (hhead : ∀ c ∈ part.head?, isBlank c = false)
    (hlast : ∀ c ∈ part.getLast?, isBlank c = false) (h : part <:+: text) :
    part <:+: trim text := by
  have hdrop : ∀ {part text : Text}, (∀ c ∈ part.head?, isBlank c = false) → part <:+: text →
      part <:+: text.dropWhile isBlank := by
    rintro part _ hpart ⟨front, back, rfl⟩
    cases part with
    | nil => exact List.nil_infix
    | cons c part =>
        rw [List.append_assoc, List.dropWhile_append]
        split
        · rw [List.cons_append, List.dropWhile_cons_of_neg (by rw [hpart c rfl]; decide)]
          exact ⟨[], back, rfl⟩
        · exact ⟨_, back, List.append_assoc ..⟩
  rw [trim, trimEnd, ← List.reverse_infix, List.reverse_reverse]
  refine hdrop ?_ (List.reverse_infix.mpr (hdrop hhead h))
  rwa [List.head?_reverse]

/-! ## Numbers -/

theorem ofNat_injective : Function.Injective ofNat := by
  intro m n h
  have hvalue := congrArg (Nat.ofDigitChars 10 · 0) h
  simpa [ofNat, Nat.ofDigitChars_ten_toDigits] using hvalue

/-! ## Order and repetition -/

theorem mem_distinct {α : Type} [BEq α] [LawfulBEq α] {items : List α} {item : α} :
    item ∈ distinct items ↔ item ∈ items := by
  simp [distinct]

/-- An item that is added at the end is a new one or makes no difference. -/
theorem distinct_concat {α : Type} [BEq α] [LawfulBEq α] (items : List α) (item : α)
    [Decidable (item ∈ items)] :
    distinct (items ++ [item]) =
      if item ∈ items then distinct items else distinct items ++ [item] := by
  rw [distinct, distinct, List.eraseDups_append]
  by_cases hmem : item ∈ items
  · simp [hmem, List.removeAll]
  · simp [hmem, List.removeAll, List.eraseDups_cons]

theorem nodup_distinct {α : Type} [BEq α] [LawfulBEq α] (items : List α) :
    (distinct items).Nodup := by
  -- each step keeps the first item and goes on with a shorter list
  induction hn : items.length using Nat.strongRecOn generalizing items with
  | ind n ih =>
      cases items with
      | nil => simp [distinct]
      | cons item items =>
          have hlt : (items.filter fun other => !other == item).length < n := by
            have hle := List.length_filter_le (fun other => !other == item) items
            simp only [List.length_cons] at hn
            omega
          have hrest := ih _ hlt (items.filter fun other => !other == item) rfl
          rw [distinct] at hrest ⊢
          rw [List.eraseDups_cons, List.nodup_cons]
          refine ⟨?_, hrest⟩
          simp

theorem le_iff (a b : Text) : le a b = true ↔ ¬ b < a := by
  rw [le, Bool.not_eq_true', decide_eq_false_iff_not]

theorem mem_sort {texts : List Text} {text : Text} : text ∈ sort texts ↔ text ∈ texts := by
  simp [sort]

theorem sort_perm (texts : List Text) : (sort texts).Perm texts :=
  List.mergeSort_perm texts le

/-- Sorted texts stand in order. -/
theorem pairwise_sort (texts : List Text) : (sort texts).Pairwise fun a b => ¬ b < a := by
  have hsorted : (sort texts).Pairwise fun a b => le a b = true := by
    apply List.pairwise_mergeSort
    · intro a b c hab hbc
      rw [le_iff] at *
      exact List.le_trans hab hbc
    · intro a b
      rw [Bool.or_eq_true, le_iff, le_iff]
      exact List.le_total a b
  exact hsorted.imp (fun h => (le_iff _ _).mp h)

/-- Sorted texts that are distinct stand in strict order. -/
theorem pairwise_lt_sort {texts : List Text} (h : texts.Nodup) :
    (sort texts).Pairwise (· < ·) := by
  have hnodup : (sort texts).Nodup := (sort_perm texts).nodup_iff.mpr h
  refine ((pairwise_sort texts).and hnodup).imp ?_
  rintro a b ⟨hle, hne⟩
  exact (List.le_iff_lt_or_eq.mp hle).resolve_right hne

end AddonBundle.Text
