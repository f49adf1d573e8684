import AddonBundle.Proofs.Stylesheet.Renaming
import AddonBundle.Stylesheet.Token
/-!
# Lengths of tokens in a renamed text

The recognisers of tokens compute how far a name, a number or a string goes. Each of these lengths
is the same before and after classes are renamed, as long as no class starts inside it; and where
nothing was recognised, nothing is recognised after renaming.
-/

namespace AddonBundle.Stylesheet

open Text

/-! ## Characters of names -/

/-- A name for a class: at least four name characters, the first of which starts an identifier. -/
structure IsClassName (name : Text) : Prop where
  chars : ∀ c ∈ name, isName c = true
  start : ∃ c rest, name = c :: rest ∧ isIdentStart c = true
  long : 4 ≤ name.length

private theorem le_char_iff (c d : Char) : c ≤ d ↔ c.toNat ≤ d.toNat := by
  rw [Char.le_def, UInt32.le_iff_toNat_le]
  rfl

private theorem eq_char_iff (c d : Char) : c = d ↔ c.toNat = d.toNat := by
  rw [← Char.toNat_inj]

private theorem toNat_of_isName {c : Char} (h : isName c = true) :
    (48 ≤ c.toNat ∧ c.toNat ≤ 57) ∨ (65 ≤ c.toNat ∧ c.toNat ≤ 90) ∨
      (97 ≤ c.toNat ∧ c.toNat ≤ 122) ∨ c.toNat = 95 ∨ c.toNat = 45 ∨ 128 ≤ c.toNat := by
  have halpha : c.isAlpha = (c.isUpper || c.isLower) := rfl
  have hupper : c.isUpper = decide (c.val ≥ 'A'.val ∧ c.val ≤ 'Z'.val) := rfl
  have hlower : c.isLower = (decide (c.val ≥ 'a'.val) && decide (c.val ≤ 'z'.val)) := rfl
  by_cases hc : c.toNat < 128
  · simp only [isName, isWord, hc, if_true, Char.isAlphanum, halpha, hupper, hlower,
      Char.isDigit, Bool.or_eq_true, Bool.and_eq_true, decide_eq_true_eq,
      beq_iff_eq, ge_iff_le, UInt32.le_iff_toNat_le, eq_char_iff] at h
    change ((((65 ≤ c.toNat ∧ c.toNat ≤ 90) ∨ (97 ≤ c.toNat ∧ c.toNat ≤ 122)) ∨
      (48 ≤ c.toNat ∧ c.toNat ≤ 57)) ∨ c.toNat = 95) ∨ c.toNat = 45 at h
    omega
  · omega

theorem isIdentStart_iff (c : Char) :
    isIdentStart c = true ↔ (97 ≤ c.toNat ∧ c.toNat ≤ 122) ∨ (65 ≤ c.toNat ∧ c.toNat ≤ 90) ∨
      c.toNat = 95 ∨ 128 ≤ c.toNat := by
  simp only [isIdentStart, Bool.or_eq_true, Bool.and_eq_true, decide_eq_true_eq, le_char_iff,
    eq_char_iff, or_assoc]
  rfl

theorem isDecimal_iff (c : Char) : isDecimal c = true ↔ 48 ≤ c.toNat ∧ c.toNat ≤ 57 := by
  simp only [isDecimal, Bool.and_eq_true, decide_eq_true_eq, le_char_iff]
  rfl

theorem isIdentChar_of_isName {c : Char} (h : isName c = true) : isIdentChar c = true := by
  have hc := toNat_of_isName h
  simp only [isIdentChar, Bool.or_eq_true, isIdentStart_iff, isDecimal_iff, decide_eq_true_eq,
    eq_char_iff]
  change ((_ ∨ _) ∨ c.toNat = 45)
  omega

theorem isDecimal_of_isIdentStart {c : Char} (h : isIdentStart c = true) : isDecimal c = false := by
  rw [isIdentStart_iff] at h
  rw [← Bool.not_eq_true, isDecimal_iff]
  omega

theorem isAddressChar_of_isName {c : Char} (h : isName c = true) : isAddressChar c = true := by
  have hc := toNat_of_isName h
  simp only [isAddressChar, Bool.or_eq_true, Bool.and_eq_true, decide_eq_true_eq, le_char_iff,
    eq_char_iff]
  change (((((_ ∨ _) ∨ _) ∨ _) ∨ (42 ≤ c.toNat ∧ c.toNat ≤ 126)) ∨ _)
  omega

theorem isIdentStart_of_isWord {c : Char} (h : isWord c = true) (hdigit : isDecimal c = false) :
    isIdentStart c = true := by
  have hname : isName c = true := by rw [isName, h, Bool.true_or]
  have hhyphen : c.toNat ≠ 45 := by
    intro hc
    rw [(eq_char_iff c '-').mpr hc] at h
    exact absurd h (by decide)
  have hc := toNat_of_isName hname
  rw [← Bool.not_eq_true, isDecimal_iff] at hdigit
  rw [isIdentStart_iff]
  omega

/-! ## Escapes -/

variable {naming : Text → Text}

theorem lineEndLength_cons (c : Char) (rest : Text) :
    lineEndLength (c :: rest) =
      if c = '\r' ∧ rest.head? = some '\n' then 2 else if isLineEnd c then 1 else 0 := by
  unfold lineEndLength
  split
  · simp_all
  · rename_i hnot heq
    obtain ⟨rfl, rfl⟩ := List.cons.inj heq
    have hnone : ¬ (c = '\r' ∧ rest.head? = some '\n') := by
      rintro ⟨hc, hhead⟩
      obtain ⟨more, hmore⟩ := List.head?_eq_some_iff.mp hhead
      exact hnot more hc hmore
    rw [if_neg hnone]
  · simp_all

theorem lineEndLength_renameText (text : Text) :
    lineEndLength (renameText naming text) = lineEndLength text := by
  cases text with
  | nil => rfl
  | cons c rest =>
      cases hstart : startsClass (c :: rest) with
      | false =>
          rw [renameText_plain hstart, lineEndLength_cons, lineEndLength_cons, head?_renameText]
      | true =>
          obtain ⟨name, more, hrun, heq⟩ := startsClass_iff.mp hstart
          rw [heq, renameText_run hrun, lineEndLength_cons, lineEndLength_cons]
          simp [isLineEnd]

private theorem takeWhile_take (keep : Char → Bool) (count : Nat) (text : Text) :
    (text.take count).takeWhile keep = (text.takeWhile keep).take count := by
  induction text generalizing count with
  | nil => simp
  | cons c rest ih =>
      cases count with
      | zero => simp
      | succ count =>
          rw [List.take_succ_cons, List.takeWhile_cons, List.takeWhile_cons]
          split
          · rw [ih, List.take_succ_cons]
          · simp

private theorem isClear_take_takeWhile {keep : Char → Bool} (hpoint : keep '.' = false)
    (count : Nat) (text : Text) : isClear ((text.take count).takeWhile keep).length text = true := by
  have hnot : '.' ∉ (text.take count).takeWhile keep := by
    intro h
    rw [List.mem_takeWhile_imp h] at hpoint
    cases hpoint
  obtain ⟨rest, hrest⟩ := (List.takeWhile_prefix keep).trans (List.take_prefix count text)
  have hclear := isClear_append rest hnot
  rwa [hrest] at hclear

theorem codeEscape_renameText (text : Text) :
    codeEscape (renameText naming text) = codeEscape text := by
  have hpoint : isHexDigit '.' = false := by decide
  have hdigits : ((renameText naming text).take 6).takeWhile isHexDigit =
      (text.take 6).takeWhile isHexDigit := by
    rw [takeWhile_take, takeWhile_take, takeWhile_renameText (by decide)]
  simp only [codeEscape, hdigits, drop_renameText_of_isClear (isClear_take_takeWhile hpoint 6 text), head?_renameText,
    lineEndLength_renameText]

theorem escapeLength_renameText (text : Text) :
    escapeLength (renameText naming text) = escapeLength text := by
  simp only [escapeLength, codeEscape_renameText, head?_renameText]

/-! ## Names and numbers -/

theorem nameLength_renameText {skip : Nat} {text : Text}
    (h : isClear (nameLength skip text) text = true) :
    nameLength skip (renameText naming text) = nameLength skip text := by
  induction text generalizing skip with
  | nil => rfl
  | cons c rest ih =>
      cases hstart : startsClass (c :: rest) with
      | true =>
          obtain ⟨name, more, hrun, heq⟩ := startsClass_iff.mp hstart
          cases skip with
          | succ skip =>
              rw [nameLength, isClear_succ, hstart] at h
              cases h.1
          | zero =>
              rw [heq, renameText_run hrun]
              rfl
      | false =>
          rw [renameText_plain hstart]
          cases skip with
          | succ skip =>
              rw [nameLength, isClear_succ] at h
              rw [nameLength, nameLength, ih h.2]
          | zero =>
              rw [nameLength] at h ⊢
              rw [nameLength, escapeLength_renameText]
              split
              · rename_i hident
                rw [if_pos hident, isClear_succ] at h
                rw [ih h.2]
              · rename_i hident
                rw [if_neg hident] at h
                split
                · rename_i hback
                  rw [if_pos hback] at h
                  cases hescape : escapeLength rest with
                  | none => rfl
                  | some length =>
                      rw [hescape] at h
                      rw [isClear_succ] at h
                      simp only [ih h.2]
                · rfl

private theorem isClear_takeWhile {keep : Char → Bool} (hpoint : keep '.' = false) (text : Text) :
    isClear (text.takeWhile keep).length text = true := by
  have hnot : '.' ∉ text.takeWhile keep := by
    intro h
    rw [List.mem_takeWhile_imp h] at hpoint
    cases hpoint
  have hclear := isClear_append (text.dropWhile keep) hnot
  rwa [List.takeWhile_append_dropWhile] at hclear

/-- What follows a clear start is clear as far as both together. -/
theorem isClear_drop {front count : Nat} {text : Text}
    (h : isClear (front + count) text = true) : isClear count (text.drop front) = true := by
  induction front generalizing text with
  | zero => simpa using h
  | succ front ih =>
      cases text with
      | nil =>
          rw [List.drop_nil]
          cases count <;> rfl
      | cons c rest =>
          rw [show front + 1 + count = front + count + 1 by omega, isClear_succ] at h
          exact ih h.2

theorem identLength_renameText {text : Text}
    (h : ∀ length, identLength text = some length → isClear length text = true) :
    identLength (renameText naming text) = identLength text := by
  have hhyphens : (renameText naming text).takeWhile (· = '-') = text.takeWhile (· = '-') :=
    takeWhile_renameText (by decide) text
  have hdrop : (renameText naming text).drop (text.takeWhile (· = '-')).length =
      renameText naming (text.drop (text.takeWhile (· = '-')).length) :=
    drop_renameText_of_isClear (isClear_takeWhile (by decide) text)
  simp only [identLength, hhyphens, hdrop] at h ⊢
  cases hrest : text.drop (text.takeWhile (· = '-')).length with
  | nil => rfl
  | cons c rest =>
      rw [hrest] at h
      cases hstart : startsClass (c :: rest) with
      | true =>
          obtain ⟨name, more, hrun, heq⟩ := startsClass_iff.mp hstart
          rw [heq, renameText_run hrun]
          simp [isIdentStart]
      | false =>
          rw [renameText_plain hstart]
          simp only [escapeLength_renameText]
          split
          · rename_i hident
            have hclear := h _ (if_pos hident)
            have hname := isClear_drop hclear
            rw [hrest] at hname
            have hlength : nameLength 0 (renameText naming (c :: rest)) = nameLength 0 (c :: rest) :=
              nameLength_renameText hname
            rw [renameText_plain hstart] at hlength
            rw [hlength]
          · rfl

/-- The digits behind a point: none where a class starts, before and after renaming. -/
private theorem fraction_renameText (hnaming : ∀ name, IsClassName (naming name)) {rest : Text}
    (h : startsClass rest = true → (rest.drop 1).takeWhile isDecimal = []) :
    (((renameText naming rest).drop 1).takeWhile isDecimal) =
      ((rest.drop 1).takeWhile isDecimal) := by
  cases rest with
  | nil => rfl
  | cons c more =>
      cases hstart : startsClass (c :: more) with
      | false =>
          rw [renameText_plain hstart, List.drop_one, List.drop_one, List.tail_cons, List.tail_cons,
            takeWhile_renameText (by decide)]
      | true =>
          rw [h hstart]
          obtain ⟨name, behind, hrun, heq⟩ := startsClass_iff.mp hstart
          obtain ⟨d, rest, hname, hd⟩ := (hnaming name).start
          rw [heq, renameText_run hrun, hname]
          simp [isDecimal_of_isIdentStart hd]

/-- The number of characters of a sign in front of a text. -/
private def signLength (text : Text) : Nat :=
  if text.head? = some '+' || text.head? = some '-' then 1 else 0

private theorem isClear_signLength (text : Text) : isClear (signLength text) text = true := by
  unfold signLength
  split
  · rename_i hhead
    cases text with
    | nil => rfl
    | cons c rest =>
        rw [isClear_succ]
        refine ⟨startsClass_cons_of_ne rest ?_, rfl⟩
        rintro rfl
        simp at hhead
  · cases text <;> rfl

theorem numberLength_renameText (hnaming : ∀ name, IsClassName (naming name)) {text : Text}
    (h : ∀ length, numberLength text = some length → isClear length text = true) :
    numberLength (renameText naming text) = numberLength text := by
  have hnumber : ∀ t, numberLength t =
      let unsigned := t.drop (signLength t)
      let whole := (unsigned.takeWhile isDecimal).length
      let rest := unsigned.drop whole
      let fraction := ((rest.drop 1).takeWhile isDecimal).length
      if rest.head? = some '.' && fraction ≠ 0 then some (signLength t + whole + 1 + fraction)
      else if whole = 0 then none
      else some (signLength t + whole) := fun _ => rfl
  have hsign : signLength (renameText naming text) = signLength text := by
    simp only [signLength, head?_renameText]
  have hunsigned : (renameText naming text).drop (signLength text) =
      renameText naming (text.drop (signLength text)) :=
    drop_renameText_of_isClear (isClear_signLength text)
  generalize hunsignedText : text.drop (signLength text) = unsigned at hunsigned
  have hwhole : (renameText naming unsigned).takeWhile isDecimal = unsigned.takeWhile isDecimal :=
    takeWhile_renameText (by decide) unsigned
  have hrest : (renameText naming unsigned).drop (unsigned.takeWhile isDecimal).length =
      renameText naming (unsigned.drop (unsigned.takeWhile isDecimal).length) :=
    drop_renameText_of_isClear (isClear_takeWhile (by decide) unsigned)
  generalize hrestText : unsigned.drop (unsigned.takeWhile isDecimal).length = rest at hrest
  -- a class behind the digits does not start with digits, or it would belong to the number
  have hdigits : startsClass rest = true → (rest.drop 1).takeWhile isDecimal = [] := by
    intro hstart
    obtain ⟨name, more, -, hshape⟩ := startsClass_iff.mp hstart
    by_contra hfraction
    have hlength := hnumber text
    simp only [hunsignedText, hrestText] at hlength
    rw [if_pos (by simpa [hshape] using hfraction)] at hlength
    have hclear := h _ hlength
    rw [Nat.add_assoc, Nat.add_assoc] at hclear
    have hbehind := isClear_drop hclear
    rw [hunsignedText] at hbehind
    have hpoint := isClear_drop hbehind
    rw [hrestText, hshape, Nat.add_comm, isClear_succ, ← hshape, hstart] at hpoint
    cases hpoint.1
  have hfraction := fraction_renameText hnaming hdigits
  rw [hnumber, hnumber]
  simp only [hsign, hunsigned, hunsignedText, hwhole, hrest, hrestText, head?_renameText, hfraction]

/-! ## Strings -/

/-- How many characters a backslash in a string takes with it. -/
private def stringEscape (rest : Text) : Option Nat :=
  if lineEndLength rest = 0 then escapeLength rest else some (lineEndLength rest)

private theorem stringLength_cons (mark c : Char) (rest : Text) :
    stringLength mark 0 (c :: rest) =
      if c = mark || isLineEnd c then 0
      else if c = '\\' then
        match stringEscape rest with
        | none => 0
        | some skip => stringLength mark skip rest + 1
      else stringLength mark 0 rest + 1 := by
  rw [stringLength, stringEscape]
  split
  · rfl
  · split
    · split
      · rename_i hend hescape
        rw [if_pos hend, hescape]
      · rename_i hend hescape
        rw [if_pos hend, hescape]
      · rename_i hnone hsome
        have hend : lineEndLength rest ≠ 0 := by
          intro hend
          cases hescape : escapeLength rest with
          | none => exact hnone hend hescape
          | some skip => exact hsome skip hend hescape
        rw [if_neg hend]
    · rfl

private theorem stringEscape_renameText (text : Text) :
    stringEscape (renameText naming text) = stringEscape text := by
  rw [stringEscape, stringEscape, lineEndLength_renameText, escapeLength_renameText]

theorem stringLength_renameText {mark : Char} (hmark : isMark mark = true) {skip : Nat}
    {text : Text} (h : isClear (stringLength mark skip text) text = true) :
    stringLength mark skip (renameText naming text) = stringLength mark skip text := by
  induction text generalizing skip with
  | nil => rfl
  | cons c rest ih =>
      cases hstart : startsClass (c :: rest) with
      | true =>
          -- a point belongs to the string, so that its length reaches behind it
          obtain ⟨name, more, -, heq⟩ := startsClass_iff.mp hstart
          obtain ⟨rfl, -⟩ := List.cons.inj heq
          have hpoint : mark ≠ '.' := by
            rintro rfl
            cases hmark
          have hlength : ∃ length, stringLength mark skip ('.' :: rest) = length + 1 := by
            cases skip with
            | succ skip => exact ⟨_, rfl⟩
            | zero =>
                rw [stringLength_cons, if_neg (by simp [hpoint.symm, isLineEnd]),
                  if_neg (by decide)]
                exact ⟨_, rfl⟩
          obtain ⟨length, hlength⟩ := hlength
          rw [hlength, isClear_succ, hstart] at h
          cases h.1
      | false =>
          rw [renameText_plain hstart]
          cases skip with
          | succ skip =>
              rw [stringLength, isClear_succ] at h
              rw [stringLength, stringLength, ih h.2]
          | zero =>
              rw [stringLength_cons] at h ⊢
              rw [stringLength_cons, stringEscape_renameText]
              split
              · rfl
              · rename_i hstop
                rw [if_neg hstop] at h
                split
                · rename_i hback
                  rw [if_pos hback] at h
                  cases hescape : stringEscape rest with
                  | none => rfl
                  | some skip =>
                      rw [hescape] at h
                      rw [isClear_succ] at h
                      simp only [ih h.2]
                · rename_i hback
                  rw [if_neg hback, isClear_succ] at h
                  rw [ih h.2]

/-- What follows the inside of a string: its closing mark, or where it breaks off. -/
private def stringRest (mark : Char) (text : Text) : Text :=
  text.drop (stringLength mark 0 text)

private theorem drop_stringLength (mark : Char) (skip : Nat) (text : Text) :
    text.drop (stringLength mark skip text) = stringRest mark (text.drop skip) := by
  induction text generalizing skip with
  | nil => simp [stringRest]
  | cons c rest ih =>
      cases skip with
      | zero => rfl
      | succ skip => exact ih skip

private theorem stringRest_cons (mark c : Char) (rest : Text) :
    stringRest mark (c :: rest) =
      if c = mark || isLineEnd c then c :: rest
      else if c = '\\' then
        match stringEscape rest with
        | none => c :: rest
        | some skip => stringRest mark (rest.drop skip)
      else stringRest mark rest := by
  rw [stringRest, stringLength_cons]
  split
  · rfl
  · split
    · cases stringEscape rest with
      | none => rfl
      | some skip => exact drop_stringLength mark skip rest
    · exact drop_stringLength mark 0 rest

private theorem stringRest_append {mark : Char} {front : Text} (back : Text)
    (hmark : isMark mark = true) (h : ∀ c ∈ front, isName c = true ∨ c = '.') :
    stringRest mark (front ++ back) = stringRest mark back := by
  induction front with
  | nil => rfl
  | cons c front ih =>
      have hc : ∀ d, isName d = false → d ≠ '.' → c ≠ d := by
        rintro d hname hpoint rfl
        rcases h c List.mem_cons_self with hc | hc
        · rw [hc] at hname
          cases hname
        · exact hpoint hc
      have hcmark : c ≠ mark := by
        rw [isMark, Bool.or_eq_true, decide_eq_true_eq, decide_eq_true_eq] at hmark
        rcases hmark with rfl | rfl
        · exact hc _ (by decide) (by decide)
        · exact hc _ (by decide) (by decide)
      have hend : isLineEnd c = false := by
        rw [← Bool.not_eq_true, isLineEnd, Bool.or_eq_true, Bool.or_eq_true, decide_eq_true_eq,
          decide_eq_true_eq, decide_eq_true_eq]
        rintro ((rfl | rfl) | rfl)
        · exact hc _ (by decide) (by decide) rfl
        · exact hc _ (by decide) (by decide) rfl
        · exact hc _ (by decide) (by decide) rfl
      have hback : c ≠ '\\' := hc _ (by decide) (by decide)
      rw [List.cons_append, stringRest_cons, if_neg (by simp [hcmark, hend]), if_neg hback]
      exact ih fun d hd => h d (List.mem_cons_of_mem _ hd)

private theorem isClear_add {front count : Nat} {text : Text} (hfront : isClear front text = true)
    (hcount : isClear count (text.drop front) = true) : isClear (front + count) text = true := by
  induction front generalizing text with
  | zero => simpa using hcount
  | succ front ih =>
      cases text with
      | nil => rw [show front + 1 + count = front + count + 1 by omega]; rfl
      | cons c rest =>
          rw [isClear_succ] at hfront
          rw [show front + 1 + count = front + count + 1 by omega, isClear_succ]
          exact ⟨hfront.1, ih hfront.2 hcount⟩

private theorem isClear_lineEndLength (text : Text) :
    isClear (lineEndLength text) text = true := by
  cases text with
  | nil => rfl
  | cons c rest =>
      by_cases hc : c = '.'
      · subst hc
        rfl
      · rw [lineEndLength_cons]
        split
        · rename_i hpair
          obtain ⟨more, rfl⟩ := List.head?_eq_some_iff.mp hpair.2
          simp only [isClear_succ]
          exact ⟨startsClass_cons_of_ne _ hc, startsClass_cons_of_ne _ (by decide), rfl⟩
        · split
          · rw [isClear_succ]
            exact ⟨startsClass_cons_of_ne _ hc, rfl⟩
          · rfl

private theorem isClear_gap {text : Text} (h : text.head?.any isGap = true) :
    isClear (max 1 (lineEndLength text)) text = true := by
  have hone : isClear 1 text = true := by
    cases text with
    | nil => rfl
    | cons c rest =>
        rw [isClear_succ]
        refine ⟨startsClass_cons_of_ne rest ?_, rfl⟩
        rintro rfl
        simp [isGap] at h
  rcases Nat.le_total 1 (lineEndLength text) with hle | hle
  · rw [Nat.max_eq_right hle]
    exact isClear_lineEndLength text
  · rw [Nat.max_eq_left hle]
    exact hone

/-- What an escape takes with it starts no class, unless it is a single character. -/
private theorem isClear_stringEscape {text : Text} {skip : Nat} (h : stringEscape text = some skip) :
    isClear skip text = true ∨ skip = 1 := by
  unfold stringEscape at h
  split at h
  · unfold escapeLength at h
    split at h
    · rename_i value length hcode
      cases h
      left
      simp only [codeEscape] at hcode
      split at hcode
      · cases hcode
      · simp only [Option.some.injEq, Prod.mk.injEq] at hcode
        rw [← hcode.2]
        apply isClear_add (isClear_take_takeWhile (by decide) 6 text)
        split
        · rename_i hgap
          exact isClear_gap hgap
        · rfl
    · split at h
      · cases h
        exact .inr rfl
      · cases h
  · cases h
    exact .inl (isClear_lineEndLength text)

/-- A string ends before the same characters after renaming, even if classes are in it. -/
private theorem stringRest_renameText {mark : Char} (hmark : isMark mark = true)
    (hnaming : ∀ name, IsClassName (naming name)) (text : Text) :
    stringRest mark (renameText naming text) = renameText naming (stringRest mark text) := by
  have hnames : ∀ {name rest : Text}, IsRun name rest →
      stringRest mark (renameText naming rest) = renameText naming (stringRest mark rest) →
      stringRest mark (naming name ++ renameText naming rest) =
        renameText naming (stringRest mark (name ++ rest)) := by
    intro name rest hrun hrest
    rw [stringRest_append _ hmark fun c hc => .inl ((hnaming name).chars c hc),
      stringRest_append _ hmark fun c hc => .inl (hrun.chars c hc)]
    exact hrest
  induction text using behind_induction with
  | nil => rfl
  | cons c rest ih =>
      cases hstart : startsClass (c :: rest) with
      | true =>
          obtain ⟨name, more, hrun, heq⟩ := startsClass_iff.mp hstart
          have hpoint : ∀ t, stringRest mark ('.' :: t) = stringRest mark t :=
            fun t => stringRest_append t hmark (show ∀ c ∈ ['.'], _ by simp)
          have hmore := ih ('.' :: name) more (List.cons_ne_nil _ _) heq
          rw [heq, renameText_run hrun, hpoint, hpoint]
          exact hnames hrun hmore
      | false =>
          rw [renameText_plain hstart, stringRest_cons, stringRest_cons, stringEscape_renameText]
          split
          · rw [renameText_plain hstart]
          · split
            · cases hescape : stringEscape rest with
              | none => exact (renameText_plain hstart).symm
              | some skip =>
                  dsimp only
                  cases hclear : isClear skip rest with
                  | true =>
                      rw [drop_renameText_of_isClear hclear]
                      exact ih _ _ (List.cons_ne_nil _ _) (cons_eq_take_append_drop c rest skip)
                  | false =>
                      -- a point alone is escaped, and a name follows it
                      obtain rfl : skip = 1 := by simpa [hclear] using isClear_stringEscape hescape
                      have hclass : startsClass rest = true := by
                        cases rest with
                        | nil => cases hclear
                        | cons d more => simpa [isClear] using hclear
                      obtain ⟨name, more, hrun, rfl⟩ := startsClass_iff.mp hclass
                      rw [renameText_run hrun]
                      exact hnames hrun (ih (c :: '.' :: name) more (List.cons_ne_nil _ _) rfl)
            · exact ih [c] rest (List.cons_ne_nil _ _) rfl

/-! ## Addresses, ranges of code points, comments and signs -/

/-- What follows a string in front of a text. -/
private def behindString? (text : Text) : Option Text :=
  match recogniseString none text with
  | some (.string _, length) => some (text.drop length)
  | _ => none

private theorem behindString?_cons (mark : Char) (rest : Text) :
    behindString? (mark :: rest) =
      if isMark mark && (stringRest mark rest).head? = some mark then
        some ((stringRest mark rest).drop 1)
      else none := by
  simp only [behindString?, recogniseString]
  cases isMark mark with
  | false => rfl
  | true =>
      rw [if_pos rfl, ← stringRest, Bool.true_and]
      by_cases hclosed : (stringRest mark rest).head? = some mark
      · rw [if_pos hclosed, if_pos (by simpa using hclosed)]
        simp only [stringRest, List.drop_drop, Option.some.injEq]
        rfl
      · rw [if_neg hclosed, if_neg (by simpa using hclosed)]

private theorem behindString?_renameText (hnaming : ∀ name, IsClassName (naming name)) (text : Text) :
    behindString? (renameText naming text) = (behindString? text).map (renameText naming) := by
  cases text with
  | nil => rfl
  | cons c rest =>
      cases hmark : isMark c with
      | false =>
          have hnone : ∀ more, behindString? (c :: more) = none := by
            intro more
            rw [behindString?_cons, hmark]
            rfl
          cases hstart : startsClass (c :: rest) with
          | false => rw [renameText_plain hstart, hnone, hnone, Option.map_none]
          | true =>
              obtain ⟨name, more, hrun, heq⟩ := startsClass_iff.mp hstart
              obtain ⟨rfl, -⟩ := List.cons.inj heq
              rw [hnone, heq, renameText_run hrun, hnone, Option.map_none]
      | true =>
          have hpoint : c ≠ '.' := by
            rintro rfl
            cases hmark
          rw [renameText_cons_of_ne _ hpoint, behindString?_cons, behindString?_cons,
            stringRest_renameText hmark hnaming, head?_renameText]
          split
          · rename_i hclosed
            rw [Bool.and_eq_true, decide_eq_true_eq] at hclosed
            obtain ⟨more, hmore⟩ := List.head?_eq_some_iff.mp hclosed.2
            rw [hmore, renameText_cons_of_ne _ hpoint]
            rfl
          · rfl

/-- What follows an address, as far as its inside goes. -/
private def behindAddress (inside : Text) : Text :=
  ((behindString? inside).getD (inside.dropWhile isAddressChar)).dropWhile isGap

private theorem addressLength_eq (text : Text) :
    addressLength text =
      if (text.take 4).map Char.toLower = "url(".toList &&
          (behindAddress ((text.drop 4).dropWhile isGap)).head? = some ')' then
        some (text.length - (behindAddress ((text.drop 4).dropWhile isGap)).length + 1)
      else none := by
  unfold addressLength behindAddress behindString?
  dsimp only
  generalize recogniseString none ((text.drop 4).dropWhile isGap) = found
  cases found with
  | none => rfl
  | some pair =>
      obtain ⟨token, length⟩ := pair
      cases token <;> rfl

private theorem behindAddress_renameText (hnaming : ∀ name, IsClassName (naming name)) (inside : Text) :
    behindAddress (renameText naming inside) = renameText naming (behindAddress inside) := by
  have haddress : (renameText naming inside).dropWhile isAddressChar =
      renameText naming (inside.dropWhile isAddressChar) :=
    dropWhile_renameText_through (by decide) (fun c hc => isAddressChar_of_isName hc)
      (fun name => (hnaming name).chars) inside
  rw [behindAddress, behindAddress, behindString?_renameText hnaming, haddress]
  cases behindString? inside with
  | none => exact dropWhile_renameText (by decide) _
  | some behind => exact dropWhile_renameText (by decide) _

private theorem point_not_mem_of_toLower {front : Text}
    (h : front.map Char.toLower = "url(".toList) : '.' ∉ front := by
  intro hmem
  have hlower : Char.toLower '.' ∈ "url(".toList := h ▸ List.mem_map_of_mem hmem
  exact absurd hlower (by decide)

/-- Before and after renaming, a text that starts with the mark of an address starts alike. -/
private theorem take_four_renameText (text : Text) :
    ((renameText naming text).take 4).map Char.toLower = "url(".toList ↔
      (text.take 4).map Char.toLower = "url(".toList := by
  have hstarts : ∀ t : Text, (t.take 4).map Char.toLower = "url(".toList ↔
      ∃ front : Text, front.map Char.toLower = "url(".toList ∧ front <+: t := by
    intro t
    constructor
    · exact fun h => ⟨t.take 4, h, List.take_prefix 4 t⟩
    · rintro ⟨front, hfront, hstarts⟩
      have hlength : front.length = 4 := by
        rw [← List.length_map Char.toLower, hfront]
        rfl
      rw [← hlength, ← List.prefix_iff_eq_take.mp hstarts]
      exact hfront
  rw [hstarts, hstarts]
  constructor
  · rintro ⟨front, hfront, h⟩
    exact ⟨front, hfront, (isPrefix_renameText (point_not_mem_of_toLower hfront) text).mp h⟩
  · rintro ⟨front, hfront, h⟩
    exact ⟨front, hfront, (isPrefix_renameText (point_not_mem_of_toLower hfront) text).mpr h⟩

private theorem behindAddress_suffix (inside : Text) : behindAddress inside <:+ inside := by
  refine (List.dropWhile_suffix _).trans ?_
  unfold behindString?
  split
  · exact List.drop_suffix _ _
  · exact List.dropWhile_suffix _

theorem addressLength_renameText (hnaming : ∀ name, IsClassName (naming name)) {text : Text}
    (h : ∀ length, addressLength text = some length → isClear length text = true) :
    addressLength (renameText naming text) = addressLength text := by
  by_cases hstart : (text.take 4).map Char.toLower = "url(".toList
  · have hclear : isClear 4 text = true := by
      have hfront := isClear_append (text.drop 4) (point_not_mem_of_toLower hstart)
      have hlength : (text.take 4).length = 4 := by
        rw [← List.length_map Char.toLower, hstart]
        rfl
      rwa [List.take_append_drop, hlength] at hfront
    have hbehind : behindAddress (((renameText naming text).drop 4).dropWhile isGap) =
        renameText naming (behindAddress ((text.drop 4).dropWhile isGap)) := by
      rw [drop_renameText_of_isClear hclear, dropWhile_renameText (by decide),
        behindAddress_renameText hnaming]
    have hsuffix : behindAddress ((text.drop 4).dropWhile isGap) <:+ text :=
      (behindAddress_suffix _).trans ((List.dropWhile_suffix _).trans (List.drop_suffix 4 text))
    rw [addressLength_eq] at h
    rw [addressLength_eq, addressLength_eq, hbehind, head?_renameText]
    simp only [take_four_renameText text]
    generalize behindAddress ((text.drop 4).dropWhile isGap) = behind at h hsuffix
    split
    · rename_i hclosed
      -- what is renamed stands behind the address, in both texts
      have hclosing := isClear_of_le (h _ (if_pos hclosed)) (Nat.le_succ _)
      have hlength : (renameText naming text).length =
          text.length - behind.length + (renameText naming behind).length := by
        have hsplit : renameText naming text = _ := renameText_of_isClear hclosing
        have hdrop : text.drop (text.length - behind.length) = behind :=
          (List.suffix_iff_eq_drop.mp hsuffix).symm
        rw [hsplit, hdrop, List.length_append, List.length_take,
          Nat.min_eq_left (Nat.sub_le _ _)]
      rw [hlength, Nat.add_sub_cancel]
    · rfl
  · rw [addressLength_eq, addressLength_eq, if_neg, if_neg]
    · rw [Bool.and_eq_true, decide_eq_true_eq]
      exact fun hboth => hstart hboth.1
    · rw [Bool.and_eq_true, decide_eq_true_eq, take_four_renameText]
      exact fun hboth => hstart hboth.1

theorem addressLength_eq_none {text : Text} (h : ∀ c ∈ text.take 4, isName c = true) :
    addressLength text = none := by
  have hparen : ∀ c : Char, isName c = true → c.toLower ≠ '(' := by
    intro c hname hlower
    have hrange := toNat_of_isName hname
    have hval : c.toLower.val.toNat = 40 := by
      rw [hlower]
      rfl
    unfold Char.toLower at hval
    split at hval
    · rename_i hupper
      simp only [ge_iff_le, UInt32.le_iff_toNat_le] at hupper
      have hsum : (c.val + 32).toNat = 40 := hval
      rw [UInt32.toNat_add] at hsum
      change (c.toNat + 32) % 2 ^ 32 = 40 at hsum
      change 65 ≤ c.toNat ∧ c.toNat ≤ 90 at hupper
      omega
    · change c.toNat = 40 at hval
      omega
  rw [addressLength_eq, if_neg]
  rw [Bool.and_eq_true, decide_eq_true_eq]
  rintro ⟨hstart, -⟩
  have hmem : '(' ∈ (text.take 4).map Char.toLower := by
    rw [hstart]
    decide
  obtain ⟨c, hc, hlower⟩ := List.mem_map.mp hmem
  exact hparen c (h c hc) hlower

/-- The digits of a range of code points, and of its end. -/
private theorem codeRangeLength_cons (c d : Char) (rest : Text) :
    codeRangeLength (c :: d :: rest) =
      let first := ((rest.take 6).takeWhile fun e => isHexDigit e || e = '?').length
      let behind := rest.drop first
      let last :=
        if behind.head? = some '-' then (((behind.drop 1).take 6).takeWhile isHexDigit).length else 0
      if d = '+' && (c = 'u' || c = 'U') && first ≠ 0 then
        some (2 + first + if last = 0 then 0 else last + 1)
      else none := by
  by_cases hplus : d = '+'
  · subst hplus
    simp only [codeRangeLength, decide_true, Bool.true_and]
    generalize List.drop _ rest = behind
    cases behind with
    | nil => rfl
    | cons e more =>
        by_cases he : e = '-'
        · subst he
          rfl
        · simp [he]
  · unfold codeRangeLength
    split
    · rename_i heq
      obtain ⟨-, heq⟩ := List.cons.inj heq
      exact absurd (List.cons.inj heq).1 hplus
    · simp [hplus]

theorem eq_cons_of_codeRangeLength {text : Text} {length : Nat}
    (h : codeRangeLength text = some length) :
    ∃ c rest, (c = 'u' ∨ c = 'U') ∧ text = c :: '+' :: rest := by
  match text, h with
  | c :: d :: rest, h =>
      rw [codeRangeLength_cons] at h
      dsimp only at h
      split at h
      · rename_i hcond
        simp only [Bool.and_eq_true, Bool.or_eq_true, decide_eq_true_eq] at hcond
        exact ⟨c, rest, hcond.1.2, by rw [hcond.1.1]⟩
      · cases h

theorem codeRangeLength_renameText (text : Text) :
    codeRangeLength (renameText naming text) = codeRangeLength text := by
  have hnone : ∀ {c : Char} (rest : Text), c ≠ 'u' → c ≠ 'U' →
      codeRangeLength (c :: rest) = none := by
    intro c rest hu hU
    cases rest with
    | nil => rfl
    | cons d more =>
        rw [codeRangeLength_cons]
        simp [hu, hU]
  cases text with
  | nil => rfl
  | cons c rest =>
      by_cases hc : c = 'u' ∨ c = 'U'
      · have hpoint : c ≠ '.' := by
          rintro rfl
          rcases hc with hc | hc <;> exact absurd hc (by decide)
        rw [renameText_cons_of_ne rest hpoint]
        cases rest with
        | nil => rfl
        | cons d more =>
            by_cases hd : d = '+'
            · subst hd
              have hdigits : ∀ {keep : Char → Bool}, keep '.' = false → ∀ t : Text,
                  ((renameText naming t).take 6).takeWhile keep = (t.take 6).takeWhile keep := by
                intro keep hkeep t
                rw [takeWhile_take, takeWhile_take, takeWhile_renameText hkeep]
              have hclear : isClear
                  ((more.take 6).takeWhile fun e => isHexDigit e || e = '?').length more = true :=
                isClear_take_takeWhile (by decide) 6 more
              rw [renameText_cons_of_ne more (by decide), codeRangeLength_cons,
                codeRangeLength_cons]
              dsimp only
              rw [hdigits (by decide) more, drop_renameText_of_isClear hclear, head?_renameText]
              generalize more.drop _ = behind
              by_cases hdash : behind.head? = some '-'
              · obtain ⟨tail, rfl⟩ := List.head?_eq_some_iff.mp hdash
                rw [renameText_cons_of_ne tail (by decide), List.drop_one, List.drop_one,
                  List.tail_cons, List.tail_cons, hdigits (by decide) tail]
              · rw [if_neg hdash, if_neg hdash]
            · have hhead : (renameText naming (d :: more)).head? = some d := by
                rw [head?_renameText]
                rfl
              obtain ⟨tail, htail⟩ := List.head?_eq_some_iff.mp hhead
              rw [htail, codeRangeLength_cons, codeRangeLength_cons]
              simp [hd]
      · rw [not_or] at hc
        have hhead : (renameText naming (c :: rest)).head? = some c := by
          rw [head?_renameText]
          rfl
        obtain ⟨tail, htail⟩ := List.head?_eq_some_iff.mp hhead
        rw [htail, hnone tail hc.1 hc.2, hnone rest hc.1 hc.2]

private theorem commentRest_renameText_eq_none (hnaming : ∀ name, IsClassName (naming name)) {text : Text}
    (h : commentRest text = none) : commentRest (renameText naming text) = none := by
  have hskip : ∀ (front : Text) (back : Text), '*' ∉ front →
      (commentRest (front ++ back) = none ↔ commentRest back = none) := by
    intro front back hfront
    induction front with
    | nil => rfl
    | cons c front ih =>
        rw [List.mem_cons, not_or] at hfront
        rw [List.cons_append, commentRest, if_neg (by simp [Ne.symm hfront.1])]
        simpa using ih hfront.2
  have hname : ∀ (name : Text), (∀ c ∈ name, isName c = true) → '*' ∉ '.' :: name := by
    intro name hchars hmem
    rcases List.mem_cons.mp hmem with hpoint | hmem
    · exact absurd hpoint (by decide)
    · exact absurd (hchars _ hmem) (by decide)
  induction text using classInduction with
  | nil => rfl
  | plain c rest hstart ih =>
      rw [renameText_plain hstart]
      rw [commentRest] at h ⊢
      rw [head?_renameText]
      split at h
      · cases h
      · rename_i hnot
        rw [if_neg hnot]
        rw [Option.map_eq_map, Option.map_eq_none_iff] at h ⊢
        exact ih h
  | run name rest hrun ih =>
      rw [← List.cons_append, hskip _ _ (hname name hrun.chars)] at h
      rw [renameText_run hrun, ← List.cons_append, hskip _ _ (hname _ ((hnaming name).chars))]
      exact ih h

theorem commentRest_renameText (hnaming : ∀ name, IsClassName (naming name)) {text : Text}
    (h : ∀ length, commentRest text = some length → isClear length text = true) :
    commentRest (renameText naming text) = commentRest text := by
  cases hrest : commentRest text with
  | none => exact commentRest_renameText_eq_none hnaming hrest
  | some length =>
      have hclear := h length hrest
      clear h
      induction text generalizing length with
      | nil => cases hrest
      | cons c rest ih =>
          rw [commentRest] at hrest
          split at hrest
          · rename_i hend
            cases hrest
            rw [isClear_succ] at hclear
            rw [renameText_plain hclear.1, commentRest, head?_renameText, if_pos hend]
          · rename_i hend
            rw [Option.map_eq_map, Option.map_eq_some_iff] at hrest
            obtain ⟨shorter, hrest, rfl⟩ := hrest
            rw [isClear_succ] at hclear
            rw [renameText_plain hclear.1, commentRest, head?_renameText, if_neg hend,
              ih shorter hrest hclear.2]
            rfl

/-- The marks that a token may consist of, by its first character and what follows. -/
private theorem recogniseSign_cons (before : Option Char) (c : Char) (rest : Text) :
    recogniseSign before (c :: rest) =
      if c = '=' then some (.comparison .equals, 1)
      else if c = '~' ∧ rest.head? = some '=' then some (.comparison .includes, 2)
      else if c = '|' ∧ rest.head? = some '=' then some (.comparison .dashMatch, 2)
      else if c = '^' ∧ rest.head? = some '=' then some (.comparison .startsWith, 2)
      else if c = '$' ∧ rest.head? = some '=' then some (.comparison .endsWith, 2)
      else if c = '*' ∧ rest.head? = some '=' then some (.comparison .contains, 2)
      else if c = '<' ∧ ['!', '-', '-'] <+: rest then some (.hidingMark, 4)
      else if c = '-' ∧ ['-', '>'] <+: rest then some (.hidingMark, 3)
      else if c = '#' then
        if nameLength 0 rest = 0 then none
        else some (.hash (decodeCodes (rest.take (nameLength 0 rest))), nameLength 0 rest + 1)
      else if c = '@' then (fun length => (.atWord, length + 1)) <$> identLength rest
      else none := by
  have hhead : ∀ d, (∀ tail, c :: rest = d :: '=' :: tail → False) →
      ¬ (c = d ∧ rest.head? = some '=') := by
    rintro d hnot ⟨rfl, hhead⟩
    obtain ⟨tail, rfl⟩ := List.head?_eq_some_iff.mp hhead
    exact hnot tail rfl
  unfold recogniseSign
  split
  case h_11 hequals htilde hbar hcaret hdollar hstar hopen hclose hhash hat =>
    have hopening : ¬ (c = '<' ∧ ['!', '-', '-'] <+: rest) := by
      rintro ⟨rfl, tail, rfl⟩
      exact hopen tail rfl
    have hclosing : ¬ (c = '-' ∧ ['-', '>'] <+: rest) := by
      rintro ⟨rfl, tail, rfl⟩
      exact hclose tail rfl
    rw [if_neg fun h => hequals rest (by rw [h]), if_neg (hhead _ htilde), if_neg (hhead _ hbar),
      if_neg (hhead _ hcaret), if_neg (hhead _ hdollar), if_neg (hhead _ hstar), if_neg hopening,
      if_neg hclosing, if_neg fun h => hhash rest (by rw [h]), if_neg fun h => hat rest (by rw [h])]
  all_goals grind

theorem recogniseSign_renameText {before : Option Char} {text : Text}
    (h : ∀ token length, recogniseSign before text = some (token, length) →
      isClear length text = true) :
    recogniseSign before (renameText naming text) = recogniseSign before text := by
  cases text with
  | nil => rfl
  | cons c rest =>
      cases hstart : startsClass (c :: rest) with
      | true =>
          obtain ⟨name, more, hrun, heq⟩ := startsClass_iff.mp hstart
          rw [heq, renameText_run hrun]
          rfl
      | false =>
          rw [renameText_plain hstart]
          by_cases hhash : c = '#'
          · subst hhash
            have hname : nameLength 0 (renameText naming rest) = nameLength 0 rest ∧
                (renameText naming rest).take (nameLength 0 rest) =
                  rest.take (nameLength 0 rest) := by
              by_cases hzero : nameLength 0 rest = 0
              · have hclear : isClear (nameLength 0 rest) rest = true := by
                  rw [hzero]
                  cases rest <;> rfl
                exact ⟨nameLength_renameText hclear, take_renameText_of_isClear hclear⟩
              · have hsign := recogniseSign_cons before '#' rest
                simp only [hzero] at hsign
                have hclear := h _ _ hsign
                rw [isClear_succ] at hclear
                exact ⟨nameLength_renameText hclear.2, take_renameText_of_isClear hclear.2⟩
            rw [recogniseSign_cons, recogniseSign_cons, hname.1, hname.2]
            rfl
          · by_cases hat : c = '@'
            · subst hat
              have hident : identLength (renameText naming rest) = identLength rest := by
                apply identLength_renameText
                intro length hlength
                have hsign := recogniseSign_cons before '@' rest
                rw [hlength] at hsign
                have hclear := h _ _ hsign
                rw [isClear_succ] at hclear
                exact hclear.2
              rw [recogniseSign_cons, recogniseSign_cons, hident]
              rfl
            · rw [recogniseSign_cons, recogniseSign_cons]
              simp only [head?_renameText, hhash, hat, if_false,
                isPrefix_renameText (show '.' ∉ ['!', '-', '-'] by decide) rest,
                isPrefix_renameText (show '.' ∉ ['-', '>'] by decide) rest]

end AddonBundle.Stylesheet
