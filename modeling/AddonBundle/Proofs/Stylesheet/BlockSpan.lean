import AddonBundle.Proofs.Span
import AddonBundle.Proofs.Text
import AddonBundle.Stylesheet.Block
/-!
# Where blocks stand

The blocks of a stylesheet are found again with the offsets of their braces. A character stands in
a block exactly when more braces have been opened in front of it than closed, where braces in
strings do not count, and closing braces only while a block is open.
-/

namespace AddonBundle.Stylesheet

open Text

/-! ## Offsets -/

/-- A block by its offsets: where its prelude starts, and where its braces stand. A block that is
not closed has its closing brace behind the end. -/
structure BlockSpan where
  start : Nat
  opening : Nat
  closing : Nat
deriving Repr, DecidableEq

mutual

/-- The blocks of a text at an offset, outside all of them. -/
def spansOutside (quoting : Quoting) (start pos : Nat) : Text → List BlockSpan
  | [] => []
  | c :: rest =>
    if quoting.isStructure c && c = ';' then spansOutside .bare (pos + 1) (pos + 1) rest
    else if quoting.isStructure c && c = '\x7b' then spansInside .bare 0 start pos (pos + 1) rest
    else spansOutside (quoting.step c) start (pos + 1) rest

/-- The blocks of a text at an offset, inside the one that starts and opens at the offsets given
and under a number of nested braces. -/
def spansInside (quoting : Quoting) (nested start opening pos : Nat) : Text → List BlockSpan
  | [] => [⟨start, opening, pos⟩]
  | c :: rest =>
    if quoting.isStructure c && c = '\x7b' then
      spansInside .bare (nested + 1) start opening (pos + 1) rest
    else if quoting.isStructure c && c = '\x7d' then
      match nested with
      | 0 => ⟨start, opening, pos⟩ :: spansOutside .bare (pos + 1) (pos + 1) rest
      | nested + 1 => spansInside .bare nested start opening (pos + 1) rest
    else spansInside (quoting.step c) nested start opening (pos + 1) rest

end

/-- The blocks at the top level of a stylesheet with their offsets, in order. -/
def blockSpans (text : Text) : List BlockSpan :=
  spansOutside .bare 0 0 text

/-- What stands between the offsets of a block. -/
def BlockSpan.block (text : Text) (span : BlockSpan) : Block :=
  ⟨trim (slice text span.start span.opening), slice text (span.opening + 1) span.closing⟩

private theorem block_eq {text before start body rest : Text}
    (htext : text = before ++ start.reverse ++ '\x7b' :: (body.reverse ++ rest)) :
    (⟨trim start.reverse, body.reverse⟩ : Block) =
      BlockSpan.block text ⟨before.length, before.length + start.length,
        before.length + start.length + 1 + body.length⟩ := by
  have hprelude := slice_append_append before start.reverse ('\x7b' :: (body.reverse ++ rest))
  have hbody := slice_append_append (before ++ start.reverse ++ ['\x7b']) body.reverse rest
  rw [← htext, List.length_reverse] at hprelude
  rw [List.append_assoc, List.append_assoc, List.singleton_append, ← htext] at hbody
  simp only [List.length_append, List.length_reverse, List.length_singleton] at hbody
  rw [BlockSpan.block, hprelude, hbody]

private theorem blocksFrom_eq (text rest : Text) :
    (∀ (quoting : Quoting) (before start : Text), text = before ++ start.reverse ++ rest →
      blocksOutside quoting start rest =
        (spansOutside quoting before.length (before.length + start.length) rest).map
          (BlockSpan.block text)) ∧
    ∀ (quoting : Quoting) (nested : Nat) (before start body : Text),
      text = before ++ start.reverse ++ '\x7b' :: (body.reverse ++ rest) →
      blocksInside quoting nested start body rest =
        (spansInside quoting nested before.length (before.length + start.length)
          (before.length + start.length + 1 + body.length) rest).map (BlockSpan.block text) := by
  induction rest with
  | nil =>
      refine ⟨fun _ _ _ _ => by simp [blocksOutside, spansOutside], ?_⟩
      intro quoting nested before start body htext
      rw [blocksInside, spansInside, List.map_singleton, block_eq htext]
  | cons c rest ih =>
      obtain ⟨ihOutside, ihInside⟩ := ih
      constructor
      · intro quoting before start htext
        rw [blocksOutside, spansOutside]
        split
        · have hnext := ihOutside .bare (before ++ start.reverse ++ [c]) [] (by simp [htext])
          simpa [Nat.add_assoc] using hnext
        · split
          · rename_i hopen
            obtain rfl : c = '\x7b' := by simp_all
            exact ihInside .bare 0 before start [] (by simp [htext])
          · exact ihOutside (quoting.step c) before (c :: start) (by simp [htext])
      · intro quoting nested before start body htext
        have hgoes : ∀ (quoting : Quoting) (nested : Nat), _ := fun quoting nested =>
          ihInside quoting nested before start (c :: body) (by simp [htext])
        rw [List.length_cons, ← Nat.add_assoc] at hgoes
        rw [blocksInside.eq_def, spansInside.eq_def]
        dsimp only
        split
        · exact hgoes .bare (nested + 1)
        · split
          · cases nested with
            | zero =>
                have hnext := ihOutside .bare
                  (before ++ start.reverse ++ '\x7b' :: body.reverse ++ [c]) [] (by simp [htext])
                rw [List.map_cons, block_eq htext]
                simpa [Nat.add_assoc, Nat.add_comm 1] using hnext
            | succ nested => exact hgoes .bare nested
          · exact hgoes (quoting.step c) nested

/-- The blocks are those that stand between the offsets. -/
theorem blocks_eq_map_spans (text : Text) :
    blocks text = (blockSpans text).map (BlockSpan.block text) :=
  (blocksFrom_eq text text).1 .bare [] [] rfl

/-! ## Characters in blocks -/

/-- An offset lies between the braces of a block. -/
def Encloses (text : Text) (pos : Nat) : Prop :=
  ∃ span ∈ blockSpans text, span.opening < pos ∧ pos < span.closing

instance (text : Text) (pos : Nat) : Decidable (Encloses text pos) :=
  inferInstanceAs (Decidable (∃ span ∈ blockSpans text, span.opening < pos ∧ pos < span.closing))

/-- Where a scan for blocks stands: with regard to strings, and inside how many braces. -/
structure Level where
  quoting : Quoting
  nested : Nat
deriving Repr, DecidableEq

/-- The level behind a character. Outside all blocks a closing brace has no meaning. -/
def Level.step (level : Level) (c : Char) : Level :=
  ⟨level.quoting.step c,
    if level.quoting.isStructure c && c = '\x7b' then level.nested + 1
    else if level.quoting.isStructure c && c = '\x7d' then level.nested - 1
    else level.nested⟩

/-- The level behind a text. -/
def levelBehind (level : Level) (text : Text) : Level :=
  text.foldl Level.step level

/-- Where a stylesheet starts. -/
def Level.top : Level := ⟨.bare, 0⟩

theorem Quoting.step_of_isStructure {quoting : Quoting} {c : Char}
    (h : quoting.isStructure c = true) : quoting.step c = .bare := by
  rw [Quoting.isStructure, Bool.and_eq_true] at h
  exact of_decide_eq_true h.2

namespace Level

variable {quoting : Quoting} {nested : Nat} {c : Char}

theorem step_of_opening (h : (quoting.isStructure c && c = '\x7b') = true) :
    Level.step ⟨quoting, nested⟩ c = ⟨.bare, nested + 1⟩ := by
  rw [Level.step, if_pos h]
  rw [Bool.and_eq_true] at h
  rw [Quoting.step_of_isStructure h.1]

theorem step_of_closing (h : (quoting.isStructure c && c = '\x7d') = true) :
    Level.step ⟨quoting, nested⟩ c = ⟨.bare, nested - 1⟩ := by
  rw [Bool.and_eq_true, decide_eq_true_eq] at h
  obtain ⟨hstructure, rfl⟩ := h
  simp [Level.step, Quoting.step_of_isStructure hstructure, hstructure]

theorem step_of_not (hopen : ¬ (quoting.isStructure c && c = '\x7b') = true)
    (hclose : ¬ (quoting.isStructure c && c = '\x7d') = true) :
    Level.step ⟨quoting, nested⟩ c = ⟨quoting.step c, nested⟩ := by
  rw [Level.step, if_neg hopen, if_neg hclose]

/-- Outside all blocks only an opening brace matters. -/
theorem step_of_top (hopen : ¬ (quoting.isStructure c && c = '\x7b') = true) :
    Level.step ⟨quoting, 0⟩ c = ⟨quoting.step c, 0⟩ := by
  rw [Level.step, if_neg hopen]
  simp

end Level

private theorem le_opening (text : Text) :
    (∀ (quoting : Quoting) (start pos : Nat), ∀ span ∈ spansOutside quoting start pos text,
      pos ≤ span.opening) ∧
    ∀ (quoting : Quoting) (nested start opening pos : Nat), ∃ closing more,
      spansInside quoting nested start opening pos text = ⟨start, opening, closing⟩ :: more ∧
        pos ≤ closing ∧ ∀ span ∈ more, pos ≤ span.opening := by
  induction text with
  | nil => exact ⟨by simp [spansOutside], fun _ _ _ _ pos => ⟨pos, [], rfl, Nat.le_refl _, by simp⟩⟩
  | cons c rest ih =>
      obtain ⟨ihOutside, ihInside⟩ := ih
      constructor
      · intro quoting start pos span hspan
        rw [spansOutside] at hspan
        split at hspan
        · exact Nat.le_of_succ_le (ihOutside _ _ _ span hspan)
        · split at hspan
          · obtain ⟨closing, more, heq, -, hmore⟩ := ihInside .bare 0 start pos (pos + 1)
            rw [heq] at hspan
            rcases List.mem_cons.mp hspan with rfl | hspan
            · exact Nat.le_refl _
            · exact Nat.le_of_succ_le (hmore span hspan)
          · exact Nat.le_of_succ_le (ihOutside _ _ _ span hspan)
      · intro quoting nested start opening pos
        have hgoes : ∀ (quoting : Quoting) (nested : Nat), ∃ closing more,
            spansInside quoting nested start opening (pos + 1) rest =
              ⟨start, opening, closing⟩ :: more ∧
            pos ≤ closing ∧ ∀ span ∈ more, pos ≤ span.opening := by
          intro quoting nested
          obtain ⟨closing, more, heq, hclosing, hmore⟩ :=
            ihInside quoting nested start opening (pos + 1)
          exact ⟨closing, more, heq, Nat.le_of_succ_le hclosing,
            fun span hspan => Nat.le_of_succ_le (hmore span hspan)⟩
        rw [spansInside.eq_def]
        dsimp only
        split
        · exact hgoes _ _
        · split
          · cases nested with
            | zero =>
                exact ⟨pos, _, rfl, Nat.le_refl _,
                  fun span hspan => Nat.le_of_succ_le (ihOutside _ _ _ span hspan)⟩
            | succ nested => exact hgoes _ _
          · exact hgoes _ _

/-- The first character of a text stands in no block that opens in it, and in the one that is open
when it is no closing brace. -/
private theorem encloses_head {c : Char} (hc : c ≠ '\x7d') (rest : Text) :
    (∀ (quoting : Quoting) (start pos : Nat), ¬ ∃ span ∈ spansOutside quoting start pos (c :: rest),
      span.opening < pos ∧ pos < span.closing) ∧
    ∀ (quoting : Quoting) (nested start opening pos : Nat), opening < pos →
      ∃ span ∈ spansInside quoting nested start opening pos (c :: rest),
        span.opening < pos ∧ pos < span.closing := by
  obtain ⟨houtside, -⟩ := le_opening (c :: rest)
  obtain ⟨-, hinside⟩ := le_opening rest
  constructor
  · rintro quoting start pos ⟨span, hspan, hopening, -⟩
    exact absurd (houtside quoting start pos span hspan) (Nat.not_le_of_lt hopening)
  · intro quoting nested start opening pos hopening
    have hgoes : ∀ (quoting : Quoting) (nested : Nat),
        ∃ span ∈ spansInside quoting nested start opening (pos + 1) rest,
          span.opening < pos ∧ pos < span.closing := by
      intro quoting nested
      obtain ⟨closing, more, heq, hclosing, -⟩ := hinside quoting nested start opening (pos + 1)
      rw [heq]
      exact ⟨_, List.mem_cons_self, hopening, hclosing⟩
    rw [spansInside.eq_def]
    simp only [hc, decide_false, Bool.and_false, Bool.false_eq_true, if_false]
    split
    · exact hgoes _ _
    · exact hgoes _ _

private theorem exists_enclosing_iff {c : Char} {rest : Text} (hc : c ≠ '\x7d') (front : Text) :
    (∀ (quoting : Quoting) (start pos : Nat),
      (∃ span ∈ spansOutside quoting start pos (front ++ c :: rest),
        span.opening < pos + front.length ∧ pos + front.length < span.closing) ↔
      (levelBehind ⟨quoting, 0⟩ front).nested ≠ 0) ∧
    ∀ (quoting : Quoting) (nested start opening pos : Nat), opening < pos →
      ((∃ span ∈ spansInside quoting nested start opening pos (front ++ c :: rest),
        span.opening < pos + front.length ∧ pos + front.length < span.closing) ↔
      (levelBehind ⟨quoting, nested + 1⟩ front).nested ≠ 0) := by
  induction front with
  | nil =>
      obtain ⟨houtside, hinside⟩ := encloses_head hc rest
      refine ⟨fun quoting start pos => iff_of_false (houtside quoting start pos) ?_,
        fun quoting nested start opening pos hopening =>
          iff_of_true (hinside quoting nested start opening pos hopening) ?_⟩
      · simp [levelBehind]
      · simp [levelBehind]
  | cons d front ih =>
      obtain ⟨ihOutside, ihInside⟩ := ih
      have hlength : ∀ pos, pos + (d :: front).length = pos + 1 + front.length := by
        intro pos
        rw [List.length_cons]
        omega
      have hbehind : ∀ level, levelBehind level (d :: front) = levelBehind (level.step d) front :=
        fun _ => rfl
      constructor
      · intro quoting start pos
        rw [List.cons_append, spansOutside, hlength, hbehind]
        split
        · rename_i hsemicolon
          rw [Bool.and_eq_true, decide_eq_true_eq] at hsemicolon
          obtain ⟨hstructure, rfl⟩ := hsemicolon
          rw [Level.step_of_top (by simp), Quoting.step_of_isStructure hstructure]
          exact ihOutside _ _ _
        · split
          · rename_i hopen
            rw [Level.step_of_opening hopen]
            exact ihInside _ _ _ _ _ (Nat.lt_succ_self pos)
          · rename_i hopen
            rw [Level.step_of_top hopen]
            exact ihOutside _ _ _
      · intro quoting nested start opening pos hopening
        rw [List.cons_append, spansInside.eq_def, hlength, hbehind]
        dsimp only
        split
        · rename_i hopen
          rw [Level.step_of_opening hopen]
          exact ihInside _ _ _ _ _ (Nat.lt_succ_of_lt hopening)
        · rename_i hopen
          split
          · rename_i hclose
            rw [Level.step_of_closing hclose]
            cases nested with
            | zero =>
                refine Iff.trans ?_ (ihOutside .bare (pos + 1) (pos + 1))
                dsimp only
                rw [List.exists_mem_cons_iff]
                exact or_iff_right fun hhead => absurd hhead.2 (by dsimp only; omega)
            | succ nested => exact ihInside _ _ _ _ _ (Nat.lt_succ_of_lt hopening)
          · rename_i hclose
            rw [Level.step_of_not hopen hclose]
            exact ihInside _ _ _ _ _ (Nat.lt_succ_of_lt hopening)

/-- A character other than a closing brace stands in a block exactly when the scan has opened
braces in front of it that are not closed. -/
theorem encloses_iff {front : Text} {c : Char} {rest : Text} (hc : c ≠ '\x7d') :
    Encloses (front ++ c :: rest) front.length ↔ (levelBehind .top front).nested ≠ 0 := by
  have hspans := (@exists_enclosing_iff c rest hc front).1 .bare 0 0
  rwa [Nat.zero_add] at hspans

end AddonBundle.Stylesheet
