import AddonBundle.Proofs.Stylesheet.Lexeme
/-!
# Balanced texts

What may stand in a statement, a prelude, a value or a body: strings that are closed on their line,
and between them characters of a kind, or a kind of brackets that close in turn. The scans for
blocks and for segments read such a text to its end, whatever the strings and brackets enclose.
-/

namespace AddonBundle.Stylesheet

open Text

/-! ## Grammar -/

/-- Strings that are closed on their line, and between them characters of a kind. -/
inductive HasOnly (passes : Char → Prop) : Text → Prop
  | nil : HasOnly passes []
  | char {c : Char} {rest : Text} (hmark : isMark c = false) (hc : passes c)
    (h : HasOnly passes rest) : HasOnly passes (c :: rest)
  | string (string : Text) {rest : Text} (hstring : IsString string) (h : HasOnly passes rest) :
    HasOnly passes (string ++ rest)

/-- Strings that are closed on their line, and between them brackets that are balanced. Outside the
brackets there are characters of a kind, and inside them also all others. -/
inductive IsBalanced (opening closing : Char) : (Char → Prop) → Text → Prop
  | nil {passes : Char → Prop} : IsBalanced opening closing passes []
  | char {passes : Char → Prop} {c : Char} {rest : Text} (hmark : isMark c = false)
    (hopening : c ≠ opening) (hclosing : c ≠ closing) (hc : passes c)
    (h : IsBalanced opening closing passes rest) : IsBalanced opening closing passes (c :: rest)
  | string {passes : Char → Prop} (string : Text) {rest : Text} (hstring : IsString string)
    (h : IsBalanced opening closing passes rest) :
    IsBalanced opening closing passes (string ++ rest)
  | group {passes : Char → Prop} {inner rest : Text}
    (hinner : IsBalanced opening closing (fun _ => True) inner)
    (h : IsBalanced opening closing passes rest) :
    IsBalanced opening closing passes (opening :: (inner ++ closing :: rest))

/-- Strings are closed, and outside them no statement ends and no block opens. -/
def IsHead (text : Text) : Prop :=
  HasOnly (fun c => c ≠ ';' ∧ c ≠ '\x7b') text

/-- Strings are closed, and curly brackets are balanced outside them. -/
def IsBody (text : Text) : Prop :=
  IsBalanced '\x7b' '\x7d' (fun _ => True) text

/-- Characters at which a body may be split. -/
def splitters : List Char := [';', '\x7b', '\x7d']

/-- Strings are closed, round brackets are balanced outside them, and outside both there is nothing
at which a body may be split. -/
def IsPart (text : Text) : Prop :=
  IsBalanced '(' ')' (· ∉ splitters) text

/-- Strings are closed, round brackets are balanced outside them, and outside both no declaration
ends and no block opens. -/
def IsPrelude (text : Text) : Prop :=
  IsBalanced '(' ')' (fun c => c ≠ ';' ∧ c ≠ '\x7b') text

theorem hasOnly_of_all {passes : Char → Prop} (text : Text)
    (h : ∀ c ∈ text, isMark c = false ∧ passes c) : HasOnly passes text := by
  induction text with
  | nil => exact .nil
  | cons c rest ih =>
      rw [List.forall_mem_cons] at h
      exact .char h.1.1 h.1.2 (ih h.2)

theorem HasOnly.append {passes : Char → Prop} {front back : Text} (hfront : HasOnly passes front)
    (hback : HasOnly passes back) : HasOnly passes (front ++ back) := by
  induction hfront with
  | nil => exact hback
  | char hmark hc _ ih => exact .char hmark hc ih
  | string string hstring _ ih =>
      rw [List.append_assoc]
      exact .string string hstring ih

theorem isBalanced_of_all {opening closing : Char} {passes : Char → Prop} (text : Text)
    (h : ∀ c ∈ text, isMark c = false ∧ c ≠ opening ∧ c ≠ closing ∧ passes c) :
    IsBalanced opening closing passes text := by
  induction text with
  | nil => exact .nil
  | cons c rest ih =>
      rw [List.forall_mem_cons] at h
      obtain ⟨⟨hmark, hopening, hclosing, hc⟩, hrest⟩ := h
      exact .char hmark hopening hclosing hc (ih hrest)

theorem IsBalanced.append {opening closing : Char} {passes : Char → Prop} {front back : Text}
    (hfront : IsBalanced opening closing passes front)
    (hback : IsBalanced opening closing passes back) :
    IsBalanced opening closing passes (front ++ back) := by
  induction hfront with
  | nil => exact hback
  | char hmark hopening hclosing hc _ ih => exact .char hmark hopening hclosing hc (ih hback)
  | string string hstring _ ih =>
      rw [List.append_assoc]
      exact .string string hstring (ih hback)
  | group hinner _ _ ih =>
      rw [List.cons_append, List.append_assoc, List.cons_append]
      exact .group hinner (ih hback)

/-! ## Scanning for blocks -/

theorem blocksOutside_head {text : Text} (h : IsHead text) (start rest : Text) :
    blocksOutside .bare start (text ++ rest) =
      blocksOutside .bare (text.reverse ++ start) rest := by
  induction h generalizing start with
  | nil => rfl
  | char hmark hc _ ih =>
      rw [List.cons_append, blocksOutside, step_of_not_isMark hmark]
      simp only [hc.1, hc.2, decide_false, Bool.and_false, Bool.false_eq_true, if_false]
      rw [ih, List.reverse_cons, List.append_assoc, List.singleton_append]
  | string string hstring _ ih =>
      rw [List.append_assoc, blocksOutside_string hstring, ih, List.reverse_append,
        List.append_assoc]

/-- Balanced brackets leave a scan inside as many braces as before. -/
theorem blocksInside_balanced {passes : Char → Prop} {text : Text}
    (h : IsBalanced '\x7b' '\x7d' passes text) (nested : Nat) (start body rest : Text) :
    blocksInside .bare nested start body (text ++ rest) =
      blocksInside .bare nested start (text.reverse ++ body) rest := by
  induction h generalizing nested body rest with
  | nil => rfl
  | char hmark hopening hclosing _ _ ih =>
      rw [List.cons_append, blocksInside.eq_def]
      simp only [step_of_not_isMark hmark, hopening, hclosing, decide_false, Bool.and_false,
        Bool.false_eq_true, if_false]
      rw [ih, List.reverse_cons, List.append_assoc, List.singleton_append]
  | string string hstring _ ih =>
      rw [List.append_assoc, blocksInside_string hstring, ih, List.reverse_append,
        List.append_assoc]
  | @group passes inner more _ _ ihinner ih =>
      have hopen : ∀ text, blocksInside .bare nested start body ('\x7b' :: text) =
          blocksInside .bare (nested + 1) start ('\x7b' :: body) text := fun _ => rfl
      have hclose : ∀ body text, blocksInside .bare (nested + 1) start body ('\x7d' :: text) =
          blocksInside .bare nested start ('\x7d' :: body) text := fun _ _ => rfl
      rw [List.cons_append, List.append_assoc, List.cons_append, hopen, ihinner, hclose, ih]
      simp

/-! ## Scanning for segments -/

/-- A balanced text is read on in the segment where it starts. Outside all round brackets it has
nothing at which the body is split. -/
theorem segmentsOutside_balanced {passes : Char → Prop} {text : Text}
    (h : IsBalanced '(' ')' passes text) {parens : Nat}
    (hpasses : parens = 0 → ∀ c, passes c → c ∉ splitters) (start rest : Text) :
    segmentsOutside .bare parens start (text ++ rest) =
      segmentsOutside .bare parens (text.reverse ++ start) rest := by
  induction h generalizing parens start rest with
  | nil => rfl
  | @char passes c more hmark hopening hclosing hc _ ih =>
      have hsplit : ∀ d ∈ splitters, (decide (c = d) && decide (parens = 0)) = false := by
        intro d hd
        by_cases hzero : parens = 0
        · have hne : c ≠ d := fun heq => hpasses hzero c hc (heq ▸ hd)
          simp [hne]
        · simp [hzero]
      rw [List.cons_append, segmentsOutside, if_pos (isStructure_of_not_isMark hmark),
        if_neg hopening, if_neg hclosing]
      simp only [hsplit ';' (by decide), hsplit '\x7b' (by decide), hsplit '\x7d' (by decide),
        Bool.false_eq_true, if_false]
      rw [ih hpasses, List.reverse_cons, List.append_assoc, List.singleton_append]
  | string string hstring _ ih =>
      rw [List.append_assoc, segmentsOutside_string hstring, ih hpasses, List.reverse_append,
        List.append_assoc]
  | @group passes inner more _ _ ihinner ih =>
      have hopen : ∀ text, segmentsOutside .bare parens start ('(' :: text) =
          segmentsOutside .bare (parens + 1) ('(' :: start) text := fun _ => rfl
      have hclose : ∀ start text, segmentsOutside .bare (parens + 1) start (')' :: text) =
          segmentsOutside .bare parens (')' :: start) text := fun _ _ => rfl
      rw [List.cons_append, List.append_assoc, List.cons_append, hopen,
        ihinner (fun hzero => absurd hzero (by omega)), hclose, ih hpasses]
      simp

theorem segmentsOutside_part {text : Text} (h : IsPart text) (start rest : Text) :
    segmentsOutside .bare 0 start (text ++ rest) =
      segmentsOutside .bare 0 (text.reverse ++ start) rest :=
  segmentsOutside_balanced h (fun _ _ hc => hc) start rest

/-- A prelude is dropped with its block. A closing brace in it drops what stands before it. -/
theorem segmentsOutside_prelude {passes : Char → Prop} {text : Text}
    (h : IsBalanced '(' ')' passes text) (hpasses : ∀ c, passes c → c ≠ ';' ∧ c ≠ '\x7b')
    (start rest : Text) :
    segmentsOutside .bare 0 start (text ++ '\x7b' :: rest) = segmentsInside .bare 0 rest := by
  induction h generalizing start with
  | nil => rfl
  | @char passes c more hmark hopening hclosing hc _ ih =>
      obtain ⟨hsemicolon, hbrace⟩ := hpasses c hc
      rw [List.cons_append, segmentsOutside, if_pos (isStructure_of_not_isMark hmark),
        if_neg hopening, if_neg hclosing]
      simp only [hsemicolon, hbrace, decide_false, Bool.false_and, Bool.false_eq_true, if_false]
      split
      · exact ih hpasses []
      · exact ih hpasses (c :: start)
  | string string hstring _ ih => rw [List.append_assoc, segmentsOutside_string hstring, ih hpasses]
  | @group passes inner more hinner _ _ ih =>
      have hopen : ∀ text, segmentsOutside .bare 0 start ('(' :: text) =
          segmentsOutside .bare 1 ('(' :: start) text := fun _ => rfl
      have hclose : ∀ start text, segmentsOutside .bare 1 start (')' :: text) =
          segmentsOutside .bare 0 (')' :: start) text := fun _ _ => rfl
      rw [List.cons_append, List.append_assoc, List.cons_append, hopen,
        segmentsOutside_balanced hinner (by simp), hclose, ih hpasses]

theorem segmentsInside_balanced {passes : Char → Prop} {text : Text}
    (h : IsBalanced '\x7b' '\x7d' passes text) (nested : Nat) (rest : Text) :
    segmentsInside .bare nested (text ++ rest) = segmentsInside .bare nested rest := by
  induction h generalizing nested rest with
  | nil => rfl
  | char hmark hopening hclosing _ _ ih =>
      rw [List.cons_append, segmentsInside.eq_def]
      simp only [step_of_not_isMark hmark, hopening, hclosing, decide_false, Bool.and_false,
        Bool.false_eq_true, if_false]
      exact ih nested rest
  | string string hstring _ ih => rw [List.append_assoc, segmentsInside_string hstring, ih]
  | @group passes inner more _ _ ihinner ih =>
      have hopen : ∀ text, segmentsInside .bare nested ('\x7b' :: text) =
          segmentsInside .bare (nested + 1) text := fun _ => rfl
      have hclose : ∀ text, segmentsInside .bare (nested + 1) ('\x7d' :: text) =
          segmentsInside .bare nested text := fun _ => rfl
      rw [List.cons_append, List.append_assoc, List.cons_append, hopen, ihinner, hclose, ih]

end AddonBundle.Stylesheet
