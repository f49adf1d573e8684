import AddonBundle.Proofs.Script.Load
/-!
# How far an operand reaches

The operand of a computed path is read piece by piece: string and template literals as a whole,
brackets by their depth. It ends at the first place at depth zero, outside literals, in front of
something that it cannot hold, or else with the text. This determines the operand, and it is what
the scan of characters finds.
-/

namespace AddonBundle.Script

open Text

/-! ## Literals -/

/-- The marks of literals: of plain strings, and of templates. -/
def isMark (c : Char) : Bool :=
  isQuote c || c = backquote

/-- What is left of a literal behind its mark, in front of a text. A literal ends with its mark,
before a line end unless it is a template, or with the text, where a backslash may stand alone. -/
inductive LiteralRest (mark : Char) : Text → Text → Prop where
  | mark (back : Text) : LiteralRest mark [mark] back
  | lineEnd (back : Text) (hmark : mark ≠ backquote) : LiteralRest mark [] ('\n' :: back)
  | unclosed : LiteralRest mark [] []
  | backslash : LiteralRest mark ['\\'] []
  | escape (c : Char) {rest back : Text} (h : LiteralRest mark rest back) :
      LiteralRest mark ('\\' :: c :: rest) back
  | char {c : Char} {rest back : Text} (hmark : c ≠ mark) (hescape : c ≠ '\\')
      (hline : c = '\n' → mark = backquote) (h : LiteralRest mark rest back) :
      LiteralRest mark (c :: rest) back

theorem isMark_iff {c : Char} : isMark c = true ↔ c = '"' ∨ c = '\'' ∨ c = backquote := by
  rw [isMark, isQuote, Bool.or_eq_true, Bool.or_eq_true, or_assoc]
  simp only [decide_eq_true_eq]

theorem isMark_of_isQuote {c : Char} (h : isQuote c = true) : isMark c = true := by
  rw [isMark, h, Bool.true_or]

theorem isBlank_of_isQuote {c : Char} (h : isQuote c = true) : isBlank c = false := by
  simp only [isQuote, Bool.or_eq_true, decide_eq_true_eq] at h
  rcases h with rfl | rfl <;> decide

theorem isQuote_of_isBlank {c : Char} (h : isBlank c = true) : isQuote c = false := by
  by_contra hquote
  rw [isBlank_of_isQuote (by simpa using hquote)] at h
  cases h

private theorem ne_of_isMark {mark c : Char} (hmark : isMark mark = true)
    (hc : isMark c = false) : mark ≠ c := by
  rintro rfl
  rw [hmark] at hc
  cases hc

/-- Behind its mark a literal takes some of the text. -/
theorem exists_literalRest (mark : Char) (text : Text) :
    ∃ rest back, text = rest ++ back ∧ LiteralRest mark rest back := by
  -- a backslash takes two characters
  induction text using behind_induction with
  | nil => exact ⟨[], [], rfl, .unclosed⟩
  | cons c text ih =>
      by_cases hmark : c = mark
      · exact ⟨[c], text, rfl, hmark ▸ .mark text⟩
      · by_cases hescape : c = '\\'
        · subst hescape
          cases text with
          | nil => exact ⟨['\\'], [], rfl, .backslash⟩
          | cons d text =>
              obtain ⟨rest, back, rfl, hrest⟩ := ih ['\\', d] text (List.cons_ne_nil _ _) rfl
              exact ⟨'\\' :: d :: rest, back, rfl, .escape d hrest⟩
        · by_cases hline : c = '\n' → mark = backquote
          · obtain ⟨rest, back, rfl, hrest⟩ := ih [c] text (List.cons_ne_nil _ _) rfl
            exact ⟨c :: rest, back, rfl, .char hmark hescape hline hrest⟩
          · obtain ⟨rfl, htemplate⟩ := Classical.not_imp.mp hline
            exact ⟨[], '\n' :: text, rfl, .lineEnd text htemplate⟩

/-- Characters without a meaning of their own, up to the mark. -/
theorem literalRest_plain {mark : Char} {inside : Text} (back : Text)
    (h : ∀ c ∈ inside, c ≠ mark ∧ c ≠ '\\' ∧ c ≠ '\n') :
    LiteralRest mark (inside ++ [mark]) back := by
  induction inside with
  | nil => exact .mark back
  | cons c inside ih =>
      obtain ⟨hmark, hescape, hline⟩ := h c List.mem_cons_self
      exact .char hmark hescape (fun heq => absurd heq hline)
        (ih fun d hd => h d (List.mem_cons_of_mem _ hd))

theorem operandFrom_of_step {state state' : OperandState} {c : Char} {rest : Text}
    (h : state.step c rest.head? = some state') :
    operandFrom state (c :: rest) = c :: operandFrom state' rest := by
  rw [operandFrom, h]

theorem operandFrom_of_step_none {state : OperandState} {c : Char} {rest : Text}
    (h : state.step c rest.head? = none) : operandFrom state (c :: rest) = [] := by
  rw [operandFrom, h]

/-- The scan goes through a literal, whatever it holds. -/
theorem operandFrom_literal {mark : Char} {rest back : Text} (depth : Nat)
    (hmark : isMark mark = true) (h : LiteralRest mark rest back) :
    operandFrom (.string mark depth) (rest ++ back) =
      rest ++ operandFrom (.code depth) back := by
  have hbackslash : mark ≠ '\\' := ne_of_isMark hmark (by decide)
  have hnewline : mark ≠ '\n' := ne_of_isMark hmark (by decide)
  induction h with
  | mark back => simp [operandFrom, OperandState.step, hbackslash]
  | lineEnd back htemplate =>
      simp [operandFrom, OperandState.step, hnewline.symm, htemplate]
  | unclosed => rfl
  | backslash => simp [operandFrom, OperandState.step]
  | escape c _ ih => simp [operandFrom, OperandState.step, ih]
  | @char c rest back hother hescape hline _ ih =>
      have hgoes : ¬ (c = '\n' ∧ mark ≠ backquote) := fun hends => hends.2 (hline hends.1)
      have hstep : (OperandState.string mark depth).step c (rest ++ back).head? =
          some (.string mark depth) := by
        simp [OperandState.step, hescape, hother, hgoes]
      rw [List.cons_append, operandFrom_of_step hstep, ih, List.cons_append]

/-- An operand that starts with a quoted string begins with all of it. -/
theorem literal_prefix_operand {quote : Char} {inside : Text} (rest : Text)
    (hquote : isQuote quote = true) (h : ∀ c ∈ inside, c ≠ quote ∧ c ≠ '\\' ∧ c ≠ '\n') :
    quote :: (inside ++ [quote]) <+: operand (quote :: (inside ++ [quote] ++ rest)) := by
  have hstep : (OperandState.code 0).step quote (inside ++ [quote] ++ rest).head? =
      some (.string quote 0) := by
    simp only [isQuote, Bool.or_eq_true, decide_eq_true_eq] at hquote
    rcases hquote with rfl | rfl <;> rfl
  have hscan : operandFrom (.code 0) (quote :: (inside ++ [quote] ++ rest)) =
      quote :: (inside ++ [quote]) ++ operandFrom (.code 0) rest := by
    rw [operandFrom_of_step hstep,
      operandFrom_literal 0 (isMark_of_isQuote hquote) (literalRest_plain rest h)]
    rfl
  rw [operand, hscan]
  refine prefix_trimEnd _ fun c hc => ?_
  rw [← List.cons_append, List.getLast?_concat] at hc
  rw [← Option.some.inj hc]
  exact isBlank_of_isQuote hquote

/-! ## What an operand cannot hold -/

def isOpening (c : Char) : Bool :=
  c = '(' || c = '[' || c = '\x7b'

def isClosing (c : Char) : Bool :=
  c = ')' || c = ']' || c = '\x7d'

/-- What an operand ends in front of at depth zero: closing brackets, separators, line ends, and
operators that bind less tightly than a plus sign. -/
def stops : List Text :=
  [[')'], [']'], ['\x7d'], [';'], [','], ['?'], [':'], ['\n'], ['&', '&'], ['|', '|'], ['?', '?'],
    ['=', '='], ['!', '=']]

/-- An operand ends in front of this text at depth zero. -/
def Stops (text : Text) : Prop :=
  ∃ stop ∈ stops, stop <+: text

theorem stops_cons (c : Char) (rest : Text) :
    Stops (c :: rest) ↔ isClosing c = true ∨ endsOperand c rest.head? = true := by
  have hnext : ∀ d, [d] <+: rest ↔ rest.head? = some d := by
    intro d
    cases rest with
    | nil => simp
    | cons e rest => simp [List.cons_prefix_cons, eq_comm]
  simp only [Stops, stops, List.mem_cons, List.not_mem_nil, or_false, exists_eq_or_imp,
    exists_eq_left, List.cons_prefix_cons, List.nil_prefix, and_true, hnext, isClosing,
    endsOperand, Bool.or_eq_true, Bool.and_eq_true, decide_eq_true_eq]
  grind

theorem codeStep_eq (depth : Nat) (c : Char) (next : Option Char) :
    OperandState.codeStep depth c next =
      if isMark c then some (.string c depth)
      else if isOpening c then some (.code (depth + 1))
      else if isClosing c then if depth = 0 then none else some (.code (depth - 1))
      else if depth = 0 && endsOperand c next then none
      else some (.code depth) := by
  simp only [OperandState.codeStep, isMark, isQuote, isOpening, isClosing, Bool.or_eq_true,
    decide_eq_true_eq, or_assoc]

theorem isMark_of_isOpening {c : Char} (h : isOpening c = true) : isMark c = false := by
  simp only [isOpening, Bool.or_eq_true, decide_eq_true_eq] at h
  rcases h with (rfl | rfl) | rfl <;> decide

theorem isMark_of_isClosing {c : Char} (h : isClosing c = true) :
    isMark c = false ∧ isOpening c = false := by
  simp only [isClosing, Bool.or_eq_true, decide_eq_true_eq] at h
  rcases h with (rfl | rfl) | rfl <;> decide

theorem endsOperand_of_structure {c : Char} (next : Option Char)
    (h : isMark c = true ∨ isOpening c = true) : isClosing c = false ∧ endsOperand c next = false := by
  simp only [isMark_iff, isOpening, Bool.or_eq_true, decide_eq_true_eq] at h
  rcases h with (rfl | rfl | rfl) | (rfl | rfl) | rfl <;> simp [isClosing, endsOperand, backquote]

/-- What a character of code does to the scan. -/
inductive OperandState.CodeStep (depth : Nat) (c : Char) : OperandState → Prop where
  | literal (hmark : isMark c = true) : CodeStep depth c (.string c depth)
  | opening (hopening : isOpening c = true) : CodeStep depth c (.code (depth + 1))
  | closing {depth' : Nat} (hclosing : isClosing c = true) (hdepth : depth = depth' + 1) :
      CodeStep depth c (.code depth')
  | plain (hmark : isMark c = false) (hopening : isOpening c = false)
      (hclosing : isClosing c = false) : CodeStep depth c (.code depth)

theorem OperandState.CodeStep.of_eq_some {depth : Nat} {c : Char} {next : Option Char}
    {state : OperandState} (h : OperandState.codeStep depth c next = some state) :
    CodeStep depth c state := by
  rw [codeStep_eq] at h
  split at h
  · cases h
    exact .literal ‹_›
  · split at h
    · cases h
      exact .opening ‹_›
    · split at h
      · cases depth with
        | zero => cases h
        | succ depth =>
            cases h
            exact .closing ‹_› rfl
      · split at h
        · cases h
        · cases h
          exact .plain (by simp_all) (by simp_all) (by simp_all)

/-- In code the scan ends exactly at depth zero in front of what an operand cannot hold. -/
theorem codeStep_eq_none {depth : Nat} {c : Char} {rest : Text} :
    OperandState.codeStep depth c rest.head? = none ↔ depth = 0 ∧ Stops (c :: rest) := by
  rw [codeStep_eq, stops_cons]
  by_cases hmark : isMark c = true
  · simp [hmark, endsOperand_of_structure rest.head? (.inl hmark)]
  · by_cases hopening : isOpening c = true
    · simp [hmark, hopening, endsOperand_of_structure rest.head? (.inr hopening)]
    · by_cases hclosing : isClosing c = true
      · simp [hmark, hopening, hclosing]
      · simp [hmark, hopening, hclosing]

theorem operandFrom_of_stops {text : Text} (h : text = [] ∨ Stops text) :
    operandFrom (.code 0) text = [] := by
  cases text with
  | nil => rfl
  | cons c rest =>
      have hstops := h.resolve_left (List.cons_ne_nil c rest)
      exact operandFrom_of_step_none (codeStep_eq_none.mpr ⟨rfl, hstops⟩)

/-! ## Reading an operand piece by piece -/

/-- From a bracket depth on, a text is read up to what is behind it, with its literals as a whole,
to the depth there. -/
inductive Reads : Nat → Text → Text → Nat → Prop where
  | done (depth : Nat) (back : Text) : Reads depth [] back depth
  | literal {mark : Char} {rest front back : Text} {depth depth' : Nat} (hmark : isMark mark = true)
      (hrest : LiteralRest mark rest (front ++ back)) (h : Reads depth front back depth') :
      Reads depth (mark :: (rest ++ front)) back depth'
  | opening {c : Char} {front back : Text} {depth depth' : Nat} (hc : isOpening c = true)
      (h : Reads (depth + 1) front back depth') : Reads depth (c :: front) back depth'
  | closing {c : Char} {front back : Text} {depth depth' : Nat} (hc : isClosing c = true)
      (h : Reads depth front back depth') : Reads (depth + 1) (c :: front) back depth'
  | plain {c : Char} {front back : Text} {depth depth' : Nat} (hmark : isMark c = false)
      (hopening : isOpening c = false) (hclosing : isClosing c = false)
      (h : Reads depth front back depth') : Reads depth (c :: front) back depth'

/-- A text is an operand in front of what is behind it: it is read to the first place at depth zero
that an operand ends in front of, or to the end. -/
structure IsOperand (front back : Text) : Prop where
  ends : ∃ depth, Reads 0 front back depth ∧ (back = [] ∨ depth = 0 ∧ Stops back)
  first : ∀ before behind, front = before ++ behind → behind ≠ [] →
    Reads 0 before (behind ++ back) 0 → ¬ Stops (behind ++ back)

/-- As long as the scan does not end before, it goes the way of the reading. -/
theorem operandFrom_of_reads {front back : Text} {depth depth' : Nat}
    (h : Reads depth front back depth')
    (hscan : front <+: operandFrom (.code depth) (front ++ back)) :
    operandFrom (.code depth) (front ++ back) = front ++ operandFrom (.code depth') back := by
  induction h with
  | done => rfl
  | @literal mark rest front back depth depth' hmark hrest _ ih =>
      have hstep : (OperandState.code depth).step mark (rest ++ front ++ back).head? =
          some (.string mark depth) := by
        rw [OperandState.step, codeStep_eq, if_pos hmark]
      rw [List.append_assoc] at hstep
      rw [List.cons_append, List.append_assoc, operandFrom_of_step hstep,
        operandFrom_literal depth hmark hrest] at hscan ⊢
      rw [List.cons_prefix_cons, List.prefix_append_right_inj] at hscan
      rw [ih hscan.2, List.cons_append, List.append_assoc]
  | @opening c front back depth depth' hc _ ih =>
      have hstep : (OperandState.code depth).step c (front ++ back).head? =
          some (.code (depth + 1)) := by
        rw [OperandState.step, codeStep_eq, isMark_of_isOpening hc]
        simp [hc]
      rw [List.cons_append, operandFrom_of_step hstep] at hscan ⊢
      rw [ih (List.cons_prefix_cons.mp hscan).2, List.cons_append]
  | @closing c front back depth depth' hc _ ih =>
      have hstep : (OperandState.code (depth + 1)).step c (front ++ back).head? =
          some (.code depth) := by
        rw [OperandState.step, codeStep_eq, (isMark_of_isClosing hc).1, (isMark_of_isClosing hc).2]
        simp [hc]
      rw [List.cons_append, operandFrom_of_step hstep] at hscan ⊢
      rw [ih (List.cons_prefix_cons.mp hscan).2, List.cons_append]
  | @plain c front back depth depth' hmark hopening hclosing _ ih =>
      cases hstep : (OperandState.code depth).step c (front ++ back).head? with
      | none =>
          rw [List.cons_append, operandFrom_of_step_none hstep] at hscan
          exact absurd hscan (by simp)
      | some state =>
          have hstate : state = .code depth := by
            rw [OperandState.step, codeStep_eq, hmark, hopening, hclosing] at hstep
            simp only [Bool.false_eq_true, if_false] at hstep
            split at hstep
            · cases hstep
            · exact (Option.some.inj hstep).symm
          rw [hstate] at hstep
          rw [List.cons_append, operandFrom_of_step hstep] at hscan ⊢
          rw [ih (List.cons_prefix_cons.mp hscan).2, List.cons_append]

/-- What the scan finds is read piece by piece. -/
theorem exists_reads (depth : Nat) (text : Text) :
    ∃ back depth', text = operandFrom (.code depth) text ++ back ∧
      Reads depth (operandFrom (.code depth) text) back depth' ∧
      (back = [] ∨ depth' = 0 ∧ Stops back) := by
  -- a literal is passed in one step
  induction text using behind_induction generalizing depth with
  | nil => exact ⟨[], depth, rfl, .done depth [], .inl rfl⟩
  | cons c text ih =>
      cases hstep : (OperandState.code depth).step c text.head? with
      | none =>
          rw [operandFrom_of_step_none hstep]
          exact ⟨c :: text, depth, rfl, .done depth _, .inr (codeStep_eq_none.mp hstep)⟩
      | some state =>
          rw [operandFrom_of_step hstep]
          have hrest := ih [c] text (List.cons_ne_nil _ _) rfl
          cases OperandState.CodeStep.of_eq_some hstep with
          | literal hmark =>
              obtain ⟨rest, behind, rfl, hliteral⟩ := exists_literalRest c text
              obtain ⟨back, depth', htext, hreads, hends⟩ :=
                ih (c :: rest) behind (List.cons_ne_nil _ _) rfl depth
              rw [operandFrom_literal depth hmark hliteral]
              rw [htext] at hliteral
              refine ⟨back, depth', ?_, .literal hmark hliteral hreads, hends⟩
              rw [List.cons_append, List.append_assoc, ← htext]
          | opening hopening =>
              obtain ⟨back, depth', htext, hreads, hends⟩ := hrest (depth + 1)
              exact ⟨back, depth', congrArg (c :: ·) htext, .opening hopening hreads, hends⟩
          | @closing inner hclosing hdepth =>
              subst hdepth
              obtain ⟨back, depth', htext, hreads, hends⟩ := hrest inner
              exact ⟨back, depth', congrArg (c :: ·) htext, .closing hclosing hreads, hends⟩
          | plain hmark hopening hclosing =>
              obtain ⟨back, depth', htext, hreads, hends⟩ := hrest depth
              exact ⟨back, depth', congrArg (c :: ·) htext,
                .plain hmark hopening hclosing hreads, hends⟩

/-- The scan finds the operand, and there is no other. -/
theorem isOperand_iff (front back : Text) :
    IsOperand front back ↔ operandFrom (.code 0) (front ++ back) = front := by
  obtain ⟨rest, depth, htext, hreads, hends⟩ := exists_reads 0 (front ++ back)
  constructor
  · intro h
    obtain ⟨depth', hfront, hstop⟩ := h.ends
    rcases List.prefix_or_prefix_of_prefix (List.prefix_append front back) ⟨rest, htext.symm⟩ with
      hlong | ⟨more, hmore⟩
    · rw [operandFrom_of_reads hfront hlong]
      rcases hstop with rfl | ⟨rfl, hstop⟩
      · exact List.append_nil front
      · rw [operandFrom_of_stops (.inr hstop), List.append_nil]
    · generalize operandFrom (.code 0) (front ++ back) = scanned at htext hreads hmore ⊢
      subst hmore
      by_cases hnone : more = []
      · rw [hnone, List.append_nil]
      · -- the scan has ended in front of something that the operand ends in front of
        rw [List.append_assoc] at htext
        obtain rfl : more ++ back = rest := List.append_cancel_left htext
        obtain ⟨rfl, hstop⟩ := hends.resolve_left (by simp [hnone])
        exact absurd hstop (h.first scanned more rfl hnone hreads)
  · intro h
    rw [h] at htext hreads
    obtain rfl : back = rest := List.append_cancel_left htext
    refine ⟨⟨depth, hreads, hends⟩, ?_⟩
    rintro before behind rfl hbehind hbefore hstop
    rw [List.append_assoc] at h
    have hscan := operandFrom_of_reads hbefore (h ▸ List.prefix_append before behind)
    rw [h, operandFrom_of_stops (.inr hstop)] at hscan
    exact hbehind (List.append_cancel_left hscan)

/-- The operand at the start of a text, less the white space at its end. -/
theorem operand_append {front back : Text} (h : IsOperand front back) :
    operand (front ++ back) = trimEnd front := by
  rw [operand, (isOperand_iff front back).mp h]

theorem exists_isOperand (text : Text) : ∃ front back, text = front ++ back ∧ IsOperand front back := by
  obtain ⟨back, htext⟩ := operandFrom_isPrefix (.code 0) text
  exact ⟨_, back, htext.symm, (isOperand_iff _ back).mpr (by rw [htext])⟩

end AddonBundle.Script
