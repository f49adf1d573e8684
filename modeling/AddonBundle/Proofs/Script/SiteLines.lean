import AddonBundle.Proofs.Lines
import AddonBundle.Proofs.Script.Nested
/-!
# Computed paths and line ends

A carriage return is white space to the scan of an operand, where a line feed ends it. So a computed
path may have another operand in a text whose line ends are made uniform. The first operand that is
read differently is where the searches part. Operands are read alike where every carriage return
stands in front of a line feed and none of them is escaped.
-/

namespace AddonBundle.Script

open Text

/-! ## Operands -/

/-- Every carriage return belongs to the line feed behind it, and none is escaped. -/
def RegularLineEnds (text : Text) : Prop :=
  ∀ before behind, text = before ++ '\r' :: behind →
    behind.head? = some '\n' ∧ before.getLast? ≠ some '\\'

theorem RegularLineEnds.of_append {front back : Text} (h : RegularLineEnds (front ++ back)) :
    RegularLineEnds back := by
  intro before behind hsplit
  obtain ⟨hbehind, hbefore⟩ := h (front ++ before) behind (by rw [hsplit, List.append_assoc])
  refine ⟨hbehind, fun hescape => hbefore ?_⟩
  rw [List.getLast?_append, hescape, Option.some_or]

private theorem endsOperand_asLine (c : Char) (next : Option Char) :
    endsOperand c (next.map asLine) = endsOperand c next := by
  have hnext : ∀ d ∈ ['&', '|', '='], (next.map asLine = some d) = (next = some d) := by
    intro d hd
    have hother : ∀ d ∈ ['&', '|', '='], d ≠ '\r' ∧ d ≠ '\n' := by simp
    cases next with
    | none => rfl
    | some e => simp [asLine_eq_iff (hother d hd).1 (hother d hd).2]
  simp only [endsOperand, hnext _ List.mem_cons_self, hnext '|' (by decide), hnext '=' (by decide)]

/-- A step does not depend on the form of the line end behind it. -/
theorem step_asLine (state : OperandState) (c : Char) (next : Option Char) :
    state.step c (next.map asLine) = state.step c next := by
  cases state with
  | code depth => simp only [OperandState.step, codeStep_eq, endsOperand_asLine]
  | string mark depth => simp only [OperandState.step, codeStep_eq, endsOperand_asLine]
  | escaped mark depth => rfl

theorem stops_uniformLines {text : Text} (hhead : ∀ c ∈ text.head?, isBlank c = false) :
    Stops (uniformLines text) ↔ Stops text := by
  cases text with
  | nil => rfl
  | cons c rest =>
      rw [uniformLines_cons_of_ne rest (ne_return_of_isBlank (hhead c rfl)), stops_cons, stops_cons, head?_uniformLines,
        endsOperand_asLine]

theorem head?_uniformLines_isBlank {text : Text} (hhead : ∀ c ∈ text.head?, isBlank c = false) :
    ∀ c ∈ (uniformLines text).head?, isBlank c = false := by
  intro c hc
  rw [head?_uniformLines] at hc
  obtain ⟨d, hd, rfl⟩ := Option.map_eq_some_iff.mp hc
  rw [asLine_of_ne (ne_return_of_isBlank (hhead d hd))]
  exact hhead d hd

/-- Whether there is an operand does not depend on the form of line ends. -/
theorem operand_uniformLines_eq_nil_iff {text : Text} (hhead : ∀ c ∈ text.head?, isBlank c = false) :
    operand (uniformLines text) = [] ↔ operand text = [] := by
  rw [operand_eq_nil_iff (head?_uniformLines_isBlank hhead), operand_eq_nil_iff hhead,
    uniformLines_eq_nil, stops_uniformLines hhead]

/-- Two texts are the same up to line ends and white space behind them. -/
private def Same (lines text : Text) : Prop :=
  trimEnd lines = uniformLines (trimEnd text)

private theorem Same.append {lines text front : Text} (h : Same lines text)
    (hparts : uniformLines (front ++ trimEnd text) = uniformLines front ++ uniformLines (trimEnd text)) :
    Same (uniformLines front ++ lines) (front ++ text) := by
  calc trimEnd (uniformLines front ++ lines)
      = trimEnd (uniformLines front ++ trimEnd lines) := (trimEnd_append_trimEnd _ _).symm
    _ = trimEnd (uniformLines (front ++ trimEnd text)) := by rw [h, hparts]
    _ = uniformLines (trimEnd (front ++ text)) := by
        rw [trimEnd_uniformLines, trimEnd_append_trimEnd]

/-- What a character does to the scan. -/
inductive OperandState.Step (c : Char) : OperandState → OperandState → Prop where
  | code {depth : Nat} {state : OperandState} (h : CodeStep depth c state) :
      Step c (.code depth) state
  | escape {mark : Char} {depth : Nat} (hc : c = '\\') :
      Step c (.string mark depth) (.escaped mark depth)
  | mark {mark : Char} {depth : Nat} (hc : c = mark) : Step c (.string mark depth) (.code depth)
  | lineEnd {mark : Char} {depth : Nat} {state : OperandState} (hc : c = '\n')
      (hmark : mark ≠ backquote) (h : CodeStep depth c state) : Step c (.string mark depth) state
  | inside {mark : Char} {depth : Nat} (hescape : c ≠ '\\') (hmark : c ≠ mark) :
      Step c (.string mark depth) (.string mark depth)
  | escaped {mark : Char} {depth : Nat} : Step c (.escaped mark depth) (.string mark depth)

theorem OperandState.Step.of_eq_some {state state' : OperandState} {c : Char} {next : Option Char}
    (h : state.step c next = some state') : Step c state state' := by
  cases state with
  | code depth => exact .code (.of_eq_some h)
  | string mark depth =>
      rw [OperandState.step] at h
      split at h
      · cases h
        exact .escape ‹_›
      · split at h
        · cases h
          exact .mark ‹_›
        · split at h
          · rename_i hends
            simp only [Bool.and_eq_true, decide_eq_true_eq] at hends
            exact .lineEnd hends.1 hends.2 (.of_eq_some h)
          · cases h
            exact .inside ‹_› ‹_›
  | escaped mark depth =>
      cases h
      exact .escaped

/-- The state in which a scan is of a string has one of the marks of strings. -/
def OperandState.IsMarked : OperandState → Prop
  | .code _ => True
  | .string mark _ => isMark mark = true
  | .escaped mark _ => isMark mark = true

theorem OperandState.CodeStep.isMarked {depth : Nat} {c : Char} {state : OperandState}
    (h : CodeStep depth c state) : state.IsMarked := by
  cases h with
  | literal hmark => exact hmark
  | opening _ => trivial
  | closing _ _ => trivial
  | plain _ _ _ => trivial

theorem OperandState.IsMarked.step {state state' : OperandState} (h : state.IsMarked) {c : Char}
    {next : Option Char} (hstep : state.step c next = some state') : state'.IsMarked := by
  cases Step.of_eq_some hstep with
  | code hcode => exact hcode.isMarked
  | escape _ => exact h
  | mark _ => trivial
  | lineEnd _ _ hcode => exact hcode.isMarked
  | inside _ _ => exact h
  | escaped => exact h

/-- A carriage return is passed without a change of state, unless it is escaped. -/
theorem step_return {state : OperandState} (h : state.IsMarked)
    (hescaped : ∀ mark depth, state ≠ .escaped mark depth) (next : Option Char) :
    state.step '\r' next = some state := by
  cases state with
  | code depth => simp [OperandState.step, codeStep_eq, isMark, isQuote, isOpening, isClosing,
      endsOperand, backquote]
  | string mark depth =>
      have hmark : '\r' ≠ mark := by
        rintro rfl
        have hnone : isMark '\r' = true := h
        exact absurd hnone (by decide)
      simp [OperandState.step, hmark]
  | escaped mark depth => exact absurd rfl (hescaped mark depth)

/-- Only a backslash escapes. -/
theorem eq_backslash_of_step {state : OperandState} {c mark : Char} {next : Option Char}
    {depth : Nat} (h : state.step c next = some (.escaped mark depth)) : c = '\\' := by
  cases OperandState.Step.of_eq_some h with
  | code hcode => cases hcode
  | escape hc => exact hc
  | lineEnd _ _ hcode => cases hcode

private theorem same_operandFrom {state : OperandState} (hmarked : state.IsMarked) {text : Text}
    (h : RegularLineEnds text)
    (hescaped : ∀ mark depth, state = .escaped mark depth → text.head? ≠ some '\r') :
    Same (operandFrom state (uniformLines text)) (operandFrom state text) := by
  induction text using lines_induction generalizing state with
  | nil => rfl
  | crlf rest ih =>
      have hpassed := step_return hmarked (fun mark depth heq => hescaped mark depth heq rfl)
        ('\n' :: rest).head?
      have hnext := step_asLine state '\n' rest.head?
      rw [← head?_uniformLines] at hnext
      rw [uniformLines_crlf, operandFrom_of_step hpassed]
      cases hstep : state.step '\n' rest.head? with
      | none =>
          rw [operandFrom_of_step_none hstep, operandFrom_of_step_none (hnext.trans hstep)]
          rfl
      | some state' =>
          rw [operandFrom_of_step hstep, operandFrom_of_step (hnext.trans hstep)]
          have hbehind : RegularLineEnds (['\r', '\n'] ++ rest) := h
          have hrest := ih (hmarked.step hstep) hbehind.of_append fun mark depth heq =>
            absurd (eq_backslash_of_step (heq ▸ hstep)) (by decide)
          exact @Same.append _ _ ['\r', '\n'] hrest rfl
  | cons c rest hc ih =>
      have hne : c ≠ '\r' := by
        rintro rfl
        exact hc rfl (h [] rest rfl).1
      have hnext := step_asLine state c rest.head?
      rw [← head?_uniformLines] at hnext
      rw [uniformLines_cons_of_ne rest hne]
      cases hstep : state.step c rest.head? with
      | none =>
          rw [operandFrom_of_step_none hstep, operandFrom_of_step_none (hnext.trans hstep)]
          rfl
      | some state' =>
          rw [operandFrom_of_step hstep, operandFrom_of_step (hnext.trans hstep)]
          have hbehind : RegularLineEnds ([c] ++ rest) := h
          have hrest := ih (hmarked.step hstep) hbehind.of_append fun mark depth heq hhead => by
            -- the carriage return would be escaped
            obtain ⟨more, rfl⟩ := List.head?_eq_some_iff.mp hhead
            obtain rfl := eq_backslash_of_step (heq ▸ hstep)
            exact (h ['\\'] more rfl).2 rfl
          have hfront : uniformLines [c] = [c] := uniformLines_cons_of_ne [] hne
          have hsame := @Same.append _ _ [c] hrest
            (by rw [hfront]; exact uniformLines_cons_of_ne _ hne)
          rwa [hfront] at hsame

/-- With regular line ends an operand is read alike. -/
theorem operand_uniformLines {text : Text} (h : RegularLineEnds text) :
    operand (uniformLines text) = uniformLines (operand text) :=
  @same_operandFrom (.code 0) trivial text h (by simp)

/-! ## Computed paths -/

theorem isLead_uniformLines {root : PathRoot} {lead : Text} :
    root.IsLead (uniformLines lead) ↔ root.IsLead lead := by
  have hroot : '\r' ∉ root.text ∧ '\n' ∉ root.text := by
    cases root <;> decide
  constructor
  · rintro ⟨before, behind, hbefore, hbehind, hlead⟩
    rw [List.append_assoc] at hlead
    obtain ⟨rest, rfl, hrest⟩ := exists_of_uniformLines_append_plain hroot.2 hlead
    obtain ⟨before', rest', rfl, rfl, hplus⟩ := exists_of_uniformLines_append hrest
    rw [← List.singleton_append] at hplus
    obtain ⟨behind', rfl, rfl⟩ := exists_of_uniformLines_append_plain (by decide) hplus
    exact ⟨before', behind', isBlankText_uniformLines.mp hbefore, isBlankText_uniformLines.mp hbehind,
      by simp⟩
  · rintro ⟨before, behind, hbefore, hbehind, rfl⟩
    refine ⟨uniformLines before, uniformLines behind, isBlankText_uniformLines.mpr hbefore,
      isBlankText_uniformLines.mpr hbehind, ?_⟩
    rw [List.append_assoc, uniformLines_append_plain _ hroot.1, uniformLines_append (by simp),
      uniformLines_cons_of_ne _ (by decide), List.append_assoc]

theorem uniformLines_append_head {front back : Text} (h : ∀ c ∈ back.head?, isBlank c = false) :
    uniformLines (front ++ back) = uniformLines front ++ uniformLines back :=
  uniformLines_append fun _ hfeed => absurd (h _ hfeed) (by decide)

/-- Where a computed path is read from in the uniform text. -/
theorem recogniseSite_uniformLines (before : Option Char) {root : PathRoot} {lead rest : Text}
    (hlead : root.IsLead lead) (hhead : ∀ c ∈ rest.head?, isBlank c = false) :
    recogniseSite before (uniformLines (lead ++ rest)) =
      some (⟨root, operand (uniformLines rest)⟩,
        (uniformLines lead ++ operand (uniformLines rest)).length) := by
  rw [uniformLines_append_head hhead]
  exact recogniseSite_eq before (isLead_uniformLines.mpr hlead) (head?_uniformLines_isBlank hhead)

theorem recogniseSite_uniformLines_eq_none {before : Option Char} {text : Text}
    (h : recogniseSite before text = none) : recogniseSite before (uniformLines text) = none := by
  rw [Option.eq_none_iff_forall_ne_some]
  rintro ⟨site, length⟩ hlines
  obtain ⟨lead, front, back, hlead, -, -, htext, -⟩ := recogniseSite_eq_some.mp hlines
  obtain ⟨lead', rest, rfl, rfl, -⟩ := exists_of_uniformLines_append htext
  exact recogniseSite_ne_none rest (isLead_uniformLines.mp hlead) h

/-- A computed path starts a text, and has no operand. -/
def lacksOperand (text : Text) : Bool :=
  (recogniseSite none text).any fun found => found.1.operand.isEmpty

theorem pathSites_eq_findAll (text : Text) :
    pathSites text = findAll (omitting lacksOperand recogniseSite) text := by
  rw [findAll_omitting]
  · refine List.filter_congr fun found hfound => ?_
    obtain ⟨front, back, length, rfl, -, hstart, hrec⟩ := recognised_of_mem_findAll hfound
    rw [ignoresBefore_site _ none] at hrec
    rw [← hstart, List.drop_left, lacksOperand, hrec, Option.any_some]
  · intro before text site length hrec
    have hstarts := recogniseSite_eq_some.mp hrec
    refine ⟨hstarts.length_bounds.1, hstarts.length_bounds.2, fun hlacks i hpos hi before' => ?_⟩
    rw [Option.eq_none_iff_forall_ne_some]
    rintro ⟨other, length'⟩ hother
    have hoperand : site.operand = [] := by
      rw [lacksOperand, ignoresBefore_site none before, hrec, Option.any_some] at hlacks
      simpa using hlacks
    have hzero := hstarts.not_inside (recogniseSite_eq_some.mp hother)
      (by rw [hoperand, List.length_nil]; exact hi)
    omega

/-- A computed path with uniform line ends. -/
def PathExpression.uniform (site : PathExpression) : PathExpression :=
  { site with operand := uniformLines site.operand }

theorem omitting_lacksOperand {before : Option Char} {text : Text} {site : PathExpression}
    {length : Nat} :
    omitting lacksOperand recogniseSite before text = some (site, length) ↔
      recogniseSite before text = some (site, length) ∧ site.operand ≠ [] := by
  rw [omitting, lacksOperand, ignoresBefore_site none before]
  cases recogniseSite before text with
  | none => simp
  | some result =>
      rw [Option.any_some, Option.ite_none_left_eq_some, and_comm]
      refine and_congr_right fun h => ?_
      rw [Option.some.inj h]
      simp

/-- A computed path starts with a lead, and the operand is what is read behind it. -/
theorem recogniseSite_operand {before : Option Char} {text : Text} {site : PathExpression}
    {length : Nat} (h : recogniseSite before text = some (site, length)) :
    ∃ lead rest, site.root.IsLead lead ∧ (∀ c ∈ rest.head?, isBlank c = false) ∧
      text = lead ++ rest ∧ site.operand = operand rest ∧
      length = (lead ++ operand rest).length := by
  obtain ⟨lead, front, back, hlead, hhead, hoperand, rfl, hvalue, hlength⟩ :=
    recogniseSite_eq_some.mp h
  rw [← operand_append hoperand] at hvalue
  exact ⟨lead, front ++ back, hlead, hhead, rfl, hvalue, hvalue ▸ hlength⟩

theorem follows_site :
    Follows (omitting lacksOperand recogniseSite) (omitting lacksOperand recogniseSite)
      PathExpression.uniform where
  none := by
    intro before text hnone
    rw [Option.eq_none_iff_forall_ne_some] at hnone ⊢
    rintro ⟨site, length⟩ hlines
    obtain ⟨hlines, hoperand⟩ := omitting_lacksOperand.mp hlines
    cases hrec : recogniseSite before text with
    | none =>
        rw [ignoresBefore_site _ before, recogniseSite_uniformLines_eq_none hrec] at hlines
        cases hlines
    | some result =>
        obtain ⟨lead, rest, hlead, hhead, rfl, hvalue, -⟩ := recogniseSite_operand hrec
        rw [recogniseSite_uniformLines _ hlead hhead, Option.some.injEq, Prod.mk.injEq] at hlines
        rw [← hlines.1, Ne, operand_uniformLines_eq_nil_iff hhead, ← hvalue] at hoperand
        exact hnone result (omitting_lacksOperand.mpr ⟨hrec, hoperand⟩)
  some := by
    intro before text site length hsome
    obtain ⟨hrec, hoperand⟩ := omitting_lacksOperand.mp hsome
    obtain ⟨lead, rest, hlead, hhead, rfl, hvalue, rfl⟩ := recogniseSite_operand hrec
    rw [hvalue] at hoperand
    obtain ⟨behind, hbehind⟩ := operand_isPrefix rest
    have hstart : ∀ c ∈ (operand rest).head?, isBlank c = false := by
      rwa [← hbehind, List.head?_append_of_ne_nil _ hoperand] at hhead
    have hlines := recogniseSite_uniformLines (before.map asLine) hlead hhead
    obtain ⟨tail, hcons, -⟩ := hlead.eq_cons
    refine ⟨lead ++ operand rest, behind, ?_, rfl, ⟨'a', ?_, by decide⟩, ?_, _, _,
      omitting_lacksOperand.mpr ⟨hlines, ?_⟩, ?_⟩
    · rw [List.append_assoc, hbehind]
    · rw [hcons]
      rfl
    · rw [List.getLast?_append_of_ne_nil _ hoperand]
      exact fun hlast => ne_return_of_isBlank (getLast?_trimEnd _ _ hlast) rfl
    · rwa [Ne, operand_uniformLines_eq_nil_iff hhead]
    · intro hsame
      have hread : operand (uniformLines rest) = uniformLines site.operand :=
        congrArg PathExpression.operand hsame
      rw [hread, hvalue, uniformLines_append_head hstart]

/-- The operand of a computed path is the same, up to line ends, in the uniform text. -/
def ReadsAlike (text : Text) (site : Found PathExpression) : Prop :=
  operand (uniformLines (text.drop (site.stop - site.value.operand.length))) =
    uniformLines site.value.operand

/-- Where the operand of a computed path is read. -/
theorem drop_operand {text : Text} {site : Found PathExpression} (h : site ∈ pathSites text) :
    ∃ lead rest, site.value.root.IsLead lead ∧ (∀ c ∈ rest.head?, isBlank c = false) ∧
      text.drop site.start = lead ++ rest ∧ site.value.operand = operand rest ∧
      text.drop (site.stop - site.value.operand.length) = rest := by
  obtain ⟨-, hrise, -, hstarts⟩ := starts_of_mem_pathSites h
  have hrec : recogniseSite none (text.drop site.start) =
      some (site.value, site.stop - site.start) := recogniseSite_eq_some.mpr hstarts
  obtain ⟨lead, rest, hlead, hhead, htext, hvalue, hlength⟩ := recogniseSite_operand hrec
  have hplace : site.stop - site.value.operand.length = site.start + lead.length := by
    rw [List.length_append, ← hvalue] at hlength
    omega
  refine ⟨lead, rest, hlead, hhead, htext, hvalue, ?_⟩
  rw [hplace, ← List.drop_drop, htext, List.drop_left]

theorem alike_iff {text : Text} {site : Found PathExpression} (h : site ∈ pathSites text) :
    Alike (omitting lacksOperand recogniseSite) PathExpression.uniform text site ↔
      ReadsAlike text site := by
  obtain ⟨lead, rest, hlead, hhead, htext, hvalue, hrest⟩ := drop_operand h
  have hoperand := (starts_of_mem_pathSites h).1
  rw [Alike, ReadsAlike, htext, hrest]
  constructor
  · rintro ⟨length, hlines⟩
    have hrec := (omitting_lacksOperand.mp hlines).1
    rw [recogniseSite_uniformLines _ hlead hhead, Option.some.injEq, Prod.mk.injEq] at hrec
    exact congrArg PathExpression.operand hrec.1
  · intro hread
    have hsame : (⟨site.value.root, operand (uniformLines rest)⟩ : PathExpression) =
        site.value.uniform := by
      rw [hread, PathExpression.uniform]
    refine ⟨_, omitting_lacksOperand.mpr ⟨hsame ▸ recogniseSite_uniformLines _ hlead hhead, ?_⟩⟩
    exact mt uniformLines_eq_nil.mp hoperand

/-- In the uniform text the same computed paths are found exactly when all operands are read
alike. -/
theorem pathSites_uniformLines_iff (text : Text) :
    (pathSites (uniformLines text)).map (·.value) =
      (pathSites text).map (fun site => site.value.uniform) ↔
    ∀ site ∈ pathSites text, ReadsAlike text site := by
  have hiff := values_findAll_iff follows_site text
  rw [← pathSites_eq_findAll, ← pathSites_eq_findAll] at hiff
  rw [hiff]
  exact forall₂_congr fun site hsite => alike_iff hsite

theorem readsAlike_of_regular {text : Text} (h : RegularLineEnds text) {site : Found PathExpression}
    (hsite : site ∈ pathSites text) : ReadsAlike text site := by
  obtain ⟨lead, rest, -, -, -, hvalue, hrest⟩ := drop_operand hsite
  have hregular : RegularLineEnds rest := by
    rw [← List.take_append_drop (site.stop - site.value.operand.length) text, hrest] at h
    exact h.of_append
  rw [ReadsAlike, hrest, hvalue]
  exact operand_uniformLines hregular

end AddonBundle.Script
