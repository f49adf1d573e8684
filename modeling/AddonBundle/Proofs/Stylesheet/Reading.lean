import AddonBundle.Proofs.Stylesheet.Token
import AddonBundle.Stylesheet.Selector.Reader
/-!
# Reading a renamed selector

Reading looks at the name of a class only to keep it. Renaming names behind points therefore goes
through words, parts and lists of selectors unchanged, and a plain text with its classes renamed is
read as the renamed parts.
-/

namespace AddonBundle.Stylesheet

open Text

variable {naming : Text → Text}

/-! ## Renamed parts -/

/-- A part with a class renamed. -/
def Part.rename (naming : Text → Text) : Part → Part
  | .ofClass name => .ofClass (naming name)
  | part => part

/-- Selectors with each class renamed. -/
def renameSelectors (naming : Text → Text) (selectors : List (List Part)) : List (List Part) :=
  selectors.map (·.map (Part.rename naming))

@[simp] theorem Part.isGap_rename (part : Part) : (part.rename naming).isGap = part.isGap := by
  cases part <;> simp [Part.rename, Part.isGap]

/-! ## Words -/

/-- A word with a class renamed. -/
private def renameWord (naming : Text → Text) : Word → Word
  | .ofClass name => .ofClass (naming name)
  | word => word

/-- Whether a point is the last word. -/
private def endsInPoint (words : List Word) : Bool :=
  words.head? = some (.token (.char '.'))

private theorem ofToken_rename (token : Token) :
    renameWord naming (.ofToken token) = .ofToken token := by
  unfold Word.ofToken
  split <;> rfl

/-- Only a point before a name makes a class. -/
private theorem map_extend {word : Word} (token : Token) (h : word ≠ .token (.char '.')) :
    (word.extend token).map (renameWord naming) = word.extend token := by
  unfold Word.extend
  split <;> simp_all [renameWord] <;> split <;> rfl

private theorem extend_rename (word : Word) (token : Token) :
    (renameWord naming word).extend (renameToken naming (word = .token (.char '.')) token) =
      (word.extend token).map (renameWord naming) := by
  by_cases hpoint : word = .token (.char '.')
  · subst hpoint
    cases token with
    | identifier name => rfl
    | _ => rfl
  · rw [decide_eq_false hpoint, renameToken_false, map_extend token hpoint]
    cases word with
    | ofClass name => rfl
    | _ => rfl

private theorem pushToken_rename (words : List Word) (token : Token) :
    pushToken (words.map (renameWord naming)) (renameToken naming (endsInPoint words) token) =
      (pushToken words token).map (renameWord naming) := by
  cases words with
  | nil =>
      have hfalse : endsInPoint [] = false := rfl
      rw [hfalse, renameToken_false]
      simp only [List.map_nil, pushToken, List.map_cons, ofToken_rename]
  | cons last before =>
      have hpoint : endsInPoint (last :: before) = decide (last = .token (.char '.')) := by
        simp [endsInPoint]
      rw [hpoint, List.map_cons, pushToken, extend_rename, pushToken]
      cases hextend : last.extend token with
      | some word => rfl
      | none =>
          have htoken : renameToken naming (decide (last = .token (.char '.'))) token = token := by
            by_cases hlast : last = .token (.char '.')
            · subst hlast
              apply renameToken_of_ne
              rintro name rfl
              cases hextend
            · rw [decide_eq_false hlast, renameToken_false]
          rw [htoken]
          simp only [Option.map_none, List.map_cons, ofToken_rename]

private theorem ofToken_eq_point (token : Token) :
    Word.ofToken token = .token (.char '.') ↔ token = .char '.' := by
  unfold Word.ofToken
  split <;> simp

private theorem extend_ne_point {word made : Word} {token : Token}
    (h : word.extend token = some made) : made ≠ .token (.char '.') ∧ token ≠ .char '.' := by
  unfold Word.extend at h
  split at h
  case h_6 => split at h <;> (cases h; simp)
  case h_9 =>
    split at h
    · cases h
    · cases h
      simp
  case h_12 => cases h
  all_goals (cases h; simp)

private theorem endsInPoint_pushToken (words : List Word) (token : Token) :
    endsInPoint (pushToken words token) = decide (token = .char '.') := by
  unfold pushToken
  split
  · simp [endsInPoint, ofToken_eq_point]
  · split
    · rename_i hextend
      obtain ⟨hmade, htoken⟩ := extend_ne_point hextend
      simp [endsInPoint, hmade, htoken]
    · simp [endsInPoint, ofToken_eq_point]

private theorem words_rename (tokens : List Token) :
    words (renameTokens naming false tokens) = (words tokens).map (renameWord naming) := by
  have hfold : ∀ before : List Word,
      (renameTokens naming (endsInPoint before) tokens).foldl pushToken
          (before.map (renameWord naming)) =
        (tokens.foldl pushToken before).map (renameWord naming) := by
    induction tokens with
    | nil => intro before; rfl
    | cons token rest ih =>
        intro before
        rw [renameTokens, List.foldl_cons, List.foldl_cons, pushToken_rename,
          ← endsInPoint_pushToken before token, ih]
  have hstart := hfold []
  rw [words, words, List.map_reverse]
  exact congrArg List.reverse hstart

/-! ## Parts -/

private def renameReading (naming : Text → Text) (reading : Reading) : Reading :=
  { reading with parts := reading.parts.map (Part.rename naming) }

namespace Reading

@[simp] private theorem inAttribute_rename (reading : Reading) :
    (renameReading naming reading).inAttribute = reading.inAttribute := by
  cases reading
  rfl

@[simp] private theorem inNegation_rename (reading : Reading) :
    (renameReading naming reading).inNegation = reading.inNegation := by
  cases reading
  rfl

@[simp] private theorem inFunction_rename (reading : Reading) :
    (renameReading naming reading).inFunction = reading.inFunction := by
  cases reading
  rfl

@[simp] private theorem expected_rename (reading : Reading) :
    (renameReading naming reading).expected = reading.expected := by
  cases reading
  rfl

private theorem addTight_rename (reading : Reading) {part : Part} (expected : Expected)
    (h : part.rename naming = part) :
    (renameReading naming reading).addTight part expected =
      renameReading naming (reading.addTight part expected) := by
  obtain ⟨enclosures, wanted, space, parts⟩ := reading
  cases parts with
  | nil => simp [addTight, add, renameReading, h]
  | cons last before =>
      simp only [addTight, renameReading, List.map_cons, Part.isGap_rename]
      split <;> simp [add, h]

private theorem blank_rename (reading : Reading) :
    (renameReading naming reading).blank = renameReading naming reading.blank := by
  unfold blank
  simp only [inFunction_rename, inAttribute_rename, expected_rename]
  by_cases hfunction : reading.inFunction = true
  · rw [if_pos hfunction, if_pos hfunction]
    obtain ⟨enclosures, wanted, space, parts⟩ := reading
    cases parts with
    | nil => rfl
    | cons last before => cases last <;> rfl
  · rw [if_neg hfunction, if_neg hfunction]
    split <;> rfl

private theorem identifier_rename (reading : Reading) (name : Text) :
    (renameReading naming reading).identifier name =
      (reading.identifier name).map (renameReading naming) := by
  simp only [identifier, inAttribute_rename, inNegation_rename, inFunction_rename, expected_rename]
  split_ifs <;> rfl

private theorem string_rename (reading : Reading) (value : Text) :
    (renameReading naming reading).string value =
      (reading.string value).map (renameReading naming) := by
  simp only [string, inAttribute_rename, inFunction_rename, expected_rename]
  split_ifs <;> rfl

private theorem closeBracket_rename (reading : Reading) :
    (renameReading naming reading).closeBracket =
      reading.closeBracket.map (renameReading naming) := by
  have hleave : (renameReading naming reading).leave .closeAttribute .test =
      renameReading naming (reading.leave .closeAttribute .test) := rfl
  simp only [closeBracket, inAttribute_rename, expected_rename, hleave, inNegation_rename]
  split_ifs <;> rfl

private theorem closeParenthesis_rename (reading : Reading) :
    (renameReading naming reading).closeParenthesis =
      reading.closeParenthesis.map (renameReading naming) := by
  obtain ⟨enclosures, wanted, space, parts⟩ := reading
  cases enclosures with
  | nil => rfl
  | cons enclosure outer =>
      cases enclosure with
      | negation => cases wanted <;> rfl
      | function ofElement isSelector => cases isSelector <;> cases wanted <;> rfl
      | _ => rfl

private theorem combinator_rename (reading : Reading) (kind : Combinator) :
    (renameReading naming reading).combinator kind =
      (reading.combinator kind).map (renameReading naming) := by
  have htight : (renameReading naming reading).addTight (.combinator kind) .element = _ :=
    addTight_rename reading .element rfl
  simp only [combinator, expected_rename, htight]
  split_ifs <;> rfl

private theorem char_rename (reading : Reading) (c : Char) :
    (renameReading naming reading).char c = (reading.char c).map (renameReading naming) := by
  have htight : (renameReading naming reading).addTight .plus .argumentRest = _ :=
    addTight_rename reading .argumentRest rfl
  simp only [char, closeBracket_rename, closeParenthesis_rename, inFunction_rename,
    combinator_rename, expected_rename, htight]
  split_ifs <;> rfl

private theorem step_rename (reading : Reading) (word : Word) :
    (renameReading naming reading).step (renameWord naming word) =
      (reading.step word).map (renameReading naming) := by
  cases word with
  | ofClass name =>
      simp only [step, renameWord, expected_rename]
      split_ifs <;> rfl
  | token single =>
      cases single with
      | blank => exact congrArg some (blank_rename reading)
      | identifier name => exact identifier_rename reading name
      | string value => exact string_rename reading value
      | char c => exact char_rename reading c
      | number text =>
          simp only [step, renameWord, inFunction_rename]
          split_ifs <;> rfl
      | hash name =>
          simp only [step, renameWord, expected_rename]
          split_ifs <;> rfl
      | comparison relation =>
          simp only [step, renameWord, inAttribute_rename, expected_rename]
          split_ifs <;> rfl
      | _ => rfl
  | qualifier space =>
      cases space with
      | none => rfl
      | some space =>
          simp only [step, renameWord, inAttribute_rename, expected_rename]
          split_ifs <;> rfl
  | colons => rfl
  | _ =>
      simp only [step, renameWord, expected_rename, inNegation_rename]
      split_ifs <;> rfl

private theorem finish_rename (reading : Reading) :
    (renameReading naming reading).finish =
      reading.finish.map (List.map (Part.rename naming)) := by
  obtain ⟨enclosures, wanted, space, parts⟩ := reading
  cases parts with
  | nil =>
      simp only [finish, renameReading, List.map_nil]
      split <;> rfl
  | cons last before =>
      simp only [finish, renameReading, List.map_cons, Part.isGap_rename]
      split
      · rfl
      · split <;> simp

end Reading

private theorem readSelector_rename (tokens : List Token) :
    readSelector (renameTokens naming false tokens) =
      (readSelector tokens).map (List.map (Part.rename naming)) := by
  have hfold : ∀ (sequence : List Word) (reading : Reading),
      (sequence.map (renameWord naming)).foldlM Reading.step (renameReading naming reading) =
        (sequence.foldlM Reading.step reading).map (renameReading naming) := by
    intro sequence
    induction sequence with
    | nil => intro reading; rfl
    | cons word rest ih =>
        intro reading
        rw [List.map_cons, List.foldlM_cons, List.foldlM_cons, Reading.step_rename]
        cases reading.step word with
        | none => rfl
        | some next => exact ih next
  rw [readSelector, readSelector, words_rename]
  have hread := hfold (words tokens) Reading.start
  have hempty : renameReading naming Reading.start = Reading.start := rfl
  rw [hempty] at hread
  rw [hread]
  cases (words tokens).foldlM Reading.step Reading.start with
  | none => rfl
  | some reading => exact Reading.finish_rename reading

/-! ## Lists and statements -/

private theorem after_rename (depth : Depth) (behindPoint : Bool) (token : Token) :
    depth.after (renameToken naming behindPoint token) = depth.after token := by
  cases token <;> rfl

/-- A cut at other characters than points falls in the same place. -/
private theorem cutAt_rename {ends : Text} (h : '.' ∉ ends) (depth : Depth) (behindPoint : Bool)
    (tokens : List Token) :
    cutAt ends depth (renameTokens naming behindPoint tokens) =
      (renameTokens naming behindPoint (cutAt ends depth tokens).1,
        (cutAt ends depth tokens).2.map fun found => (found.1, renameTokens naming false found.2)) := by
  induction tokens generalizing depth behindPoint with
  | nil => rfl
  | cons token rest ih =>
      have hfurther : ∀ t : Token, (∀ c, t ≠ .char c) → ∀ more : List Token,
          cutAt ends depth (t :: more) = (t :: (cutAt ends (depth.after t) more).1,
            (cutAt ends (depth.after t) more).2) := by
        intro t ht more
        cases t with
        | char c => exact absurd rfl (ht c)
        | _ => rfl
      rw [renameTokens]
      by_cases hchar : ∃ c, token = .char c
      · obtain ⟨c, rfl⟩ := hchar
        have htoken : renameToken naming behindPoint (.char c) = .char c := rfl
        rw [htoken, cutAt, cutAt]
        dsimp only
        split
        · rename_i hend
          have hpoint : c ≠ '.' := by
            rintro rfl
            simp_all
          simp [renameTokens, hpoint]
        · rw [ih]
          rfl
      · have hnot : ∀ c, token ≠ .char c := fun c hc => hchar ⟨c, hc⟩
        have hrenamed : ∀ c, renameToken naming behindPoint token ≠ .char c := by
          intro c hc
          cases token <;> simp_all [renameToken]
        rw [hfurther _ hnot, hfurther _ hrenamed, after_rename, decide_eq_false (hnot '.'), ih]
        simp only [renameTokens, decide_eq_false (hnot '.')]

private theorem length_renameTokens (behindPoint : Bool) (tokens : List Token) :
    (renameTokens naming behindPoint tokens).length = tokens.length := by
  induction tokens generalizing behindPoint with
  | nil => rfl
  | cons token rest ih => rw [renameTokens, List.length_cons, List.length_cons, ih]

private theorem members_rename (bound : Nat) (tokens : List Token) :
    members bound (renameTokens naming false tokens) =
      (members bound tokens).map (renameTokens naming false) := by
  induction bound generalizing tokens with
  | zero => rfl
  | succ more ih =>
      rw [members, members, cutAt_rename (by decide)]
      cases hcut : cutAt [','] Depth.zero tokens with
      | mk member behind =>
          cases behind with
          | none => rfl
          | some found => simp only [Option.map_some, List.map_cons, ih]

private theorem readList_rename (tokens : List Token) :
    readList (renameTokens naming false tokens) =
      (readList tokens).map (renameSelectors naming) := by
  have hmap : ∀ lists : List (List Token),
      (lists.map (renameTokens naming false)).mapM readSelector =
        (lists.mapM readSelector).map (renameSelectors naming) := by
    intro lists
    induction lists with
    | nil => rfl
    | cons first rest ih =>
        rw [List.map_cons, List.mapM_cons, List.mapM_cons, readSelector_rename, ih]
        cases readSelector first with
        | none => rfl
        | some parts =>
            cases rest.mapM readSelector with
            | none => rfl
            | some others => rfl
  rw [readList, readList, length_renameTokens, members_rename, hmap]

private theorem readRule_rename (tokens : List Token) (last : Option Char) :
    readRule (renameTokens naming false tokens) last =
      (readRule tokens last).map (renameSelectors naming) := by
  rw [readRule, readRule, cutAt_rename (by decide)]
  cases hcut : cutAt ['\x7b'] ⟨-1, 0, 0⟩ tokens with
  | mk selectors behind =>
      cases behind with
      | none => rfl
      | some found =>
          simp only [Option.map_some]
          split
          · rfl
          · exact readList_rename selectors

private theorem dropWhile_renameTokens {skip : Token → Bool}
    (h : ∀ token, skip token = true → token ≠ .char '.') (tokens : List Token) :
    (renameTokens naming false tokens).dropWhile skip =
      renameTokens naming false (tokens.dropWhile skip) := by
  induction tokens with
  | nil => rfl
  | cons token rest ih =>
      rw [renameTokens, renameToken_false, List.dropWhile_cons, List.dropWhile_cons]
      split
      · rename_i hskip
        rw [decide_eq_false (h token hskip), ih]
      · rw [renameTokens, renameToken_false]

private theorem firstRule_rename (bound : Nat) (tokens : List Token) :
    firstRule bound (renameTokens naming false tokens) =
      (firstRule bound tokens).map (renameSelectors naming) := by
  induction bound generalizing tokens with
  | zero => rfl
  | succ more ih =>
      have hskip : ∀ token : Token, (token = .blank || token = .hidingMark) = true →
          token ≠ .char '.' := by
        rintro token hskip rfl
        cases hskip
      rw [firstRule, firstRule, dropWhile_renameTokens hskip]
      generalize tokens.dropWhile _ = statement
      cases statement with
      | nil => rfl
      | cons first rest =>
          have hcons : ∀ taken : List Token, first :: renameTokens naming (first = .char '.') taken =
              renameTokens naming false (first :: taken) := by
            intro taken
            rw [renameTokens, renameToken_false]
          rw [renameTokens, renameToken_false]
          dsimp only
          rw [cutAt_rename (by decide)]
          generalize cutAt _ _ rest = cut
          obtain ⟨taken, behind⟩ := cut
          have hlast : (behind.map fun found => (found.1, renameTokens naming false found.2)).map
              (·.1) = behind.map (·.1) := by
            cases behind <;> rfl
          dsimp only
          rw [hlast, hcons, readRule_rename]
          generalize readRule (first :: taken) (behind.map (·.1)) = rule
          by_cases hat : first = .atWord
          · rw [if_pos hat, if_pos hat]
            cases behind with
            | none => rfl
            | some found => exact ih found.2
          · rw [if_neg hat, if_neg hat]
            cases rule with
            | some selectors => rfl
            | none =>
                cases behind with
                | none => rfl
                | some found => exact ih found.2

/-! ## Preludes -/

/-- A prelude with an empty block, as it is read. -/
def withBlock (prelude : Text) : Text :=
  prelude ++ " \x7b\x7d".toList

/-- A text with its classes renamed and an empty block behind it. -/
theorem renameText_withBlock (text : Text) :
    renameText naming (withBlock text) = withBlock (renameText naming text) := by
  have hblock : renameText naming " \x7b\x7d".toList = " \x7b\x7d".toList := rfl
  induction text using classInduction with
  | nil => exact hblock
  | plain c rest hstart ih =>
      have hlonger : startsClass (c :: withBlock rest) = false := by
        by_cases hc : c = '.'
        · subst hc
          cases rest with
          | nil => rfl
          | cons d more => exact hstart
        · exact startsClass_cons_of_ne _ hc
      rw [renameText_plain hstart]
      exact (renameText_plain hlonger).trans (congrArg (c :: ·) ih)
  | run name rest hrun ih =>
      have hlonger : IsRun name (withBlock rest) := by
        refine ⟨hrun.ne_nil, hrun.chars, ?_⟩
        cases rest with
        | nil =>
            intro c hc
            cases hc
            rfl
        | cons d more => exact hrun.stop
      have heq : withBlock ('.' :: (name ++ rest)) = '.' :: (name ++ withBlock rest) := by
        simp [withBlock]
      rw [heq, renameText_run hlonger, renameText_run hrun, ih]
      simp [withBlock]

/-- A plain text with its classes renamed is read as the renamed parts. -/
theorem readSelectors_renameText (hnaming : ∀ name, IsClassName (naming name)) {text : Text}
    (h : IsPlain (withBlock text)) :
    readSelectors (renameText naming text) =
      (readSelectors text).map (renameSelectors naming) := by
  have htokens : tokens (withBlock (renameText naming text)) =
      renameTokens naming false (tokens (withBlock text)) := by
    rw [← renameText_withBlock, tokens_renameText hnaming h]
  have hread : ∀ prelude, readSelectors prelude =
      firstRule ((tokens (withBlock prelude)).length + 1) (tokens (withBlock prelude)) :=
    fun _ => rfl
  rw [hread, hread, htokens, length_renameTokens, firstRule_rename]

end AddonBundle.Stylesheet
