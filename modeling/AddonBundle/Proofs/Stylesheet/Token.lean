import AddonBundle.Proofs.Stylesheet.Lengths
/-!
# Tokens of a renamed text

A token is recognised after renaming as it was before, when no class starts inside it. The name of
a class is one token, so that a text whose classes are exactly the names behind points keeps all
its other tokens when the classes are renamed.
-/

namespace AddonBundle.Stylesheet

open Text

variable {naming : Text → Text} {before : Option Char}

/-! ## Recognising one token -/

private theorem recogniseName_of_some {text : Text} {length : Nat}
    (h : identLength text = some length) :
    recogniseName before text =
      if (text.drop length).head? = some '(' then
        some (.function (decodeCodes (text.take length)), length + 1)
      else some (.identifier (decodeCodes (text.take length)), length) := by
  simp only [recogniseName, h]
  rfl

private theorem recogniseName_of_none {text : Text} (h : identLength text = none) :
    recogniseName before text = none := by
  simp only [recogniseName, h]
  rfl

private theorem recogniseName_renameText {text : Text}
    (h : ∀ token length, recogniseName before text = some (token, length) →
      isClear length text = true) :
    recogniseName before (renameText naming text) = recogniseName before text := by
  have hclear : ∀ length, identLength text = some length → isClear length text = true := by
    intro length hlength
    rw [recogniseName_of_some hlength] at h
    split at h
    · exact isClear_of_le (h _ _ rfl) (Nat.le_succ length)
    · exact h _ _ rfl
  have hrenamed : identLength (renameText naming text) = identLength text :=
    identLength_renameText hclear
  cases hlength : identLength text with
  | none =>
      rw [hlength] at hrenamed
      rw [recogniseName_of_none hrenamed, recogniseName_of_none hlength]
  | some length =>
      rw [hlength] at hrenamed
      have hclear := hclear length hlength
      rw [recogniseName_of_some hrenamed, recogniseName_of_some hlength,
        drop_renameText_of_isClear hclear, head?_renameText, take_renameText_of_isClear hclear]

private theorem recogniseNumber_of_some {text : Text} {length : Nat}
    (h : numberLength text = some length) :
    recogniseNumber before text =
      match identLength (text.drop length) with
      | some unit => some (.number (decodeCodes (text.take (length + unit))), length + unit)
      | none =>
        if (text.drop length).head? = some '%' then some (.foreign, length + 1)
        else some (.number (text.take length), length) := by
  simp only [recogniseNumber, h]
  rfl

private theorem recogniseNumber_of_none {text : Text} (h : numberLength text = none) :
    recogniseNumber before text = none := by
  simp only [recogniseNumber, h]
  rfl

private theorem recogniseNumber_renameText (hnaming : ∀ name, IsClassName (naming name)) {text : Text}
    (h : ∀ token length, recogniseNumber before text = some (token, length) →
      isClear length text = true) :
    recogniseNumber before (renameText naming text) = recogniseNumber before text := by
  have hnumber : numberLength (renameText naming text) = numberLength text := by
    apply numberLength_renameText hnaming
    intro length hlength
    rw [recogniseNumber_of_some hlength] at h
    split at h
    · exact isClear_of_le (h _ _ rfl) (Nat.le_add_right _ _)
    · split at h
      · exact isClear_of_le (h _ _ rfl) (Nat.le_succ length)
      · exact h _ _ rfl
  cases hlength : numberLength text with
  | none =>
      rw [hlength] at hnumber
      rw [recogniseNumber_of_none hnumber, recogniseNumber_of_none hlength]
  | some length =>
      rw [hlength] at hnumber
      rw [recogniseNumber_of_some hlength] at h
      rw [recogniseNumber_of_some hnumber, recogniseNumber_of_some hlength]
      have hclear : isClear length text = true := by
        split at h
        · exact isClear_of_le (h _ _ rfl) (Nat.le_add_right _ _)
        · split at h
          · exact isClear_of_le (h _ _ rfl) (Nat.le_succ length)
          · exact h _ _ rfl
      have hunit : identLength (renameText naming (text.drop length)) =
          identLength (text.drop length) := by
        apply identLength_renameText
        intro unit hunit
        rw [hunit] at h
        exact isClear_drop (h _ _ rfl)
      rw [drop_renameText_of_isClear hclear, hunit, head?_renameText,
        take_renameText_of_isClear hclear]
      cases hcase : identLength (text.drop length) with
      | none => rfl
      | some unit =>
          rw [hcase] at h
          simp only [take_renameText_of_isClear (h _ _ rfl)]

private theorem recogniseString_cons (mark : Char) (rest : Text) :
    recogniseString before (mark :: rest) =
      if isMark mark then
        if (rest.drop (stringLength mark 0 rest)).head? = some mark then
          some (.string (stringValue mark (rest.take (stringLength mark 0 rest))),
            stringLength mark 0 rest + 2)
        else some (.foreign, stringLength mark 0 rest + 1)
      else none := rfl

private theorem recogniseString_renameText {text : Text}
    (h : ∀ token length, recogniseString before text = some (token, length) →
      isClear length text = true) :
    recogniseString before (renameText naming text) = recogniseString before text := by
  cases text with
  | nil => rfl
  | cons mark rest =>
      cases hmark : isMark mark with
      | false =>
          have hhead : (renameText naming (mark :: rest)).head? = some mark := by
            rw [head?_renameText]
            rfl
          obtain ⟨more, hmore⟩ := List.head?_eq_some_iff.mp hhead
          rw [hmore, recogniseString_cons, recogniseString_cons, hmark]
          rfl
      | true =>
          have hpoint : mark ≠ '.' := by
            rintro rfl
            cases hmark
          have hclear : isClear (stringLength mark 0 rest) rest = true := by
            rw [recogniseString_cons, if_pos hmark] at h
            split at h
            · exact (isClear_succ.mp (isClear_of_le (h _ _ rfl) (Nat.le_succ _))).2
            · exact (isClear_succ.mp (h _ _ rfl)).2
          rw [renameText_cons_of_ne rest hpoint, recogniseString_cons, recogniseString_cons,
            stringLength_renameText hmark hclear, drop_renameText_of_isClear hclear,
            head?_renameText, take_renameText_of_isClear hclear]

private theorem recogniseComment_cons (c d : Char) (rest : Text) :
    recogniseComment before (c :: d :: rest) =
      if c = '/' ∧ d = '*' then (fun n => ((), n + 2)) <$> commentRest rest else none := by
  unfold recogniseComment
  split
  · simp_all
  · rename_i hnot
    rw [if_neg]
    rintro ⟨rfl, rfl⟩
    exact hnot rest rfl

private theorem recogniseComment_renameText (hnaming : ∀ name, IsClassName (naming name)) {text : Text}
    (h : ∀ length, recogniseComment before text = some ((), length) →
      isClear length text = true) :
    recogniseComment before (renameText naming text) = recogniseComment before text := by
  by_cases hshape : ['/', '*'] <+: text
  · obtain ⟨rest, rfl⟩ := hshape
    have hrename : renameText naming (['/', '*'] ++ rest) = ['/', '*'] ++ renameText naming rest :=
      renameText_append rest (by decide)
    rw [hrename, List.cons_append, List.cons_append, List.nil_append, List.cons_append,
      List.cons_append, List.nil_append, recogniseComment_cons, recogniseComment_cons,
      commentRest_renameText hnaming]
    intro length hlength
    rw [List.cons_append, List.cons_append, List.nil_append, recogniseComment_cons,
      if_pos ⟨rfl, rfl⟩, hlength] at h
    exact (isClear_succ.mp (isClear_succ.mp (h _ rfl)).2).2
  · have hnone : ∀ t : Text, ¬ ['/', '*'] <+: t → recogniseComment before t = none := by
      intro t ht
      unfold recogniseComment
      split
      · rename_i rest
        exact absurd ⟨rest, rfl⟩ ht
      · rfl
    rw [hnone text hshape, hnone]
    rwa [isPrefix_renameText (by decide)]

private theorem recogniseName_of_codeRange {c : Char} (hc : c = 'u' ∨ c = 'U') (rest : Text) :
    recogniseName before (c :: '+' :: rest) = some (.identifier [c], 1) := by
  have hident : identLength (c :: '+' :: rest) = some 1 := by
    rcases hc with rfl | rfl <;> rfl
  rw [recogniseName_of_some hident]
  rcases hc with rfl | rfl <;> rfl

/-- What stands in front of a text and is neither a name nor an address. -/
private def recogniseOther (before : Option Char) (text : Text) : Option (Option Token × Nat) :=
  match recogniseComment before text with
  | some (_, length) => some (none, length)
  | none =>
    (fun found => (some found.1, found.2)) <$>
      (recogniseString before text <|> recogniseNumber before text <|> recogniseSign before text)

private theorem recogniseOther_renameText (hnaming : ∀ name, IsClassName (naming name)) {text : Text}
    (h : ∀ token length, recogniseOther before text = some (token, length) →
      isClear length text = true) :
    recogniseOther before (renameText naming text) = recogniseOther before text := by
  have hcomment : recogniseComment before (renameText naming text) =
      recogniseComment before text := by
    apply recogniseComment_renameText hnaming
    intro length hlength
    exact h none length (by rw [recogniseOther, hlength])
  unfold recogniseOther at h ⊢
  rw [hcomment]
  split
  · rfl
  · rename_i hnone
    rw [hnone] at h
    have hstring : recogniseString before (renameText naming text) =
        recogniseString before text := by
      apply recogniseString_renameText
      intro token length hfound
      exact h (some token) length (by rw [hfound]; rfl)
    rw [hstring]
    cases hs : recogniseString before text with
    | some found => rfl
    | none =>
        rw [hs] at h
        have hnumber : recogniseNumber before (renameText naming text) =
            recogniseNumber before text := by
          apply recogniseNumber_renameText hnaming
          intro token length hfound
          exact h (some token) length (by rw [hfound]; rfl)
        rw [hnumber]
        cases hn : recogniseNumber before text with
        | some found => rfl
        | none =>
            rw [hn] at h
            have hsign : recogniseSign before (renameText naming text) =
                recogniseSign before text := by
              apply recogniseSign_renameText
              intro token length hfound
              exact h (some token) length (by rw [hfound]; rfl)
            rw [hsign]

/-- A token in which no class starts is recognised after renaming too, and nothing else is. -/
theorem recogniseToken_renameText (hnaming : ∀ name, IsClassName (naming name)) {text : Text}
    (h : ∀ token length, recogniseToken before text = some (token, length) →
      isClear length text = true) :
    recogniseToken before (renameText naming text) = recogniseToken before text := by
  have hgap : (renameText naming text).takeWhile isGap = text.takeWhile isGap :=
    takeWhile_renameText (by decide) text
  unfold recogniseToken at h ⊢
  dsimp only at h ⊢
  rw [hgap]
  split
  · rfl
  · rename_i hzero
    rw [if_neg hzero] at h
    have haddress : addressLength (renameText naming text) = addressLength text := by
      apply addressLength_renameText hnaming
      intro length hlength
      exact h _ length (by rw [hlength])
    rw [haddress, codeRangeLength_renameText]
    cases ha : addressLength text with
    | some length => rfl
    | none =>
        rw [ha] at h
        cases hrange : codeRangeLength text with
        | some length =>
            obtain ⟨c, rest, hc, rfl⟩ := eq_cons_of_codeRangeLength hrange
            have hpoint : '.' ∉ [c, '+'] := by
              rcases hc with rfl | rfl <;> decide
            have hrename : renameText naming ([c, '+'] ++ rest) =
                [c, '+'] ++ renameText naming rest := renameText_append rest hpoint
            rw [List.cons_append, List.cons_append, List.nil_append] at hrename
            rw [hrename, List.cons_append, List.cons_append, List.nil_append,
              recogniseName_of_codeRange hc, recogniseName_of_codeRange hc]
        | none =>
            rw [hrange] at h
            have hname : recogniseName before (renameText naming text) =
                recogniseName before text := by
              apply recogniseName_renameText
              intro token length hfound
              exact h (some token) length (by rw [hfound]; cases token <;> rfl)
            rw [hname]
            cases hn : recogniseName before text with
            | some found =>
                obtain ⟨token, length⟩ := found
                cases token <;> rfl
            | none =>
                rw [hn] at h
                exact recogniseOther_renameText hnaming h

/-! ## The name of a class -/

private theorem nameLength_append {front : Text} (back : Text)
    (h : ∀ c ∈ front, isName c = true) :
    nameLength 0 (front ++ back) = front.length + nameLength 0 back := by
  induction front with
  | nil => simp
  | cons c front ih =>
      have hc : isIdentChar c = true := isIdentChar_of_isName (h c List.mem_cons_self)
      rw [List.cons_append, nameLength, if_pos hc, ih fun d hd => h d (List.mem_cons_of_mem _ hd),
        List.length_cons]
      omega

private theorem decodeCodes_of_isName {text : Text} (h : ∀ c ∈ text, isName c = true) :
    decodeCodes text = text := by
  have hnone : StartsNone recogniseCode text [] := by
    intro before after hsplit hne
    obtain ⟨c, rest, rfl⟩ := List.exists_cons_of_ne_nil hne
    unfold recogniseCode
    split
    · rename_i heq
      have hmem : '\\' ∈ text := by
        rw [hsplit, List.mem_append, (List.cons.inj heq).1]
        exact .inr List.mem_cons_self
      exact absurd (h _ hmem) (by decide)
    · rfl
  rw [decodeCodes, substitute, pieces_eq_plain (fun _ _ _ => rfl) hnone, List.flatMap_map]
  simp

/-- Tokens that are neither names nor blanks nor characters. -/
private def isOther : Token → Bool
  | .string _ | .number _ | .hash _ | .atWord | .comparison _ | .hidingMark | .foreign => true
  | _ => false

private theorem isOther_of_recogniseOther {text : Text} {token : Token} {length : Nat}
    (h : recogniseOther before text = some (some token, length)) : isOther token = true := by
  unfold recogniseOther at h
  split at h
  · cases h
  · rw [Option.map_eq_map, Option.map_eq_some_iff] at h
    obtain ⟨⟨found, length'⟩, hfound, heq⟩ := h
    simp only [Prod.mk.injEq, Option.some.injEq] at heq
    obtain ⟨rfl, rfl⟩ := heq
    rw [Option.orElse_eq_orElse, Option.orElse_eq_or, Option.orElse_eq_or, Option.or_eq_some_iff,
      Option.or_eq_some_iff] at hfound
    rcases hfound with hstring | ⟨-, hnumber | ⟨-, hsign⟩⟩
    · unfold recogniseString at hstring
      split at hstring
      · cases hstring
      · split at hstring
        · dsimp only at hstring
          split at hstring <;> (cases hstring; rfl)
        · cases hstring
    · cases hlength : numberLength text with
      | none =>
          rw [recogniseNumber_of_none hlength] at hnumber
          cases hnumber
      | some length =>
          rw [recogniseNumber_of_some hlength] at hnumber
          split at hnumber
          · cases hnumber
            rfl
          · split at hnumber <;> (cases hnumber; rfl)
    · unfold recogniseSign at hsign
      split at hsign
      case h_9 =>
        dsimp only at hsign
        split at hsign
        · cases hsign
        · cases hsign
          rfl
      case h_10 =>
        rw [Option.map_eq_map, Option.map_eq_some_iff] at hsign
        obtain ⟨length, -, heq⟩ := hsign
        cases heq
        rfl
      case h_11 => cases hsign
      all_goals (cases hsign; rfl)

private theorem isName_of_recogniseName {text : Text} {token : Token} {length : Nat}
    (h : recogniseName before text = some (token, length)) :
    (∃ name, token = .function name) ∨ ∃ name, token = .identifier name := by
  cases hlength : identLength text with
  | none =>
      rw [recogniseName_of_none hlength] at h
      cases h
  | some length =>
      rw [recogniseName_of_some hlength] at h
      split at h
      · cases h
        exact .inl ⟨_, rfl⟩
      · cases h
        exact .inr ⟨_, rfl⟩

/-- A token that is recognised is a name, or neither a name nor a character. -/
private theorem recogniseToken_cases {text : Text} {token : Token} {length : Nat}
    (h : recogniseToken before text = some (some token, length)) :
    recogniseName before text = some (token, length) ∨ token = .blank ∨ isOther token = true := by
  unfold recogniseToken at h
  dsimp only at h
  split at h
  · cases h
    exact .inr (.inl rfl)
  · split at h
    · cases h
      exact .inr (.inr rfl)
    · rename_i hname
      cases h
      exact .inl hname
    · cases h
      exact .inr (.inr rfl)
    · rename_i hname _
      cases h
      exact .inl hname
    · exact .inr (.inr (isOther_of_recogniseOther h))

private theorem ne_char_of_recogniseToken {text : Text} {token : Token} {length : Nat}
    (h : recogniseToken before text = some (some token, length)) (c : Char) : token ≠ .char c := by
  rintro rfl
  rcases recogniseToken_cases h with hname | hblank | hother
  · rcases isName_of_recogniseName hname with ⟨name, heq⟩ | ⟨name, heq⟩ <;> cases heq
  · cases hblank
  · cases hother

/-- What is known where an identifier is recognised. -/
private theorem of_identifier {text value : Text} {length : Nat}
    (h : recogniseToken before text = some (some (.identifier value), length)) :
    identLength text = some length ∧ (text.drop length).head? ≠ some '(' ∧
      value = decodeCodes (text.take length) := by
  have hname : recogniseName before text = some (.identifier value, length) := by
    rcases recogniseToken_cases h with hname | hblank | hother
    · exact hname
    · cases hblank
    · cases hother
  cases hlength : identLength text with
  | none =>
      rw [recogniseName_of_none hlength] at hname
      cases hname
  | some found =>
      rw [recogniseName_of_some hlength] at hname
      split at hname
      · cases hname
      · rename_i hparen
        cases hname
        exact ⟨rfl, hparen, rfl⟩

private theorem nameLength_eq_zero_of_run {name rest : Text} (hrun : IsRun name rest)
    (h : identLength (name ++ rest) = some name.length) : nameLength 0 rest = 0 := by
  simp only [identLength] at h
  generalize ((name ++ rest).takeWhile (· = '-')).length = hyphens at h
  have hsum : hyphens + nameLength 0 ((name ++ rest).drop hyphens) = name.length := by
    split at h
    · cases h
    · rename_i hdrop
      split at h
      · rw [hdrop]
        exact Option.some.inj h
      · cases h
  have hle : hyphens ≤ name.length := by omega
  rw [List.drop_append_of_le_length hle,
    nameLength_append rest fun c hc => hrun.chars c (List.mem_of_mem_drop hc),
    List.length_drop] at hsum
  omega

/-- A name with nothing behind it that would go on is one identifier. -/
private theorem recogniseToken_name {word rest : Text} (hchars : ∀ c ∈ word, isName c = true)
    (hstart : ∃ c more, word = c :: more ∧ isIdentStart c = true) (hlong : 4 ≤ word.length)
    (hparen : rest.head? ≠ some '(') (hstop : nameLength 0 rest = 0) :
    recogniseToken before (word ++ rest) = some (some (.identifier word), word.length) := by
  have haddress : addressLength (word ++ rest) = none := by
    apply addressLength_eq_none
    intro c hc
    rw [List.take_append_of_le_length hlong] at hc
    exact hchars c (List.mem_of_mem_take hc)
  have hrange : codeRangeLength (word ++ rest) = none := by
    rw [← Option.not_isSome_iff_eq_none, Option.isSome_iff_exists]
    rintro ⟨length, hlength⟩
    obtain ⟨c, more, -, heq⟩ := eq_cons_of_codeRangeLength hlength
    have hsecond : word[1]? = some '+' := by
      have hindex : (word ++ rest)[1]? = word[1]? := List.getElem?_append_left (by omega)
      rw [← hindex, heq]
      rfl
    exact absurd (hchars '+' (List.mem_of_getElem? hsecond)) (by decide)
  obtain ⟨c, more, rfl, hc⟩ := hstart
  have hgap : ((c :: more ++ rest).takeWhile isGap).length = 0 := by
    have hnot : isGap c = false := by
      rw [← Bool.not_eq_true]
      simp only [isGap, Bool.or_eq_true, decide_eq_true_eq]
      rintro ((((rfl | rfl) | rfl) | rfl) | rfl) <;> exact absurd hc (by decide)
    simp [hnot]
  have hident : identLength (c :: more ++ rest) = some (c :: more).length := by
    have hhyphen : c ≠ '-' := by
      rintro rfl
      exact absurd hc (by decide)
    have hlength : nameLength 0 (c :: more ++ rest) = (c :: more).length := by
      rw [nameLength_append rest hchars, hstop, Nat.add_zero]
    rw [List.cons_append] at hlength ⊢
    simp only [identLength, List.takeWhile_cons, decide_eq_true_eq, if_neg hhyphen,
      List.length_nil, List.drop_zero, hc, hlength]
    simp
  have hname : recogniseName before (c :: more ++ rest) =
      some (.identifier (c :: more), (c :: more).length) := by
    rw [recogniseName_of_some hident, List.drop_left, if_neg hparen, List.take_left,
      decodeCodes_of_isName hchars]
  unfold recogniseToken
  dsimp only
  rw [if_neg fun hne => hne hgap, haddress, hname, hrange]

/-! ## All tokens -/

/-- The names that stand behind a point among pieces, as written. The first argument says whether
a point stands before. -/
def classTexts : Bool → List (Piece (Option Token)) → List Text
  | _, [] => []
  | _, .plain c :: rest => classTexts (c = '.') rest
  | true, .item (some (.identifier _)) text :: rest => text :: classTexts false rest
  | _, .item _ _ :: rest => classTexts false rest

/-- Whether a piece is a comment. -/
def isComment : Piece (Option Token) → Bool
  | .item none _ => true
  | _ => false

/-- The classes of the text are the names behind points as written, and it has no comments. -/
structure IsPlain (text : Text) : Prop where
  comments : ∀ piece ∈ pieces recogniseToken text, isComment piece = false
  classes : selectorClasses text = classTexts false (pieces recogniseToken text)

/-- A token with the name of a class renamed, when a point stands before. -/
def renameToken (naming : Text → Text) (behindPoint : Bool) : Token → Token
  | .identifier name => .identifier (if behindPoint then naming name else name)
  | token => token

/-- The tokens with each name behind a point renamed. -/
def renameTokens (naming : Text → Text) : Bool → List Token → List Token
  | _, [] => []
  | behindPoint, token :: rest =>
    renameToken naming behindPoint token :: renameTokens naming (token = .char '.') rest

@[simp] theorem renameToken_false (token : Token) : renameToken naming false token = token := by
  cases token <;> rfl

theorem renameToken_of_ne {token : Token} (behindPoint : Bool)
    (h : ∀ name, token ≠ .identifier name) : renameToken naming behindPoint token = token := by
  cases token with
  | identifier name => exact absurd rfl (h name)
  | _ => rfl

private theorem tokens_none {c : Char} {rest : Text} (h : recogniseToken none (c :: rest) = none) :
    tokens (c :: rest) = .char c :: tokens rest := by
  rw [tokens, pieces_cons_plain (fun _ _ _ => rfl) h]
  rfl

private theorem tokens_some {c : Char} {rest : Text} {token : Token} {length : Nat}
    (h : recogniseToken none (c :: rest) = some (some token, length)) :
    tokens (c :: rest) = token :: tokens (rest.drop (length - 1)) := by
  rw [tokens, pieces_cons_item (fun _ _ _ => rfl) h]
  rfl

private theorem nameLength_le (skip : Nat) (text : Text) : nameLength skip text ≤ text.length := by
  induction text generalizing skip with
  | nil => simp [nameLength]
  | cons c rest ih =>
      rw [List.length_cons]
      cases skip with
      | succ skip => exact Nat.succ_le_succ (ih skip)
      | zero =>
          rw [nameLength]
          split
          · exact Nat.succ_le_succ (ih 0)
          · split
            · split
              · exact Nat.succ_le_succ (ih _)
              · exact Nat.zero_le _
            · exact Nat.zero_le _

private theorem identLength_bounds {text : Text} {length : Nat} (h : identLength text = some length) :
    0 < length ∧ length ≤ text.length := by
  have hsplit : (text.takeWhile (· = '-')).length +
      (text.drop (text.takeWhile (· = '-')).length).length = text.length := by
    have hle : (text.takeWhile (· = '-')).length ≤ text.length :=
      (List.takeWhile_prefix _).length_le
    rw [List.length_drop]
    omega
  simp only [identLength] at h
  generalize (text.takeWhile (· = '-')).length = hyphens at h hsplit
  split at h
  · cases h
  · rename_i c rest hdrop
    rw [hdrop] at hsplit
    split at h
    · rename_i hstart
      cases h
      have hle := nameLength_le 0 (c :: rest)
      have hpos : 0 < nameLength 0 (c :: rest) := by
        rw [Bool.and_eq_true, Bool.or_eq_true, Bool.and_eq_true, decide_eq_true_eq] at hstart
        rw [nameLength]
        rcases hstart.2 with hident | ⟨hback, hescape⟩
        · rw [if_pos (by simp [isIdentChar, hident])]
          omega
        · rw [decide_eq_true_eq] at hback
          obtain ⟨skip, hskip⟩ := Option.isSome_iff_exists.mp hescape
          rw [if_pos hback, hskip]
          split <;> simp
      omega
    · cases h

/-- An identifier in front of a text, with its own text and what follows. -/
private structure IsIdentifier (text word rest : Text) : Prop where
  ne_nil : word ≠ []
  eq_append : text = word ++ rest
  token : ∃ value, recogniseToken none text = some (some (.identifier value), word.length)

private theorem isIdentifier_of_some {text value : Text} {length : Nat}
    (h : recogniseToken none text = some (some (.identifier value), length)) :
    0 < length ∧ IsIdentifier text (text.take length) (text.drop length) := by
  obtain ⟨hpos, hle⟩ := identLength_bounds (of_identifier h).1
  have hlength : (text.take length).length = length := by
    rw [List.length_take, Nat.min_eq_left hle]
  refine ⟨hpos, ?_, (List.take_append_drop length text).symm, value, by rw [hlength]; exact h⟩
  intro hnil
  rw [hnil, List.length_nil] at hlength
  omega

private theorem IsIdentifier.exists_pieces {text word rest : Text} (h : IsIdentifier text word rest) :
    ∃ value, pieces recogniseToken text =
      .item (some (.identifier value)) word :: pieces recogniseToken rest := by
  obtain ⟨hword, rfl, value, hsome⟩ := h
  obtain ⟨c, more, rfl⟩ := List.exists_cons_of_ne_nil hword
  refine ⟨value, ?_⟩
  rw [List.cons_append] at hsome ⊢
  rw [pieces_cons_item (fun _ _ _ => rfl) hsome, List.length_cons, Nat.add_sub_cancel,
    List.take_left, List.drop_left]

/-- A point counts only before an identifier. -/
private theorem classTexts_true (text : Text) :
    (∃ word rest, IsIdentifier text word rest ∧
      classTexts true (pieces recogniseToken text) =
        word :: classTexts false (pieces recogniseToken rest)) ∨
    ((∀ word rest, ¬ IsIdentifier text word rest) ∧
      classTexts true (pieces recogniseToken text) =
        classTexts false (pieces recogniseToken text)) := by
  cases text with
  | nil =>
      right
      refine ⟨?_, rfl⟩
      rintro word rest ⟨hword, heq, -⟩
      exact hword (List.append_eq_nil_iff.mp heq.symm).1
  | cons c rest =>
      cases hfirst : recogniseToken none (c :: rest) with
      | none =>
          right
          refine ⟨?_, ?_⟩
          · rintro word more ⟨-, -, value, hsome⟩
            rw [hfirst] at hsome
            cases hsome
          · rw [pieces_cons_plain (fun _ _ _ => rfl) hfirst]
            rfl
      | some found =>
          obtain ⟨token, length⟩ := found
          by_cases hident : ∃ value, token = some (.identifier value)
          · obtain ⟨value, rfl⟩ := hident
            left
            obtain ⟨hpos, hident⟩ := isIdentifier_of_some hfirst
            refine ⟨_, _, hident, ?_⟩
            obtain ⟨length, rfl⟩ := Nat.exists_eq_succ_of_ne_zero (Nat.ne_of_gt hpos)
            rw [pieces_cons_item (fun _ _ _ => rfl) hfirst]
            rfl
          · right
            refine ⟨?_, ?_⟩
            · rintro word more ⟨-, -, value, hsome⟩
              rw [hfirst] at hsome
              cases hsome
              exact hident ⟨value, rfl⟩
            · rw [pieces_cons_item (fun _ _ _ => rfl) hfirst]
              unfold classTexts
              split <;> simp_all

private theorem classTexts_item (token : Option Token) (text : Text)
    (rest : List (Piece (Option Token))) :
    classTexts false (.item token text :: rest) = classTexts false rest := by
  rw [classTexts]
  simp

private theorem IsIdentifier.startsClass {text word rest : Text} (h : IsIdentifier text word rest)
    (hchars : ∀ c ∈ word, isName c = true) : startsClass ('.' :: text) = true := by
  rw [h.eq_append]
  cases hword : word with
  | nil => exact absurd hword h.ne_nil
  | cons c more => exact hchars c (by simp [hword])

/-- At each name behind a point that has name characters only, a class starts. -/
private theorem length_classTexts_le {text : Text}
    (h : ∀ word ∈ classTexts false (pieces recogniseToken text), ∀ c ∈ word, isName c = true) :
    (classTexts false (pieces recogniseToken text)).length ≤ (selectorClasses text).length := by
  induction text using behind_induction with
  | nil => simp [pieces, classTexts]
  | cons c rest ih =>
      have htail : ∀ count, (selectorClasses (rest.drop count)).length ≤
          (selectorClasses rest).length :=
        fun count => (selectorClasses_drop_suffix count rest).length_le
      have hrest : (selectorClasses rest).length ≤ (selectorClasses (c :: rest)).length :=
        (selectorClasses_drop_suffix 1 (c :: rest)).length_le
      cases hfirst : recogniseToken none (c :: rest) with
      | some found =>
          obtain ⟨token, length⟩ := found
          rw [pieces_cons_item (fun _ _ _ => rfl) hfirst, classTexts_item] at h ⊢
          have hle := ih _ _ (List.cons_ne_nil _ _)
            (cons_eq_take_append_drop c rest (length - 1)) h
          exact hle.trans ((htail _).trans hrest)
      | none =>
          rw [pieces_cons_plain (fun _ _ _ => rfl) hfirst, classTexts] at h ⊢
          have hbehind := ih [c] rest (List.cons_ne_nil _ _) rfl
          by_cases hc : c = '.'
          · rw [decide_eq_true hc] at h ⊢
            subst hc
            rcases classTexts_true rest with ⟨word, more, hident, heq⟩ | ⟨-, heq⟩
            · rw [heq] at h ⊢
              have hstart := hident.startsClass (h word List.mem_cons_self)
              have hle := ih ('.' :: word) more (List.cons_ne_nil _ _)
                (congrArg ('.' :: ·) hident.eq_append) fun w hw => h w (List.mem_cons_of_mem _ hw)
              have hmore : (selectorClasses more).length ≤ (selectorClasses rest).length := by
                have hdrop := htail word.length
                rwa [hident.eq_append, List.drop_left, ← hident.eq_append] at hdrop
              rw [selectorClasses_cons, if_pos hstart, List.length_cons, List.length_cons]
              omega
            · rw [heq] at h ⊢
              exact (hbehind h).trans hrest
          · rw [decide_eq_false hc] at h ⊢
            exact (hbehind h).trans hrest

/-- What follows a token has the same classes, so that none starts in the token. -/
private theorem isPlain_drop {c : Char} {rest : Text} {token : Option Token} {length : Nat}
    (h : IsPlain (c :: rest)) (hfirst : recogniseToken none (c :: rest) = some (token, length)) :
    isClear (length - 1 + 1) (c :: rest) = true ∧ IsPlain (rest.drop (length - 1)) ∧
      token.isSome = true := by
  obtain ⟨hcomments, hclasses⟩ := h
  rw [pieces_cons_item (fun _ _ _ => rfl) hfirst] at hcomments hclasses
  rw [classTexts_item] at hclasses
  have hcount : (selectorClasses (c :: rest)).length ≤
      (selectorClasses (rest.drop (length - 1))).length := by
    rw [hclasses]
    apply length_classTexts_le
    intro word hword
    rw [← hclasses] at hword
    exact (isName_of_mem_selectorClasses hword).2
  have hsuffix := selectorClasses_drop_suffix (length - 1 + 1) (c :: rest)
  rw [List.drop_succ_cons] at hsuffix
  refine ⟨isClear_of_length_le hcount, ⟨?_, ?_⟩, ?_⟩
  · exact fun piece hpiece => hcomments piece (List.mem_cons_of_mem _ hpiece)
  · rw [hsuffix.eq_of_length_le hcount, hclasses]
  · have hfirst := hcomments _ List.mem_cons_self
    cases token with
    | none => cases hfirst
    | some token => rfl

/-- A point by itself is followed by a class, or by no name at all. -/
private theorem isPlain_point {rest : Text} (h : IsPlain ('.' :: rest))
    (hfirst : recogniseToken none ('.' :: rest) = none) :
    (∃ name more, IsRun name more ∧ IsIdentifier rest name more ∧ IsPlain more) ∨
    (startsClass ('.' :: rest) = false ∧ IsPlain rest ∧
      ∀ word more, ¬ IsIdentifier rest word more) := by
  obtain ⟨hcomments, hclasses⟩ := h
  rw [pieces_cons_plain (fun _ _ _ => rfl) hfirst] at hcomments hclasses
  rw [classTexts, decide_eq_true rfl] at hclasses
  have hcommentsRest := fun piece hpiece => hcomments piece (List.mem_cons_of_mem _ hpiece)
  have hnames : ∀ word ∈ classTexts true (pieces recogniseToken rest),
      ∀ c ∈ word, isName c = true := by
    intro word hword
    rw [← hclasses] at hword
    exact (isName_of_mem_selectorClasses hword).2
  rcases classTexts_true rest with ⟨word, more, hident, heq⟩ | ⟨hnot, heq⟩
  · left
    rw [heq] at hclasses hnames
    obtain ⟨name, behind, hrun, hshape⟩ :=
      startsClass_iff.mp (hident.startsClass (hnames word List.mem_cons_self))
    rw [hshape, selectorClasses_run hrun] at hclasses
    obtain ⟨rfl, htail⟩ := List.cons.inj hclasses
    obtain rfl : behind = more := by
      have hboth := (List.cons.inj hshape).2
      rw [hident.eq_append] at hboth
      exact (List.append_cancel_left hboth).symm
    refine ⟨name, behind, hrun, hident, ?_, htail⟩
    obtain ⟨value, hpieces⟩ := hident.exists_pieces
    rw [hpieces] at hcommentsRest
    exact fun piece hpiece => hcommentsRest piece (List.mem_cons_of_mem _ hpiece)
  · right
    rw [heq] at hclasses hnames
    have hcount := length_classTexts_le hnames
    rw [← hclasses, selectorClasses_cons] at hcount
    rw [selectorClasses_cons] at hclasses
    cases hstart : startsClass ('.' :: rest) with
    | true =>
        rw [hstart, if_pos rfl, List.length_cons] at hcount
        omega
    | false =>
        rw [hstart, if_neg (by decide)] at hclasses
        exact ⟨rfl, ⟨hcommentsRest, hclasses⟩, hnot⟩

private theorem tokens_identifier {word rest value : Text} (hword : word ≠ [])
    (h : recogniseToken none (word ++ rest) = some (some (.identifier value), word.length)) :
    tokens (word ++ rest) = .identifier value :: tokens rest := by
  obtain ⟨c, more, rfl⟩ := List.exists_cons_of_ne_nil hword
  rw [List.cons_append] at h ⊢
  rw [tokens_some h, List.length_cons, Nat.add_sub_cancel, List.drop_left]

/-- A class is a name by its tokens, before and after renaming. -/
private theorem tokens_run (hnaming : ∀ name, IsClassName (naming name)) {name more : Text} (hrun : IsRun name more)
    (hident : IsIdentifier (name ++ more) name more) :
    tokens (name ++ more) = .identifier name :: tokens more ∧
      tokens (naming name ++ renameText naming more) =
        .identifier (naming name) :: tokens (renameText naming more) := by
  obtain ⟨value, hsome⟩ := hident.token
  obtain ⟨hlength, hparen, hvalue⟩ := of_identifier hsome
  rw [List.take_left, decodeCodes_of_isName hrun.chars] at hvalue
  rw [List.drop_left] at hparen
  subst hvalue
  have hzero : nameLength 0 more = 0 := nameLength_eq_zero_of_run hrun hlength
  have hstop : nameLength 0 (renameText naming more) = 0 := by
    rw [nameLength_renameText, hzero]
    rw [hzero]
    cases more <;> rfl
  have hnew : recogniseToken none (naming value ++ renameText naming more) =
      some (some (.identifier (naming value)), (naming value).length) :=
    recogniseToken_name ((hnaming value).chars) ((hnaming value).start) ((hnaming value).long)
      (by rwa [head?_renameText]) hstop
  refine ⟨tokens_identifier hrun.ne_nil hsome, tokens_identifier ?_ hnew⟩
  intro hnil
  have hlong := (hnaming value).long
  rw [hnil] at hlong
  simp at hlong

private theorem renameTokens_of_not_isIdentifier {rest : Text} (hplain : IsPlain rest)
    (hnot : ∀ word more, ¬ IsIdentifier rest word more) :
    renameTokens naming true (tokens rest) = renameTokens naming false (tokens rest) := by
  cases rest with
  | nil => rfl
  | cons c rest =>
      cases hfirst : recogniseToken none (c :: rest) with
      | none =>
          rw [tokens_none hfirst]
          rfl
      | some found =>
          obtain ⟨token, length⟩ := found
          obtain ⟨-, -, hsome⟩ := isPlain_drop hplain hfirst
          obtain ⟨token, rfl⟩ := Option.isSome_iff_exists.mp hsome
          rw [tokens_some hfirst]
          have hname : ∀ name, token ≠ .identifier name := by
            rintro name rfl
            exact hnot _ _ (isIdentifier_of_some hfirst).2
          rw [renameTokens, renameTokens, renameToken_of_ne true hname,
            renameToken_of_ne false hname]

/-- The tokens of a plain text after renaming: only the names behind points differ. -/
theorem tokens_renameText (hnaming : ∀ name, IsClassName (naming name)) {text : Text} (h : IsPlain text) :
    tokens (renameText naming text) = renameTokens naming false (tokens text) := by
  induction text using behind_induction with
  | nil => rfl
  | cons c rest ih =>
      have hrest := ih [c] rest (List.cons_ne_nil _ _) rfl
      cases hfirst : recogniseToken none (c :: rest) with
      | some found =>
          obtain ⟨token, length⟩ := found
          obtain ⟨hclear, hplain, hsome⟩ := isPlain_drop h hfirst
          obtain ⟨token, rfl⟩ := Option.isSome_iff_exists.mp hsome
          have hrenamed : recogniseToken none (renameText naming (c :: rest)) =
              some (some token, length) := by
            rw [recogniseToken_renameText hnaming, hfirst]
            intro other length' heq
            rw [hfirst] at heq
            cases heq
            exact isClear_of_le hclear (by omega)
          have hbehind := ih _ _ (List.cons_ne_nil _ _)
            (cons_eq_take_append_drop c rest (length - 1)) hplain
          rw [isClear_succ] at hclear
          rw [renameText_plain hclear.1] at hrenamed ⊢
          rw [tokens_some hrenamed, tokens_some hfirst, drop_renameText_of_isClear hclear.2,
            hbehind, renameTokens, renameToken_false,
            decide_eq_false (ne_char_of_recogniseToken hfirst '.')]
      | none =>
          have hrenamed : recogniseToken none (renameText naming (c :: rest)) = none := by
            rw [recogniseToken_renameText hnaming, hfirst]
            intro token length heq
            rw [hfirst] at heq
            cases heq
          by_cases hc : c = '.'
          · subst hc
            rw [tokens_none hfirst, renameTokens, renameToken_false, decide_eq_true rfl]
            rcases isPlain_point h hfirst with
              ⟨name, more, hrun, hident, hplain⟩ | ⟨hstart, hplain, hnot⟩
            · -- the whole name is one token, and so is the new one
              obtain rfl : rest = name ++ more := hident.eq_append
              obtain ⟨hold, hnew⟩ := tokens_run hnaming hrun hident
              have hbehind := ih ('.' :: name) more (List.cons_ne_nil _ _) rfl hplain
              rw [renameText_run hrun] at hrenamed ⊢
              rw [tokens_none hrenamed, hnew, hold, hbehind, renameTokens]
              rfl
            · rw [renameText_plain hstart] at hrenamed ⊢
              rw [tokens_none hrenamed, hrest hplain, renameTokens_of_not_isIdentifier hplain hnot]
          · have hstart := startsClass_cons_of_ne rest hc
            have hplain : IsPlain rest := by
              obtain ⟨hcomments, hclasses⟩ := h
              rw [pieces_cons_plain (fun _ _ _ => rfl) hfirst] at hcomments hclasses
              rw [classTexts, decide_eq_false hc, selectorClasses_plain hstart] at hclasses
              exact ⟨fun piece hpiece => hcomments piece (List.mem_cons_of_mem _ hpiece), hclasses⟩
            rw [renameText_plain hstart] at hrenamed ⊢
            rw [tokens_none hrenamed, tokens_none hfirst, hrest hplain, renameTokens,
              renameToken_false, decide_eq_false (by simpa using hc)]

end AddonBundle.Stylesheet
