import AddonBundle.Log
import AddonBundle.Proofs.Piece
/-!
# Escaped messages can be shown

Escaping puts an odd number of backslashes before every tag and makes no new ones, so that no tag
of an escaped text means anything. Hence nothing keeps an escaped message from being shown, also
behind the sign of its level.
-/

namespace AddonBundle.Text

/-! ## Tags and the backslashes before them -/

private theorem recogniseTag_eq_none_iff {before : Option Char} {text : Text} :
    recogniseTag before text = none ↔ tagAt (text.dropWhile (· = '\\')) = none := by
  simp only [recogniseTag, drop_length_takeWhile]
  cases tagAt (text.dropWhile (· = '\\')) <;> simp

private theorem tagBody_append {text body : Text} (rest : Text) (h : tagBody text = some body) :
    tagBody (text ++ rest) = some body := by
  induction text generalizing body with
  | nil => simp [tagBody] at h
  | cons c text ih =>
      rw [tagBody] at h
      rw [List.cons_append, tagBody]
      split
      · simpa [*] using h
      · split
        · simp_all
        · rename_i hclose hopen
          simp only [hclose, hopen, if_false, Option.map_eq_map] at h
          obtain ⟨inner, hinner, rfl⟩ := Option.map_eq_some_iff.mp h
          simp [ih hinner]

private theorem tagBody_isPrefix {text body : Text} (h : tagBody text = some body) :
    body <+: text := by
  induction text generalizing body with
  | nil => simp [tagBody] at h
  | cons c text ih =>
      rw [tagBody] at h
      split at h
      · obtain rfl := Option.some.inj h
        exact ⟨text, rfl⟩
      · split at h
        · cases h
        · rw [Option.map_eq_map] at h
          obtain ⟨inner, hinner, rfl⟩ := Option.map_eq_some_iff.mp h
          exact List.cons_prefix_cons.mpr ⟨rfl, ih hinner⟩

private theorem tagBody_self {text body : Text} (h : tagBody text = some body) :
    tagBody body = some body := by
  induction text generalizing body with
  | nil => simp [tagBody] at h
  | cons c text ih =>
      rw [tagBody] at h
      split at h
      · rename_i hclose
        obtain rfl := Option.some.inj h
        simp [tagBody, hclose]
      · split at h
        · cases h
        · rename_i hclose hopen
          rw [Option.map_eq_map] at h
          obtain ⟨inner, hinner, rfl⟩ := Option.map_eq_some_iff.mp h
          simp [tagBody, hclose, hopen, ih hinner]

/-- A tag is read again from its own text, whatever follows it. -/
private theorem tagAt_append {text body : Text} (rest : Text) (h : tagAt text = some body) :
    tagAt (body ++ rest) = some body ∧ body.head? = some '[' ∧ body <+: text := by
  unfold tagAt at h
  split at h
  · rename_i c inner
    split at h
    · rename_i hstart
      rw [Option.map_eq_map] at h
      obtain ⟨close, hclose, rfl⟩ := Option.map_eq_some_iff.mp h
      have hself := tagBody_append rest (tagBody_self hclose)
      have hprefix := tagBody_isPrefix hclose
      refine ⟨by simp [tagAt, hstart, hself], rfl, ?_⟩
      simpa [List.cons_prefix_cons] using hprefix
    · cases h
  · cases h

/-! ## Escaped texts

The escaped text is followed along the pieces of the text that it was made from. -/

private def escapedPiece : Piece Tag → Text
  | .plain c => [c]
  | .item tag _ => List.replicate (2 * tag.slashes + 1) '\\' ++ tag.body

private def escapedFrom (before : Option Char) (skip : Nat) (text : Text) : Text :=
  (piecesFrom recogniseTag before skip text).flatMap escapedPiece

private theorem escapedFrom_plain {before : Option Char} {c : Char} {rest : Text}
    (h : recogniseTag before (c :: rest) = none) :
    escapedFrom before 0 (c :: rest) = c :: escapedFrom (some c) 0 rest := by
  simp [escapedFrom, piecesFrom_plain h, escapedPiece]

private theorem escapedFrom_item {before : Option Char} {c : Char} {rest : Text} {tag : Tag}
    {length : Nat} (h : recogniseTag before (c :: rest) = some (tag, length)) :
    escapedFrom before 0 (c :: rest) =
      List.replicate (2 * tag.slashes + 1) '\\' ++ tag.body ++
        escapedFrom (some c) (length - 1) rest := by
  simp [escapedFrom, piecesFrom_item h, escapedPiece]

private theorem recogniseTag_eq_some {before : Option Char} {text : Text} {tag : Tag} {length : Nat}
    (h : recogniseTag before text = some (tag, length)) :
    tag.slashes = (text.takeWhile (· = '\\')).length ∧
      tagAt (text.dropWhile (· = '\\')) = some tag.body ∧
      length = tag.slashes + tag.body.length := by
  simp only [recogniseTag, drop_length_takeWhile] at h
  cases hat : tagAt (text.dropWhile (· = '\\')) with
  | none => simp [hat] at h
  | some body =>
      rw [hat, Option.some.injEq, Prod.mk.injEq] at h
      obtain ⟨rfl, rfl⟩ := h
      simp

private theorem tagBody_replicate (n : Nat) (text : Text) (h : text.head? = some '[') :
    tagBody (List.replicate n '\\' ++ text) = none := by
  induction n with
  | zero =>
      cases text with
      | nil => simp at h
      | cons c text =>
          obtain rfl : c = '[' := by simpa using h
          simp [tagBody]
  | succ n ih => simp [List.replicate_succ, tagBody, ih]

/-- What may follow an escaped text: nothing, or a single backslash. -/
private def IsTail (tail : Text) : Prop := tail = [] ∨ tail = ['\\']

private theorem tagBody_escaped {before : Option Char} {text tail : Text} (htail : IsTail tail)
    (h : tagBody text = none) : tagBody (escapedFrom before 0 text ++ tail) = none := by
  induction text generalizing before with
  | nil => rcases htail with rfl | rfl <;> simp [escapedFrom, tagBody]
  | cons c rest ih =>
      cases hrec : recogniseTag before (c :: rest) with
      | none =>
          rw [escapedFrom_plain hrec, List.cons_append, tagBody]
          rw [tagBody] at h
          split
          · simp_all
          · split
            · rfl
            · rename_i hclose hopen
              simp only [hclose, hopen, if_false, Option.map_eq_map, Option.map_eq_none_iff] at h
              simp [ih h]
      | some result =>
          obtain ⟨tag, length⟩ := result
          obtain ⟨-, hat, -⟩ := recogniseTag_eq_some hrec
          have hhead : tag.body.head? = some '[' := (tagAt_append [] hat).2.1
          rw [escapedFrom_item hrec, List.append_assoc, List.append_assoc]
          apply tagBody_replicate
          cases hbody : tag.body with
          | nil => simp [hbody] at hhead
          | cons d body => simpa [hbody] using hhead

private theorem tagAt_escaped {before : Option Char} {text tail : Text} (htail : IsTail tail)
    (h : tagAt ('[' :: text) = none) : tagAt ('[' :: (escapedFrom before 0 text ++ tail)) = none := by
  cases text with
  | nil => rcases htail with rfl | rfl <;> simp [escapedFrom, tagAt, isTagStart]
  | cons c rest =>
      cases hrec : recogniseTag before (c :: rest) with
      | none =>
          rw [escapedFrom_plain hrec, List.cons_append]
          simp only [tagAt] at h ⊢
          split
          · rename_i hstart
            simp only [hstart, if_true, Option.map_eq_map, Option.map_eq_none_iff] at h
            simp [tagBody_escaped htail h]
          · rfl
      | some result =>
          obtain ⟨tag, length⟩ := result
          rw [escapedFrom_item hrec]
          simp [List.replicate_succ, tagAt, isTagStart]

private theorem recogniseTag_escaped {before before' : Option Char} {c : Char} {rest tail : Text}
    (htail : IsTail tail) (h : recogniseTag before (c :: rest) = none) :
    recogniseTag before' (c :: (escapedFrom (some c) 0 rest ++ tail)) = none := by
  rw [recogniseTag_eq_none_iff] at h ⊢
  by_cases hc : c = '\\'
  · subst hc
    -- the backslashes that follow are plain too, up to the first other character
    simp only [List.dropWhile_cons, decide_true, if_true] at h ⊢
    generalize some '\\' = previous
    induction rest generalizing previous with
    | nil => rcases htail with rfl | rfl <;> simp [escapedFrom, tagAt]
    | cons d rest ih =>
        have hplain : recogniseTag previous (d :: rest) = none := recogniseTag_eq_none_iff.mpr h
        rw [escapedFrom_plain hplain, List.cons_append]
        by_cases hd : d = '\\'
        · subst hd
          simp only [List.dropWhile_cons, decide_true, if_true] at h ⊢
          exact ih h _
        · simp only [List.dropWhile_cons, hd, decide_false, Bool.false_eq_true, if_false] at h ⊢
          by_cases hopen : d = '['
          · subst hopen
            exact tagAt_escaped htail h
          · simp [tagAt, hopen]
  · simp only [List.dropWhile_cons, hc, decide_false, Bool.false_eq_true, if_false] at h ⊢
    by_cases hopen : c = '['
    · subst hopen
      exact tagAt_escaped htail h
    · simp [tagAt, hopen]

/-- A tag is found again behind any number of backslashes. -/
private theorem recogniseTag_replicate {before : Option Char} (n : Nat) {text body : Text}
    (hat : tagAt text = some body) (hhead : text.head? = some '[') :
    recogniseTag before (List.replicate n '\\' ++ text) = some (⟨n, body⟩, n + body.length) := by
  obtain ⟨rest, rfl⟩ : ∃ rest, text = '[' :: rest := by
    cases text with
    | nil => simp at hhead
    | cons c rest => exact ⟨rest, by simpa using hhead⟩
  have htake : (List.replicate n '\\' ++ '[' :: rest).takeWhile (· = '\\') =
      List.replicate n '\\' := by
    rw [List.takeWhile_append_of_pos (by simp)]
    simp
  simp only [recogniseTag, htake, List.length_replicate]
  rw [List.drop_left' (by simp), hat]

/-- The tags of an escaped text mean nothing. -/
private theorem isActive_of_mem_escaped {before before' : Option Char} {skip : Nat}
    {text tail : Text} (htail : IsTail tail) {tag : Tag} {written : Text}
    (h : Piece.item tag written ∈
      piecesFrom recogniseTag before' 0 (escapedFrom before skip text ++ tail)) :
    tag.isActive = false := by
  induction text generalizing before before' skip with
  | nil =>
      have hnil : escapedFrom before skip [] = [] := by simp [escapedFrom]
      rcases htail with rfl | rfl
      · simp [hnil] at h
      · simp [hnil, piecesFrom, recogniseTag, tagAt] at h
  | cons c rest ih =>
      cases skip with
      | succ skip => exact ih h
      | zero =>
          cases hrec : recogniseTag before (c :: rest) with
          | none =>
              rw [escapedFrom_plain hrec, List.cons_append,
                piecesFrom_plain (recogniseTag_escaped htail hrec), List.mem_cons] at h
              rcases h with h | h
              · cases h
              · exact ih h
          | some result =>
              obtain ⟨found, length⟩ := result
              obtain ⟨-, hat, -⟩ := recogniseTag_eq_some hrec
              obtain ⟨hagain, hhead, -⟩ :=
                tagAt_append (escapedFrom (some c) (length - 1) rest ++ tail) hat
              have hrec' : recogniseTag before'
                  (List.replicate (2 * found.slashes + 1) '\\' ++ (found.body ++
                    (escapedFrom (some c) (length - 1) rest ++ tail))) =
                  some (⟨2 * found.slashes + 1, found.body⟩,
                    2 * found.slashes + 1 + found.body.length) :=
                recogniseTag_replicate _ hagain (by simp [hhead])
              have hlength : 2 * found.slashes + 1 + found.body.length =
                  (List.replicate (2 * found.slashes) '\\' ++ found.body).length + 1 := by
                simp only [List.length_append, List.length_replicate]
                omega
              rw [escapedFrom_item hrec, List.append_assoc, List.append_assoc] at h
              rw [List.replicate_succ, List.cons_append, ← List.append_assoc,
                ← List.cons_append] at h hrec'
              rw [hlength] at hrec'
              rw [piecesFrom_item_append hrec', List.mem_cons] at h
              rcases h with h | h
              · obtain ⟨rfl, -⟩ := Piece.item.inj h
                simp only [Tag.isActive, decide_eq_false_iff_not]
                omega
              · exact ih h

/-! ## Messages -/

private theorem foldlM_openBehind {tags : List (Found Tag)} (opened : List Text)
    (h : ∀ found ∈ tags, found.value.isActive = false) :
    tags.foldlM openBehind opened = .ok opened := by
  induction tags with
  | nil => rfl
  | cons found tags ih =>
      have hfound : openBehind opened found = .ok opened := by
        simp [openBehind, h found (by simp)]
      rw [List.foldlM_cons, hfound]
      exact ih (fun f hf => h f (by simp [hf]))

private theorem escapeMarkup_eq (text : Text) :
    ∃ tail, IsTail tail ∧ escapeMarkup text = escapedFrom none 0 text ++ tail := by
  have hescaped : escapedFrom none 0 text = substitute recogniseTag
      (fun tag => List.replicate (2 * tag.slashes + 1) '\\' ++ tag.body) text := by
    unfold escapedFrom substitute pieces
    congr 1
    funext piece
    cases piece <;> rfl
  simp only [escapeMarkup, ← hescaped]
  split
  · exact ⟨['\\'], .inr rfl, rfl⟩
  · exact ⟨[], .inl rfl, by simp⟩

/-- Behind characters that start no tag, the tags of an escaped text mean nothing. -/
private theorem isActive_behind_sign {sign text : Text} (h : ∀ c ∈ sign, c ≠ '\\' ∧ c ≠ '[')
    {before : Option Char} {tag : Tag} {written : Text}
    (hmem : Piece.item tag written ∈
      piecesFrom recogniseTag before 0 (sign ++ escapeMarkup text)) : tag.isActive = false := by
  induction sign generalizing before with
  | nil =>
      obtain ⟨tail, htail, heq⟩ := escapeMarkup_eq text
      rw [List.nil_append, heq] at hmem
      exact isActive_of_mem_escaped htail hmem
  | cons c sign ih =>
      obtain ⟨hslash, hopen⟩ := h c (by simp)
      have hnone : recogniseTag before (c :: (sign ++ escapeMarkup text)) = none := by
        rw [recogniseTag_eq_none_iff]
        simp [hslash, tagAt, hopen]
      rw [List.cons_append, piecesFrom_plain hnone, List.mem_cons] at hmem
      rcases hmem with hmem | hmem
      · cases hmem
      · exact ih (fun d hd => h d (by simp [hd])) hmem

/-- Nothing keeps an escaped text from being shown. -/
theorem markupFault?_sign_escapeMarkup {sign : Text} (h : ∀ c ∈ sign, c ≠ '\\' ∧ c ≠ '[')
    (text : Text) : markupFault? (sign ++ escapeMarkup text) = none := by
  have hinactive : ∀ found ∈ findAll recogniseTag (sign ++ escapeMarkup text),
      found.value.isActive = false := by
    intro found hfound
    obtain ⟨written, hmem⟩ := mem_foundFrom_value hfound
    exact isActive_behind_sign h hmem
  simp [markupFault?, foldlM_openBehind [] hinactive]

/-! ## Texts inside messages

What may be shown does not depend on where the tags are, so a text may be shown inside a message
exactly when it may be shown alone, as long as the rest of the message makes no tag with it. -/

private theorem tagBody_append_paren (text : Text) : tagBody (text ++ [')']) = tagBody text := by
  induction text with
  | nil => rfl
  | cons c rest ih => rw [List.cons_append, tagBody, tagBody, ih]

private theorem tagAt_append_paren (text : Text) : tagAt (text ++ [')']) = tagAt text := by
  match text with
  | [] => rfl
  | [c] =>
      by_cases hc : c = '['
      · subst hc
        rfl
      · simp [tagAt, hc]
  | c :: d :: rest =>
      by_cases hc : c = '['
      · subst hc
        simp only [List.cons_append, tagAt, tagBody_append_paren]
      · simp [tagAt, hc]

private theorem recogniseTag_append_paren (before before' : Option Char) (text : Text) :
    recogniseTag before (text ++ [')']) = recogniseTag before' text := by
  have htake : (text ++ [')']).takeWhile (· = '\\') = text.takeWhile (· = '\\') := by
    rw [List.takeWhile_append]
    split
    · rename_i hall
      simpa using ((List.takeWhile_prefix _).eq_of_length hall).symm
    · rfl
  have hdrop : (text ++ [')']).dropWhile (· = '\\') = text.dropWhile (· = '\\') ++ [')'] := by
    rw [List.dropWhile_append]
    split
    · rename_i hempty
      rw [List.isEmpty_iff.mp hempty, List.dropWhile_cons_of_neg (by decide), List.nil_append]
    · rfl
  simp only [recogniseTag, drop_length_takeWhile]
  rw [hdrop, tagAt_append_paren, htake]

/-- The tags of a text, less what belongs to the tag before. -/
private def tagsFrom (before : Option Char) (skip : Nat) (text : Text) : List Tag :=
  (piecesFrom recogniseTag before skip text).filterMap fun
    | .plain _ => none
    | .item tag _ => some tag

private theorem map_value_foundFrom (pos : Nat) (ps : List (Piece Tag)) :
    (foundFrom pos ps).map (·.value) = ps.filterMap fun
      | .plain _ => none
      | .item tag _ => some tag := by
  induction ps generalizing pos with
  | nil => rfl
  | cons piece ps ih =>
      cases piece with
      | plain c => exact ih _
      | item tag text => simp [foundFrom, ih]

private theorem tagsFrom_append_paren (before before' : Option Char) (skip : Nat) (text : Text) :
    tagsFrom before skip (text ++ [')']) = tagsFrom before' skip text := by
  induction text generalizing before before' skip with
  | nil =>
      cases skip with
      | zero => rfl
      | succ skip => simp [tagsFrom, piecesFrom]
  | cons c rest ih =>
      cases skip with
      | succ skip => exact ih _ _ _
      | zero =>
          have hrec := recogniseTag_append_paren before before' (c :: rest)
          rw [tagsFrom, tagsFrom, List.cons_append, piecesFrom, piecesFrom, ← List.cons_append, hrec]
          cases recogniseTag before' (c :: rest) with
          | none => exact ih _ _ _
          | some result => exact congrArg (result.1 :: ·) (ih _ _ _)

private theorem tagsFrom_append_of_startsNoTag {sign : Text} (h : ∀ c ∈ sign, c ≠ '\\' ∧ c ≠ '[')
    (before : Option Char) (text : Text) :
    tagsFrom before 0 (sign ++ text) = tagsFrom (sign.getLast?.or before) 0 text := by
  induction sign generalizing before with
  | nil => rfl
  | cons c sign ih =>
      rw [List.forall_mem_cons] at h
      have hnone : recogniseTag before (c :: (sign ++ text)) = none := by
        rw [recogniseTag_eq_none_iff]
        simp [h.1.1, tagAt, h.1.2]
      rw [tagsFrom, List.cons_append, piecesFrom_plain hnone, List.getLast?_cons]
      refine (ih h.2 (some c)).trans ?_
      cases sign.getLast? <;> rfl

private theorem openBehind_congr (opened : List Text) {found found' : Found Tag}
    (h : found.value = found'.value) :
    (openBehind opened found).toOption = (openBehind opened found').toOption := by
  unfold openBehind
  rw [h]
  dsimp only
  split
  · rfl
  · split
    · split
      · cases opened <;> rfl
      · split <;> rfl
    · rfl

private theorem foldlM_openBehind_congr {tags tags' : List (Found Tag)} (opened : List Text)
    (h : tags.map (·.value) = tags'.map (·.value)) :
    (tags.foldlM openBehind opened).toOption = (tags'.foldlM openBehind opened).toOption := by
  induction tags generalizing tags' opened with
  | nil =>
      cases tags' with
      | nil => rfl
      | cons found tags' => cases h
  | cons found tags ih =>
      cases tags' with
      | nil => cases h
      | cons found' tags' =>
          obtain ⟨hfound, hrest⟩ := List.cons.inj h
          have hopen := openBehind_congr opened hfound
          rw [List.foldlM_cons, List.foldlM_cons]
          cases hbehind : openBehind opened found with
          | error fault =>
              rw [hbehind] at hopen
              cases hbehind' : openBehind opened found' with
              | error fault' => rfl
              | ok other =>
                  rw [hbehind'] at hopen
                  cases hopen
          | ok next =>
              rw [hbehind] at hopen
              cases hbehind' : openBehind opened found' with
              | error fault' =>
                  rw [hbehind'] at hopen
                  cases hopen
              | ok other =>
                  rw [hbehind'] at hopen
                  cases hopen
                  exact ih next hrest

/-- A text may be shown behind characters that start no tag and before a round bracket exactly
when it may be shown alone. -/
theorem isSome_markupFault?_between {sign : Text} (h : ∀ c ∈ sign, c ≠ '\\' ∧ c ≠ '[')
    (text : Text) :
    (markupFault? (sign ++ text ++ [')'])).isSome = (markupFault? text).isSome := by
  have hshown : ∀ text, (markupFault? text).isSome =
      ((findAll recogniseTag text).foldlM openBehind []).toOption.isNone := by
    intro text
    unfold markupFault?
    cases (findAll recogniseTag text).foldlM openBehind [] <;> rfl
  have htags : ∀ text, (findAll recogniseTag text).map (·.value) = tagsFrom none 0 text :=
    fun text => map_value_foundFrom 0 (pieces recogniseTag text)
  rw [hshown, hshown]
  congr 1
  apply foldlM_openBehind_congr
  rw [htags, htags, List.append_assoc, tagsFrom_append_of_startsNoTag h]
  exact tagsFrom_append_paren _ _ _ _

end AddonBundle.Text

namespace AddonBundle.Log

/-- Whether a text starts no tags can be computed. -/
theorem startsNoTag_of_all {text : Text} (h : (text.all fun c => c ≠ '\\' ∧ c ≠ '[') = true) :
    ∀ c ∈ text, c ≠ '\\' ∧ c ≠ '[' :=
  fun c hc => of_decide_eq_true (List.all_eq_true.mp h c hc)

/-- The digits of a number start no tags. -/
theorem startsNoTag_ofNat (n : Nat) : ∀ c ∈ Text.ofNat n, c ≠ '\\' ∧ c ≠ '[' := by
  intro c hc
  have hdigit : c.isDigit = true := Nat.isDigit_of_mem_toDigits (b := 10) (by decide) (by decide) hc
  constructor
  · rintro rfl
    cases hdigit
  · rintro rfl
    cases hdigit

theorem startsNoTag_sign (level : Level) : ∀ c ∈ level.sign, c ≠ '\\' ∧ c ≠ '[' := by
  cases level <;> exact startsNoTag_of_all (by decide)

/-- An escaped message can be shown at every level. -/
theorem fault?_escapeMarkup (level : Level) (text : Text) :
    Entry.fault? ⟨level, Text.escapeMarkup text⟩ = none :=
  Text.markupFault?_sign_escapeMarkup (startsNoTag_sign level) text

/-- So can a message that starts no tags. -/
theorem fault?_of_startsNoTag (level : Level) {text : Text} (h : ∀ c ∈ text, c ≠ '\\' ∧ c ≠ '[') :
    Entry.fault? ⟨level, text⟩ = none := by
  have hshown : Text.markupFault? (level.sign ++ text ++ Text.escapeMarkup []) = none := by
    apply Text.markupFault?_sign_escapeMarkup
    intro c hc
    rcases List.mem_append.mp hc with hc | hc
    · exact startsNoTag_sign level c hc
    · exact h c hc
  rwa [show Text.escapeMarkup [] = [] from rfl, List.append_nil] at hshown

end AddonBundle.Log
