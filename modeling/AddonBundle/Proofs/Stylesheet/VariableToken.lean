import AddonBundle.Proofs.Piece
import AddonBundle.Stylesheet.Variable
/-!
# Definitions and uses of variables

How a definition and a use of a variable are written. Read from left to right, a text in which every
dollar sign starts a use is made of definitions, of uses where no definition starts, and of other
characters; there is one way to read it.
-/

namespace AddonBundle.Stylesheet

open Text

/-! ## How definitions and uses are written -/

/-- The name of a variable. -/
def IsVariable (name : Text) : Prop :=
  name ≠ [] ∧ ∀ c ∈ name, isName c = true

/-- What ends the value of a definition. -/
def endsValue (c : Char) : Bool :=
  c = ';' || c = '\x7b' || c = '\x7d'

/-- The value of a definition between blanks. It neither starts nor ends with a blank itself, but
of blanks only it is the last. -/
structure IsPadded (lead value trail : Text) : Prop where
  ne_nil : value ≠ []
  goes_on : ∀ c ∈ value, endsValue c = false
  lead_blank : IsBlankText lead
  trail_blank : IsBlankText trail
  trimmed : trim value = value ∨ ∃ c, isBlank c = true ∧ value = [c] ∧ trail = []

/-- A definition as it is written. -/
def IsDefinition (written name value : Text) : Prop :=
  IsVariable name ∧ ∃ before lead trail, IsBlankText before ∧ IsPadded lead value trail ∧
    written = '$' :: (name ++ (before ++ ':' :: (lead ++ value ++ trail ++ [';'])))

/-- A use as it is written. -/
def IsUse (written name : Text) : Prop :=
  IsVariable name ∧ (written = '$' :: name ∨ written = '$' :: '(' :: (name ++ [')']))

theorem endsValue_of_isBlank {c : Char} (h : isBlank c = true) : endsValue c = false := by
  rw [← Bool.not_eq_true]
  intro hends
  simp only [endsValue, Bool.or_eq_true, decide_eq_true_eq] at hends
  rcases hends with (rfl | rfl) | rfl
  all_goals exact absurd h (by decide)

theorem takeWhile_eq_endsValue (text : Text) :
    (text.takeWhile fun c => c ≠ ';' && c ≠ '\x7b' && c ≠ '\x7d') =
      text.takeWhile fun c => !endsValue c := by
  congr 1
  funext c
  simp [endsValue]

theorem definedValue_sound {text value behind : Text}
    (h : definedValue text = some (value, behind)) :
    ∃ lead trail, IsPadded lead value trail ∧
      text = lead ++ value ++ trail ++ ';' :: behind := by
  unfold definedValue at h
  rw [takeWhile_eq_endsValue] at h
  generalize hkept : text.takeWhile (fun c => !endsValue c) = kept at h
  have hgoes : ∀ c ∈ kept, endsValue c = false := by
    intro c hc
    rw [← hkept] at hc
    simpa using List.all_eq_true.mp List.all_takeWhile c hc
  dsimp only at h
  split at h
  · rename_i rest hrest
    have htext : text = kept ++ ';' :: rest := by
      rw [← hrest, ← hkept]
      exact (List.prefix_iff_eq_append.mp (List.takeWhile_prefix _)).symm
    split at h
    · cases h
    · rename_i hne
      split at h
      · rename_i hblank
        cases h
        obtain ⟨lead, c, rfl⟩ := List.eq_nil_or_concat kept |>.resolve_left (by simpa using hne)
        rw [List.concat_eq_append] at *
        have hlast : (lead ++ [c]).drop ((lead ++ [c]).length - 1) = [c] := by simp
        rw [List.all_eq_true, List.forall_mem_append] at hblank
        rw [List.forall_mem_append] at hgoes
        rw [hlast]
        exact ⟨lead, [], ⟨by simp, hgoes.2, hblank.1, isBlankText_nil,
          .inr ⟨c, hblank.2 c (by simp), rfl, rfl⟩⟩, by simpa using htext⟩
      · rename_i hsome
        cases h
        obtain ⟨lead, trail, hlead, htrail, hsplit⟩ := exists_trim kept
        refine ⟨lead, trail, ⟨?_, ?_, hlead, htrail, .inl (trim_trim kept)⟩, hsplit ▸ htext⟩
        · intro hnil
          rw [hnil, List.append_nil] at hsplit
          apply hsome
          rw [List.all_eq_true, hsplit]
          exact hlead.append htrail
        · intro c hc
          refine hgoes c ?_
          rw [hsplit]
          simp [hc]
  · cases h

theorem definedValue_complete {lead value trail : Text} (h : IsPadded lead value trail)
    (behind : Text) :
    definedValue (lead ++ value ++ trail ++ ';' :: behind) = some (value, behind) := by
  have hall : ∀ c ∈ lead ++ value ++ trail, (!endsValue c) = true := by
    intro c hc
    rw [List.mem_append, List.mem_append] at hc
    rcases hc with (hc | hc) | hc
    · rw [endsValue_of_isBlank (h.lead_blank c hc)]
      rfl
    · rw [h.goes_on c hc]
      rfl
    · rw [endsValue_of_isBlank (h.trail_blank c hc)]
      rfl
  have htake := takeWhile_append_stop behind hall (c := ';') (by decide)
  have hne : (lead ++ value ++ trail).isEmpty = false := by simp [h.ne_nil]
  unfold definedValue
  rw [takeWhile_eq_endsValue, htake]
  simp only [List.drop_left, hne, Bool.false_eq_true, if_false]
  rcases h.trimmed with htrim | ⟨c, hc, rfl, rfl⟩
  · have hsome : (lead ++ value ++ trail).all isBlank = false := by
      rw [← Bool.not_eq_true, List.all_eq_true]
      intro hblank
      have hnil : trim value = [] := IsBlankText.trim_eq_nil fun c hc =>
        hblank c (by simp [hc])
      exact h.ne_nil (htrim.symm.trans hnil)
    rw [hsome, if_neg (by decide), trim_append_blank h.trail_blank,
      trim_blank_append h.lead_blank, htrim]
  · have hblank : (lead ++ [c] ++ []).all isBlank = true := by
      rw [List.append_nil, List.all_append, List.all_eq_true.mpr h.lead_blank]
      simp [hc]
    rw [if_pos hblank]
    simp

theorem definitionAt_sound {text name value behind : Text}
    (h : definitionAt text = some (name, value, behind)) :
    ∃ written, '$' :: text = written ++ behind ∧ IsDefinition written name value := by
  obtain ⟨front, more, rfl, hfront, -, hname, -⟩ := exists_takeWhile isName text
  obtain ⟨before, colon, rfl, -, hcolon, hbefore, -⟩ := exists_takeWhile isBlank more
  unfold definitionAt at h
  dsimp only at h
  rw [hfront] at h
  split at h
  · cases h
  · rename_i hne
    rw [List.drop_left, hcolon] at h
    obtain ⟨rest, hrest, h⟩ := Option.bind_eq_some_iff.mp h
    obtain ⟨⟨found, behind'⟩, hvalue, h⟩ := Option.bind_eq_some_iff.mp h
    cases h
    obtain ⟨lead, trail, hpadded, rfl⟩ := definedValue_sound hvalue
    rw [after?_eq_some] at hrest
    refine ⟨_, ?_, ⟨by simpa using hne, hname⟩, before, lead, trail, hbefore, hpadded, rfl⟩
    rw [hrest]
    simp

theorem definitionAt_complete {written name value text behind : Text}
    (h : IsDefinition written name value) (htext : '$' :: text = written ++ behind) :
    definitionAt text = some (name, value, behind) := by
  obtain ⟨hname, before, lead, trail, hbefore, hpadded, rfl⟩ := h
  obtain rfl : text = name ++ (before ++ ':' :: (lead ++ value ++ trail ++ ';' :: behind)) := by
    simpa using htext
  have htake : (name ++ (before ++ ':' :: (lead ++ value ++ trail ++ ';' :: behind))).takeWhile
      isName = name := by
    apply takeWhile_append_head hname.2
    intro c hc
    cases before with
    | nil =>
        cases hc
        decide
    | cons d before =>
        cases hc
        exact isName_of_isBlank (hbefore c List.mem_cons_self)
  have hempty : name.isEmpty = false := by simp [hname.1]
  unfold definitionAt
  simp only [htake, hempty, Bool.false_eq_true, if_false, List.drop_left]
  rw [dropWhile_append_stop _ hbefore (by decide)]
  have hcolon := after?_append [':'] (lead ++ value ++ trail ++ ';' :: behind)
  rw [List.singleton_append] at hcolon
  simp only [hcolon, Option.bind_eq_bind, Option.bind_some, definedValue_complete hpadded]

theorem paren_ne (name : Text) : '$' :: '(' :: (name ++ [')']) ≠ '$' :: name := by
  intro heq
  have hlength := congrArg List.length heq
  simp only [List.length_cons, List.length_append, List.length_nil] at hlength
  omega

theorem useAt_sound {text name behind : Text} (h : useAt text = some (name, behind)) :
    ∃ written, '$' :: text = written ++ behind ∧ IsUse written name ∧
      (written = '$' :: name → ∀ c ∈ behind.head?, isName c = false) := by
  unfold useAt at h
  split at h
  · rename_i inside
    obtain ⟨front, more, rfl, hfront, -, hname, -⟩ := exists_takeWhile isName inside
    dsimp only at h
    rw [hfront] at h
    split at h
    · cases h
    · rename_i hne
      rw [List.drop_left] at h
      obtain ⟨rest, hclose, heq⟩ := Option.map_eq_some_iff.mp h
      cases heq
      rw [after?_eq_some] at hclose
      exact ⟨_, by simp [hclose], ⟨⟨by simpa using hne, hname⟩, .inr rfl⟩,
        fun hwritten => absurd hwritten (paren_ne _)⟩
  · obtain ⟨front, more, rfl, hfront, -, hname, hmore⟩ := exists_takeWhile isName text
    dsimp only at h
    rw [hfront] at h
    split at h
    · cases h
    · rename_i hne
      rw [List.drop_left] at h
      cases h
      exact ⟨_, rfl, ⟨⟨by simpa using hne, hname⟩, .inl rfl⟩, fun _ => hmore⟩

theorem useAt_complete {written name text behind : Text} (h : IsUse written name)
    (hlongest : written = '$' :: name → ∀ c ∈ behind.head?, isName c = false)
    (htext : '$' :: text = written ++ behind) : useAt text = some (name, behind) := by
  obtain ⟨hname, rfl | rfl⟩ := h
  · obtain rfl : text = name ++ behind := by simpa using htext
    have htake := takeWhile_append_head hname.2 (hlongest rfl)
    have hempty : name.isEmpty = false := by simp [hname.1]
    unfold useAt
    split
    · rename_i inside heq
      obtain ⟨c, more, rfl⟩ := List.exists_cons_of_ne_nil hname.1
      cases heq
      exact absurd (hname.2 _ List.mem_cons_self) (by decide)
    · simp only [htake, hempty, Bool.false_eq_true, if_false, List.drop_left]
  · obtain rfl : text = '(' :: (name ++ ')' :: behind) := by simpa using htext
    have htake : (name ++ ')' :: behind).takeWhile isName = name :=
      takeWhile_append_stop behind hname.2 (by decide)
    have hempty : name.isEmpty = false := by simp [hname.1]
    have hclose := after?_append [')'] behind
    rw [List.singleton_append] at hclose
    simp only [useAt, htake, hempty, Bool.false_eq_true, if_false, List.drop_left, hclose]
    rfl

/-! ## Reading from left to right -/

/-- Pieces that are read from left to right. At a dollar sign there is a definition, and where none
starts the longest use. -/
inductive IsRead : List (Piece VariableToken) → Prop
  | nil : IsRead []
  | plain {c : Char} {rest : List (Piece VariableToken)} (hc : c ≠ '$') (hrest : IsRead rest) :
    IsRead (.plain c :: rest)
  | define {written name value : Text} {rest : List (Piece VariableToken)}
      (hwritten : IsDefinition written name value) (hrest : IsRead rest) :
    IsRead (.item (.define name value) written :: rest)
  | use {written name : Text} {rest : List (Piece VariableToken)} (hwritten : IsUse written name)
      (hlongest : written = '$' :: name →
        ∀ c ∈ (rest.flatMap Piece.text).head?, isName c = false)
      (hnone : ∀ front other value, front <+: written ++ rest.flatMap Piece.text →
        ¬ IsDefinition front other value) (hrest : IsRead rest) :
    IsRead (.item (.use name) written :: rest)

/-- The text starts a use behind a dollar sign. -/
def StartsUse (text : Text) : Prop :=
  (∃ c ∈ text.head?, isName c = true) ∨
    ∃ name rest, IsVariable name ∧ text = '(' :: (name ++ ')' :: rest)

/-- Every dollar sign of a text starts a use. -/
def SignsUses (text : Text) : Prop :=
  ∀ front back, text = front ++ '$' :: back → StartsUse back

theorem ignoresBefore_variable : IgnoresBefore recogniseVariable := fun _ _ _ => rfl

theorem recogniseVariable_of_ne {c : Char} {rest : Text} (hc : c ≠ '$') :
    recogniseVariable none (c :: rest) = none := by
  unfold recogniseVariable
  split
  · rename_i heq
    exact absurd (List.cons.inj heq).1 hc
  · rfl

theorem IsDefinition.exists_cons {written name value : Text} (h : IsDefinition written name value) :
    ∃ rest, written = '$' :: rest := by
  obtain ⟨-, before, lead, trail, -, -, rfl⟩ := h
  exact ⟨_, rfl⟩

theorem IsUse.exists_cons {written name : Text} (h : IsUse written name) :
    ∃ rest, written = '$' :: rest := by
  obtain ⟨-, rfl | rfl⟩ := h
  · exact ⟨_, rfl⟩
  · exact ⟨_, rfl⟩

theorem IsDefinition.ne_nil {written name value : Text} (h : IsDefinition written name value) :
    written ≠ [] := by
  obtain ⟨rest, rfl⟩ := h.exists_cons
  exact List.cons_ne_nil _ _

theorem IsUse.ne_nil {written name : Text} (h : IsUse written name) : written ≠ [] := by
  obtain ⟨rest, rfl⟩ := h.exists_cons
  exact List.cons_ne_nil _ _

theorem recogniseVariable_define {written name value : Text} (behind : Text)
    (h : IsDefinition written name value) :
    recogniseVariable none (written ++ behind) = some (.define name value, written.length) := by
  obtain ⟨rest, rfl⟩ := h.exists_cons
  have hdefinition : definitionAt (rest ++ behind) = some (name, value, behind) :=
    definitionAt_complete h rfl
  have hlength := @List.length_append _ ('$' :: rest) behind
  simp only [List.cons_append, recogniseVariable, hdefinition] at hlength ⊢
  rw [hlength, Nat.add_sub_cancel]

theorem recogniseVariable_use {written name : Text} (behind : Text) (h : IsUse written name)
    (hlongest : written = '$' :: name → ∀ c ∈ behind.head?, isName c = false)
    (hnone : ∀ front other value, front <+: written ++ behind → ¬ IsDefinition front other value) :
    recogniseVariable none (written ++ behind) = some (.use name, written.length) := by
  obtain ⟨rest, rfl⟩ := h.exists_cons
  have huse : useAt (rest ++ behind) = some (name, behind) := useAt_complete h hlongest rfl
  have hdefinition : definitionAt (rest ++ behind) = none := by
    rw [Option.eq_none_iff_forall_ne_some]
    rintro ⟨other, value, more⟩ hsome
    obtain ⟨front, hsplit, hfront⟩ := definitionAt_sound hsome
    exact hnone front other value ⟨more, hsplit.symm⟩ hfront
  have hlength := @List.length_append _ ('$' :: rest) behind
  simp only [List.cons_append, recogniseVariable, hdefinition, huse] at hlength ⊢
  rw [Option.map_eq_map, Option.map_some, hlength, Nat.add_sub_cancel]

/-- There is only one way to read a text from left to right. -/
theorem IsRead.pieces_eq {ps : List (Piece VariableToken)} (h : IsRead ps) :
    pieces recogniseVariable (ps.flatMap Piece.text) = ps := by
  induction h with
  | nil => rfl
  | plain hc hrest ih =>
      rw [List.flatMap_cons, Piece.text, List.singleton_append,
        pieces_cons_plain ignoresBefore_variable (recogniseVariable_of_ne hc), ih]
  | define hwritten hrest ih =>
      rw [List.flatMap_cons, Piece.text, pieces_append_item ignoresBefore_variable hwritten.ne_nil
        (recogniseVariable_define _ hwritten), ih]
  | use hwritten hlongest hnone hrest ih =>
      rw [List.flatMap_cons, Piece.text, pieces_append_item ignoresBefore_variable hwritten.ne_nil
        (recogniseVariable_use _ hwritten hlongest hnone), ih]

theorem SignsUses.of_append {front back : Text} (h : SignsUses (front ++ back)) :
    SignsUses back := by
  rintro before behind rfl
  exact h (front ++ before) behind (by simp)

theorem StartsUse.exists_use {text : Text} (h : StartsUse text) :
    ∃ written name behind, '$' :: text = written ++ behind ∧ IsUse written name ∧
      (written = '$' :: name → ∀ c ∈ behind.head?, isName c = false) := by
  rcases h with ⟨c, hc, hnamed⟩ | ⟨name, rest, hname, rfl⟩
  · obtain ⟨front, more, rfl, -, -, hfront, hmore⟩ := exists_takeWhile isName text
    refine ⟨'$' :: front, front, more, rfl, ⟨⟨?_, hfront⟩, .inl rfl⟩, fun _ => hmore⟩
    rintro rfl
    rw [hmore c hc] at hnamed
    cases hnamed
  · exact ⟨_, name, rest, by simp, ⟨hname, .inr rfl⟩,
      fun hwritten => absurd hwritten (paren_ne name)⟩

theorem startsUse_iff {text : Text} : StartsUse text ↔ (useAt text).isSome = true := by
  constructor
  · intro h
    obtain ⟨written, name, behind, hsplit, huse, hlongest⟩ := h.exists_use
    rw [useAt_complete huse hlongest hsplit]
    rfl
  · intro h
    obtain ⟨⟨name, behind⟩, hfound⟩ := Option.isSome_iff_exists.mp h
    obtain ⟨written, hsplit, ⟨hname, rfl | rfl⟩, -⟩ := useAt_sound hfound
    · obtain rfl : text = name ++ behind := by simpa using hsplit
      obtain ⟨c, rest, rfl⟩ := List.exists_cons_of_ne_nil hname.1
      exact .inl ⟨c, rfl, hname.2 c List.mem_cons_self⟩
    · exact .inr ⟨name, behind, hname, by simpa using hsplit⟩

theorem signsUses_cons {c : Char} {rest : Text} :
    SignsUses (c :: rest) ↔ (c = '$' → StartsUse rest) ∧ SignsUses rest := by
  constructor
  · intro h
    exact ⟨fun hc => h [] rest (by rw [hc]; rfl), @SignsUses.of_append [c] rest h⟩
  · rintro ⟨hfirst, hrest⟩ front back hsplit
    cases front with
    | nil =>
        obtain ⟨rfl, rfl⟩ := List.cons.inj hsplit
        exact hfirst rfl
    | cons d front => exact hrest front back (List.cons.inj hsplit).2

instance (text : Text) : Decidable (StartsUse text) :=
  decidable_of_iff _ startsUse_iff.symm

instance decidableSignsUses : (text : Text) → Decidable (SignsUses text)
  | [] => .isTrue fun front back hsplit => absurd hsplit (by simp)
  | c :: rest =>
    have := decidableSignsUses rest
    decidable_of_iff _ signsUses_cons.symm

/-- A text in which every dollar sign starts a use is read from left to right in its pieces. -/
theorem isRead_pieces {text : Text} (h : SignsUses text) :
    IsRead (pieces recogniseVariable text) := by
  induction text using behind_induction with
  | nil => exact .nil
  | cons c rest ih =>
      have hbehind : ∀ {written behind : Text}, written ≠ [] → c :: rest = written ++ behind →
          IsRead (pieces recogniseVariable behind) := by
        intro written behind hne hsplit
        rw [hsplit] at h
        exact ih written behind hne hsplit h.of_append
      by_cases hc : c = '$'
      · subst hc
        by_cases hdefinition : ∃ written name value, written <+: '$' :: rest ∧
            IsDefinition written name value
        · obtain ⟨written, name, value, ⟨behind, hsplit⟩, hwritten⟩ := hdefinition
          rw [← hsplit, pieces_append_item ignoresBefore_variable hwritten.ne_nil
            (recogniseVariable_define _ hwritten)]
          exact .define hwritten (hbehind hwritten.ne_nil hsplit.symm)
        · obtain ⟨written, name, behind, hsplit, hwritten, hlongest⟩ := (h [] rest rfl).exists_use
          have hnone : ∀ front other value, front <+: written ++ behind →
              ¬ IsDefinition front other value := by
            intro front other value hfront hother
            exact hdefinition ⟨front, other, value, hsplit ▸ hfront, hother⟩
          rw [hsplit, pieces_append_item ignoresBefore_variable hwritten.ne_nil
            (recogniseVariable_use _ hwritten hlongest hnone)]
          have htexts := texts_pieces recogniseVariable behind
          exact .use hwritten (htexts.symm ▸ hlongest) (htexts.symm ▸ hnone)
            (hbehind hwritten.ne_nil hsplit)
      · rw [pieces_cons_plain ignoresBefore_variable (recogniseVariable_of_ne hc)]
        exact .plain hc (hbehind (List.cons_ne_nil c []) rfl)

end AddonBundle.Stylesheet
