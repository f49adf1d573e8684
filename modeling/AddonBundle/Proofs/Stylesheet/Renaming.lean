import AddonBundle.Proofs.Piece
import AddonBundle.Stylesheet.ClassMapping
import Mathlib.Data.List.TakeWhile
/-!
# Renaming classes in a text

A class in the text of a selector is a point with a run of name characters behind it, wherever it
stands. Texts are taken apart at their classes: a text is empty, or a character that starts no
class and a text, or a class and a text that does not go on with a name character.
-/

namespace AddonBundle.Stylesheet

open Text

/-- Whether a class starts here. -/
def startsClass : Text → Bool
  | '.' :: c :: _ => isName c
  | _ => false

/-- The text with each class renamed. -/
def renameText (naming : Text → Text) (text : Text) : Text :=
  substitute recogniseClass (fun name => '.' :: naming name) text

/-- The name that a mapping gives a class. -/
def ClassMapping.naming (mapping : ClassMapping) (name : Text) : Text :=
  (mapping.get? name).getD name

theorem renameClasses_eq (mapping : ClassMapping) (text : Text) :
    renameClasses mapping text =
      if mapping.covers (selectorClasses text) then some (renameText mapping.naming text)
      else none := rfl

theorem ClassMapping.covers_iff {mapping : ClassMapping} {names : List Text} :
    mapping.covers names = true ↔ ∀ name ∈ names, ∃ generated, mapping.get? name = some generated := by
  simp [ClassMapping.covers, Option.isSome_iff_exists]

/-- A name that is not empty, and what follows it. -/
structure IsRun (name rest : Text) : Prop where
  ne_nil : name ≠ []
  chars : ∀ c ∈ name, isName c = true
  stop : ∀ c ∈ rest.head?, isName c = false

theorem IsRun.takeWhile_append {name rest : Text} (h : IsRun name rest) :
    (name ++ rest).takeWhile isName = name := by
  rw [List.takeWhile_append_of_pos h.chars]
  cases rest with
  | nil => simp
  | cons c more => simp [h.stop c rfl]

/-! ## Taking a text apart -/

theorem startsClass_iff {text : Text} :
    startsClass text = true ↔ ∃ name rest, IsRun name rest ∧ text = '.' :: (name ++ rest) := by
  constructor
  · intro h
    unfold startsClass at h
    split at h
    · rename_i c more
      refine ⟨(c :: more).takeWhile isName, (c :: more).dropWhile isName, ⟨?_, ?_, ?_⟩, ?_⟩
      · simp [h]
      · exact fun d hd => List.mem_takeWhile_imp hd
      · intro d hd
        have hstop := List.head?_dropWhile_not isName (c :: more)
        rw [Option.mem_def.mp hd] at hstop
        simpa using hstop
      · rw [List.takeWhile_append_dropWhile]
    · cases h
  · rintro ⟨name, rest, hrun, rfl⟩
    cases hname : name with
    | nil => exact absurd hname hrun.ne_nil
    | cons c more => exact hrun.chars c (by simp [hname])

theorem startsClass_cons_of_ne {c : Char} (rest : Text) (h : c ≠ '.') :
    startsClass (c :: rest) = false := by
  unfold startsClass
  split
  · rename_i heq
    exact absurd (List.cons.inj heq).1 h
  · rfl

theorem startsClass_of_head? (c : Char) {rest rest' : Text} (h : rest.head? = rest'.head?) :
    startsClass (c :: rest) = startsClass (c :: rest') := by
  by_cases hc : c = '.'
  · subst hc
    cases rest with
    | nil =>
        rw [List.head?_eq_none_iff.mp h.symm]
    | cons d more =>
        obtain ⟨other, rfl⟩ := List.head?_eq_some_iff.mp h.symm
        rfl
  · rw [startsClass_cons_of_ne rest hc, startsClass_cons_of_ne rest' hc]

/-- Induction along the classes of a text. -/
theorem classInduction {motive : Text → Prop} (nil : motive [])
    (plain : ∀ c rest, startsClass (c :: rest) = false → motive rest → motive (c :: rest))
    (run : ∀ name rest, IsRun name rest → motive rest → motive ('.' :: (name ++ rest)))
    (text : Text) : motive text := by
  induction text using behind_induction with
  | nil => exact nil
  | cons c rest ih =>
      cases hstart : startsClass (c :: rest) with
      | false => exact plain c rest hstart (ih [c] rest (List.cons_ne_nil _ _) rfl)
      | true =>
          obtain ⟨name, more, hrun, heq⟩ := startsClass_iff.mp hstart
          rw [heq]
          exact run name more hrun (ih ('.' :: name) more (List.cons_ne_nil _ _) heq)

/-! ## Renaming follows the classes -/

variable {naming : Text → Text}

theorem recogniseClass_plain {before : Option Char} {text : Text}
    (h : startsClass text = false) : recogniseClass before text = none := by
  unfold recogniseClass
  split
  · rename_i rest
    have hname : rest.takeWhile isName = [] := by
      cases rest with
      | nil => rfl
      | cons c more =>
          have hc : isName c = false := h
          simp [hc]
    simp [hname]
  · rfl

theorem recogniseClass_run (before : Option Char) {name rest : Text}
    (h : IsRun name rest) :
    recogniseClass before ('.' :: (name ++ rest)) = some (name, name.length + 1) := by
  simp only [recogniseClass, h.takeWhile_append]
  rw [if_neg (by simpa using h.ne_nil)]

private theorem pieces_plain {c : Char} {rest : Text} (h : startsClass (c :: rest) = false) :
    pieces recogniseClass (c :: rest) = .plain c :: pieces recogniseClass rest := by
  rw [pieces, piecesFrom_plain (recogniseClass_plain h), pieces,
    piecesFrom_before (fun _ _ _ => rfl) (some c) none]

private theorem pieces_run {name rest : Text} (h : IsRun name rest) :
    pieces recogniseClass ('.' :: (name ++ rest)) =
      .item name ('.' :: name) :: pieces recogniseClass rest := by
  have hitem := piecesFrom_item_append (recogniseClass_run none h)
  rw [pieces, ← List.cons_append, hitem, pieces, piecesFrom_before (fun _ _ _ => rfl) _ none]

@[simp] theorem renameText_nil : renameText naming [] = [] := rfl

theorem renameText_plain {c : Char} {rest : Text} (h : startsClass (c :: rest) = false) :
    renameText naming (c :: rest) = c :: renameText naming rest := by
  rw [renameText, substitute, pieces_plain h]
  rfl

theorem renameText_cons_of_ne {c : Char} (rest : Text) (h : c ≠ '.') :
    renameText naming (c :: rest) = c :: renameText naming rest :=
  renameText_plain (startsClass_cons_of_ne rest h)

theorem renameText_run {name rest : Text} (h : IsRun name rest) :
    renameText naming ('.' :: (name ++ rest)) = '.' :: (naming name ++ renameText naming rest) := by
  rw [renameText, substitute, pieces_run h]
  rfl

private theorem map_value_foundFrom (pos pos' : Nat) (found : List (Piece Text)) :
    (foundFrom pos found).map (·.value) = (foundFrom pos' found).map (·.value) := by
  induction found generalizing pos pos' with
  | nil => rfl
  | cons piece rest ih =>
      cases piece with
      | plain c => exact ih _ _
      | item value text =>
          simp only [foundFrom, List.map_cons]
          rw [ih]

@[simp] theorem selectorClasses_nil : selectorClasses [] = [] := rfl

theorem selectorClasses_plain {c : Char} {rest : Text} (h : startsClass (c :: rest) = false) :
    selectorClasses (c :: rest) = selectorClasses rest := by
  rw [selectorClasses, findAll, pieces_plain h]
  exact map_value_foundFrom 1 0 _

theorem selectorClasses_run {name rest : Text} (h : IsRun name rest) :
    selectorClasses ('.' :: (name ++ rest)) = name :: selectorClasses rest := by
  rw [selectorClasses, findAll, pieces_run h]
  simp only [foundFrom, List.map_cons]
  rw [map_value_foundFrom _ 0]
  rfl

theorem isName_of_mem_selectorClasses {text name : Text} (h : name ∈ selectorClasses text) :
    name ≠ [] ∧ ∀ c ∈ name, isName c = true := by
  induction text using classInduction with
  | nil => cases h
  | plain c rest hstart ih =>
      rw [selectorClasses_plain hstart] at h
      exact ih h
  | run word rest hrun ih =>
      rw [selectorClasses_run hrun, List.mem_cons] at h
      rcases h with rfl | h
      · exact ⟨hrun.ne_nil, hrun.chars⟩
      · exact ih h

theorem selectorClasses_append_of_isName {front : Text} (back : Text)
    (h : ∀ c ∈ front, isName c = true) : selectorClasses (front ++ back) = selectorClasses back := by
  induction front with
  | nil => rfl
  | cons c front ih =>
      have hc : c ≠ '.' := by
        rintro rfl
        exact absurd (h '.' List.mem_cons_self) (by decide)
      rw [List.cons_append, selectorClasses_plain (startsClass_cons_of_ne _ hc)]
      exact ih fun d hd => h d (List.mem_cons_of_mem _ hd)

/-- Every place where a class starts gives one. -/
theorem selectorClasses_cons (c : Char) (rest : Text) :
    selectorClasses (c :: rest) =
      if startsClass (c :: rest) then rest.takeWhile isName :: selectorClasses rest
      else selectorClasses rest := by
  split
  · rename_i hstart
    obtain ⟨name, more, hrun, heq⟩ := startsClass_iff.mp hstart
    obtain ⟨rfl, rfl⟩ := List.cons.inj heq
    rw [selectorClasses_run hrun, hrun.takeWhile_append,
      selectorClasses_append_of_isName more hrun.chars]
  · rename_i hstart
    exact selectorClasses_plain (by simpa using hstart)

theorem selectorClasses_drop_suffix (count : Nat) (text : Text) :
    selectorClasses (text.drop count) <:+ selectorClasses text := by
  induction text generalizing count with
  | nil => simp
  | cons c rest ih =>
      cases count with
      | zero => exact List.suffix_refl _
      | succ count =>
          refine (ih count).trans ?_
          rw [selectorClasses_cons]
          split
          · exact List.suffix_cons _ _
          · exact List.suffix_refl _

/-- Only the names of the classes in a text matter. -/
theorem renameText_congr {naming naming' : Text → Text} {text : Text}
    (h : ∀ name ∈ selectorClasses text, naming name = naming' name) :
    renameText naming text = renameText naming' text := by
  induction text using classInduction with
  | nil => rfl
  | plain c rest hstart ih =>
      rw [selectorClasses_plain hstart] at h
      rw [renameText_plain hstart, renameText_plain hstart, ih h]
  | run name rest hrun ih =>
      rw [selectorClasses_run hrun] at h
      rw [renameText_run hrun, renameText_run hrun, h name List.mem_cons_self,
        ih fun n hn => h n (List.mem_cons_of_mem _ hn)]

/-! ## What renaming keeps -/

/-- Whether no class starts among the first characters of a text. -/
def isClear : Nat → Text → Bool
  | 0, _ => true
  | _ + 1, [] => true
  | count + 1, c :: rest => !startsClass (c :: rest) && isClear count rest

theorem isClear_succ {count : Nat} {c : Char} {rest : Text} :
    isClear (count + 1) (c :: rest) = true ↔
      startsClass (c :: rest) = false ∧ isClear count rest = true := by
  simp [isClear]

theorem isClear_of_le {count fewer : Nat} {text : Text} (h : isClear count text = true)
    (hle : fewer ≤ count) : isClear fewer text = true := by
  induction text generalizing count fewer with
  | nil => cases fewer <;> rfl
  | cons c rest ih =>
      cases fewer with
      | zero => rfl
      | succ fewer =>
          cases count with
          | zero => omega
          | succ count =>
              rw [isClear_succ] at h ⊢
              exact ⟨h.1, ih h.2 (by omega)⟩

theorem isClear_append {front : Text} (back : Text) (h : '.' ∉ front) :
    isClear front.length (front ++ back) = true := by
  induction front with
  | nil => rfl
  | cons c front ih =>
      rw [List.mem_cons, not_or] at h
      rw [List.length_cons, List.cons_append, isClear_succ]
      exact ⟨startsClass_cons_of_ne _ (Ne.symm h.1), ih h.2⟩

/-- Where as many classes follow as stand in the whole text, none starts before. -/
theorem isClear_of_length_le {count : Nat} {text : Text}
    (h : (selectorClasses text).length ≤ (selectorClasses (text.drop count)).length) :
    isClear count text = true := by
  induction text generalizing count with
  | nil => cases count <;> rfl
  | cons c rest ih =>
      cases count with
      | zero => rfl
      | succ count =>
          have hrest : (selectorClasses (rest.drop count)).length ≤ (selectorClasses rest).length :=
            (selectorClasses_drop_suffix count rest).length_le
          rw [List.drop_succ_cons, selectorClasses_cons] at h
          rw [isClear_succ]
          split at h
          · rw [List.length_cons] at h
            omega
          · rename_i hstart
            exact ⟨by simpa using hstart, ih h⟩

theorem renameText_of_isClear {count : Nat} {text : Text} (h : isClear count text = true) :
    renameText naming text = text.take count ++ renameText naming (text.drop count) := by
  induction text generalizing count with
  | nil => simp
  | cons c rest ih =>
      cases count with
      | zero => simp
      | succ count =>
          rw [isClear_succ] at h
          rw [renameText_plain h.1, ih h.2]
          simp

theorem take_renameText_of_isClear {count : Nat} {text : Text} (h : isClear count text = true) :
    (renameText naming text).take count = text.take count := by
  induction text generalizing count with
  | nil => simp
  | cons c rest ih =>
      cases count with
      | zero => simp
      | succ count =>
          rw [isClear_succ] at h
          rw [renameText_plain h.1, List.take_succ_cons, List.take_succ_cons, ih h.2]

theorem drop_renameText_of_isClear {count : Nat} {text : Text} (h : isClear count text = true) :
    (renameText naming text).drop count = renameText naming (text.drop count) := by
  induction text generalizing count with
  | nil => simp
  | cons c rest ih =>
      cases count with
      | zero => simp
      | succ count =>
          rw [isClear_succ] at h
          rw [renameText_plain h.1, List.drop_succ_cons, List.drop_succ_cons, ih h.2]

theorem renameText_append {front : Text} (back : Text) (h : '.' ∉ front) :
    renameText naming (front ++ back) = front ++ renameText naming back := by
  have hclear : renameText naming (front ++ back) = _ :=
    renameText_of_isClear (isClear_append back h)
  rwa [List.take_left, List.drop_left] at hclear

@[simp] theorem head?_renameText (text : Text) :
    (renameText naming text).head? = text.head? := by
  induction text using classInduction with
  | nil => rfl
  | plain c rest hstart ih => rw [renameText_plain hstart, List.head?_cons, List.head?_cons]
  | run name rest hrun ih => rw [renameText_run hrun, List.head?_cons, List.head?_cons]

/-- A run that a point ends is the same. -/
theorem takeWhile_renameText {keep : Char → Bool} (h : keep '.' = false) (text : Text) :
    (renameText naming text).takeWhile keep = text.takeWhile keep := by
  induction text using classInduction with
  | nil => rfl
  | plain c rest hstart ih =>
      rw [renameText_plain hstart, List.takeWhile_cons, List.takeWhile_cons, ih]
  | run name rest hrun ih => simp [renameText_run hrun, h]

theorem dropWhile_renameText {keep : Char → Bool} (h : keep '.' = false) (text : Text) :
    (renameText naming text).dropWhile keep = renameText naming (text.dropWhile keep) := by
  induction text using classInduction with
  | nil => rfl
  | plain c rest hstart ih =>
      rw [renameText_plain hstart, List.dropWhile_cons, List.dropWhile_cons]
      split
      · exact ih
      · rw [renameText_plain hstart]
  | run name rest hrun ih => simp [renameText_run hrun, h]

/-- A run that goes on through classes ends behind the same of them. -/
theorem dropWhile_renameText_through {keep : Char → Bool} (hpoint : keep '.' = true)
    (hkeep : ∀ c, isName c = true → keep c = true)
    (hnaming : ∀ name, ∀ c ∈ naming name, isName c = true) (text : Text) :
    (renameText naming text).dropWhile keep = renameText naming (text.dropWhile keep) := by
  induction text using classInduction with
  | nil => rfl
  | plain c rest hstart ih =>
      rw [renameText_plain hstart, List.dropWhile_cons, List.dropWhile_cons]
      split
      · exact ih
      · rw [renameText_plain hstart]
  | run name rest hrun ih =>
      rw [renameText_run hrun, List.dropWhile_cons_of_pos hpoint, List.dropWhile_cons_of_pos hpoint,
        List.dropWhile_append_of_pos fun c hc => hkeep c (hnaming name c hc),
        List.dropWhile_append_of_pos fun c hc => hkeep c (hrun.chars c hc), ih]

/-- A start without a point is the same. -/
theorem isPrefix_renameText {front : Text} (h : '.' ∉ front) (text : Text) :
    front <+: renameText naming text ↔ front <+: text := by
  induction front generalizing text with
  | nil => simp
  | cons c front ih =>
      rw [List.mem_cons, not_or] at h
      cases text with
      | nil => simp
      | cons d rest =>
          cases hstart : startsClass (d :: rest) with
          | false =>
              rw [renameText_plain hstart, List.cons_prefix_cons, List.cons_prefix_cons, ih h.2]
          | true =>
              obtain ⟨name, more, hrun, heq⟩ := startsClass_iff.mp hstart
              rw [heq, renameText_run hrun, List.cons_prefix_cons, List.cons_prefix_cons]
              simp [Ne.symm h.1]

/-- Renaming twice is renaming once, when the names between are names. -/
theorem renameText_renameText {naming naming' : Text → Text} {text : Text}
    (h : ∀ name ∈ selectorClasses text, naming name ≠ [] ∧ ∀ c ∈ naming name, isName c = true) :
    renameText naming' (renameText naming text) = renameText (naming' ∘ naming) text := by
  induction text using classInduction with
  | nil => rfl
  | plain c rest hstart ih =>
      rw [selectorClasses_plain hstart] at h
      have hrenamed : startsClass (c :: renameText naming rest) = false := by
        rw [← hstart]
        exact startsClass_of_head? c (head?_renameText rest)
      rw [renameText_plain hstart, renameText_plain hrenamed, renameText_plain hstart, ih h]
  | run name rest hrun ih =>
      rw [selectorClasses_run hrun] at h
      obtain ⟨hne, hchars⟩ := h name List.mem_cons_self
      have hrenamed : IsRun (naming name) (renameText naming rest) :=
        ⟨hne, hchars, by rw [head?_renameText]; exact hrun.stop⟩
      rw [renameText_run hrun, renameText_run hrenamed, renameText_run hrun,
        ih fun n hn => h n (List.mem_cons_of_mem _ hn)]
      rfl

/-- The classes of a renamed text are the renamed classes, when the new names are names. -/
theorem selectorClasses_renameText {text : Text}
    (h : ∀ name ∈ selectorClasses text, naming name ≠ [] ∧ ∀ c ∈ naming name, isName c = true) :
    selectorClasses (renameText naming text) = (selectorClasses text).map naming := by
  induction text using classInduction with
  | nil => rfl
  | plain c rest hstart ih =>
      rw [selectorClasses_plain hstart] at h ⊢
      rw [renameText_plain hstart, selectorClasses_plain, ih h]
      rw [← hstart]
      exact startsClass_of_head? c (head?_renameText rest)
  | run name rest hrun ih =>
      rw [selectorClasses_run hrun, List.forall_mem_cons] at h
      have hrenamed : IsRun (naming name) (renameText naming rest) :=
        ⟨h.1.1, h.1.2, by rw [head?_renameText]; exact hrun.stop⟩
      rw [renameText_run hrun, selectorClasses_run hrenamed, ih h.2, selectorClasses_run hrun,
        List.map_cons]

end AddonBundle.Stylesheet
