import AddonBundle.Proofs.Assoc
import AddonBundle.Proofs.Stylesheet.VariableToken
/-!
# Variables in the order of the text

A use stands for the value of the last definition that ends before it, in which uses were replaced
there, or for the value given beforehand. Replacing variables fails at the first use that has
neither.
-/

namespace AddonBundle.Stylesheet

open Text

/-! ## Values -/

/-- Pieces with a value in the place of each use. -/
def filled (value : Text → Option Text) (ps : List (Piece VariableToken)) : Text :=
  ps.flatMap fun
    | .plain c => [c]
    | .item (.use name) _ => (value name).getD []
    | .item (.define _ _) _ => []

theorem filled_use (value : Text → Option Text) (name written : Text)
    (rest : List (Piece VariableToken)) :
    filled value (.item (.use name) written :: rest) = (value name).getD [] ++ filled value rest :=
  rfl

/-- The value of a variable behind definitions, which are held last first: that of the last one of
its name, in which uses have the values they had there, or the one given beforehand. -/
def valueAfter (scope : Scope) : List (Text × Text) → Text → Option Text
  | [], name => Assoc.get? name scope
  | (other, value) :: earlier, name =>
    if name = other then
      some (filled (valueAfter scope earlier) (pieces recogniseVariable value))
    else valueAfter scope earlier name

/-- The text of pieces behind definitions: without their own definitions, and with all uses
replaced. -/
def resolved (scope : Scope) : List (Text × Text) → List (Piece VariableToken) → Text
  | _, [] => []
  | earlier, .plain c :: rest => c :: resolved scope earlier rest
  | earlier, .item (.use name) _ :: rest =>
    (valueAfter scope earlier name).getD [] ++ resolved scope earlier rest
  | earlier, .item (.define name value) _ :: rest =>
    resolved scope ((name, value) :: earlier) rest

/-- A use, and the definitions that end before it, last first. -/
structure Usage where
  name : Text
  earlier : List (Text × Text)

/-- The names that are used in pieces. -/
def namesUsed (ps : List (Piece VariableToken)) : List Text :=
  ps.filterMap fun
    | .item (.use name) _ => some name
    | _ => none

/-- The uses in pieces behind definitions, in order. Those in the value of a definition come before
its end. -/
def usages : List (Text × Text) → List (Piece VariableToken) → List Usage
  | _, [] => []
  | earlier, .plain _ :: rest => usages earlier rest
  | earlier, .item (.use name) _ :: rest => ⟨name, earlier⟩ :: usages earlier rest
  | earlier, .item (.define name value) _ :: rest =>
    (namesUsed (pieces recogniseVariable value)).map (⟨·, earlier⟩) ++
      usages ((name, value) :: earlier) rest

/-- No definition of the variable ends before its use, and no value is given beforehand. -/
def Usage.IsUndefined (scope : Scope) (usage : Usage) : Prop :=
  usage.name ∉ usage.earlier.map (·.1) ∧ Assoc.get? usage.name scope = none

theorem valueAfter_eq_none {scope : Scope} {earlier : List (Text × Text)} {name : Text} :
    valueAfter scope earlier name = none ↔
      name ∉ earlier.map (·.1) ∧ Assoc.get? name scope = none := by
  induction earlier with
  | nil => simp [valueAfter]
  | cons definition earlier ih =>
      obtain ⟨other, value⟩ := definition
      rw [valueAfter, List.map_cons, List.mem_cons, not_or]
      split
      · rename_i heq
        simp [heq]
      · rename_i hne
        rw [ih, and_assoc]
        exact (and_iff_right hne).symm

/-! ## Replacing -/

/-- A text, unless a name is missing. -/
def unlessMissing (missing : Option Text) (text : Text) : Except Text Text :=
  match missing with
  | some name => .error name
  | none => .ok text

theorem map_unlessMissing (f : Text → Text) (missing : Option Text) (text : Text) :
    f <$> unlessMissing missing text = unlessMissing missing (f text) := by
  cases missing with
  | none => rfl
  | some name => rfl

/-- Pieces that are no definitions. -/
def AreUses (ps : List (Piece VariableToken)) : Prop :=
  ∀ name value written, Piece.item (.define name value) written ∉ ps

theorem substituteUses_eq {scope : Scope} {value : Text → Option Text}
    (hvalue : ∀ name, Assoc.get? name scope = value name) {ps : List (Piece VariableToken)}
    (h : AreUses ps) :
    substituteUses scope ps =
      unlessMissing ((namesUsed ps).find? fun name => (value name).isNone) (filled value ps) := by
  induction ps with
  | nil => rfl
  | cons piece rest ih =>
      have hrest := ih fun name value written hmem => h name value written (by simp [hmem])
      cases piece with
      | plain c =>
          rw [substituteUses, hrest, map_unlessMissing]
          rfl
      | item token written =>
          cases token with
          | define name value => exact absurd List.mem_cons_self (h name value written)
          | use name =>
              have hnames : namesUsed (.item (.use name) written :: rest) =
                  name :: namesUsed rest := rfl
              rw [substituteUses, hvalue, hrest, hnames, List.find?_cons]
              cases hname : value name with
              | none => rfl
              | some found =>
                  dsimp only
                  rw [map_unlessMissing, filled_use, hname]
                  rfl

theorem substitutePieces_eq {scope start : Scope} {earlier : List (Text × Text)}
    {ps : List (Piece VariableToken)}
    (hscope : ∀ name, Assoc.get? name scope = valueAfter start earlier name)
    (h : ∀ name value written, Piece.item (.define name value) written ∈ ps →
      AreUses (pieces recogniseVariable value)) :
    substitutePieces scope ps =
      unlessMissing
        (((usages earlier ps).find? fun usage =>
          (valueAfter start usage.earlier usage.name).isNone).map (·.name))
        (resolved start earlier ps) := by
  induction ps generalizing scope earlier with
  | nil => rfl
  | cons piece rest ih =>
      have hbehind : ∀ name value written, Piece.item (.define name value) written ∈ rest →
          AreUses (pieces recogniseVariable value) :=
        fun name value written hmem => h name value written (List.mem_cons_of_mem _ hmem)
      cases piece with
      | plain c =>
          rw [substitutePieces, ih hscope hbehind, map_unlessMissing]
          rfl
      | item token written =>
          cases token with
          | use name =>
              rw [substitutePieces, hscope, ih hscope hbehind, usages, List.find?_cons, resolved]
              cases hname : valueAfter start earlier name with
              | none => rfl
              | some found =>
                  dsimp only
                  rw [map_unlessMissing]
                  rfl
          | define name value =>
              have huses := h name value written List.mem_cons_self
              rw [substitutePieces, substituteUses_eq hscope huses, usages, List.find?_append,
                List.find?_map, resolved]
              have hearlier : (fun usage : Usage =>
                  (valueAfter start usage.earlier usage.name).isNone) ∘ (⟨·, earlier⟩) =
                    fun used => (valueAfter start earlier used).isNone := rfl
              rw [hearlier]
              cases (namesUsed (pieces recogniseVariable value)).find?
                fun used => (valueAfter start earlier used).isNone with
              | some used => rfl
              | none =>
                  refine ih (fun other => ?_) hbehind
                  rw [Assoc.get?_put, valueAfter, hscope]

/-! ## Values of definitions -/

theorem StartsUse.of_append {front back : Text} {c : Char} (h : StartsUse (front ++ c :: back))
    (hname : isName c = false) (hopen : c ≠ '(') (hclose : c ≠ ')') : StartsUse front := by
  rcases h with ⟨d, hd, hnamed⟩ | ⟨name, rest, hvariable, heq⟩
  · cases front with
    | nil =>
        cases hd
        rw [hname] at hnamed
        cases hnamed
    | cons e front => exact .inl ⟨d, hd, hnamed⟩
  · have hwritten : '(' :: (name ++ [')']) <+: front ++ c :: back := ⟨rest, by simp [heq]⟩
    have hnot : c ∉ '(' :: (name ++ [')']) := by
      simp only [List.mem_cons, List.mem_append, List.not_mem_nil, or_false, not_or]
      refine ⟨hopen, fun hmem => ?_, hclose⟩
      rw [hvariable.2 c hmem] at hname
      cases hname
    rcases List.prefix_or_prefix_of_prefix hwritten (List.prefix_append front (c :: back)) with
      hinside | hbeyond
    · obtain ⟨more, rfl⟩ := hinside
      exact .inr ⟨name, more, hvariable, by simp⟩
    · obtain ⟨more, hmore⟩ := hbeyond
      rw [← hmore, List.prefix_append_right_inj] at hwritten
      cases more with
      | nil => exact .inr ⟨name, [], hvariable, by simpa using hmore⟩
      | cons d more =>
          obtain rfl := (List.cons_prefix_cons.mp hwritten).1
          exact absurd (hmore ▸ List.mem_append_right front List.mem_cons_self) hnot

theorem SignsUses.of_append_cons {front back : Text} {c : Char}
    (h : SignsUses (front ++ c :: back)) (hname : isName c = false) (hopen : c ≠ '(')
    (hclose : c ≠ ')') : SignsUses front := by
  rintro before behind rfl
  refine StartsUse.of_append (h before (behind ++ c :: back) (by simp)) hname hopen hclose

/-- The value of a definition is cut off behind its uses. -/
theorem IsDefinition.signsUses {written name value front back : Text}
    (h : IsDefinition written name value) (hsigns : SignsUses (front ++ written ++ back)) :
    SignsUses value := by
  obtain ⟨-, before, lead, trail, -, hpadded, rfl⟩ := h
  obtain ⟨c, more, hmore, hc⟩ : ∃ c more, trail ++ ';' :: back = c :: more ∧
      (isBlank c = true ∨ c = ';') := by
    cases hcase : trail with
    | nil => exact ⟨';', back, rfl, .inr rfl⟩
    | cons c trail =>
        exact ⟨c, trail ++ ';' :: back, rfl, .inl (hpadded.trail_blank c (by simp [hcase]))⟩
  have hvalue : SignsUses (value ++ c :: more) := by
    rw [← hmore]
    have hsplit : front ++ '$' :: (name ++ (before ++ ':' :: (lead ++ value ++ trail ++ [';']))) ++
        back = (front ++ '$' :: (name ++ (before ++ ':' :: lead))) ++
          (value ++ (trail ++ ';' :: back)) := by
      simp
    exact (hsplit ▸ hsigns).of_append
  refine hvalue.of_append_cons ?_ ?_ ?_
  all_goals rcases hc with hc | rfl
  · exact isName_of_isBlank hc
  · decide
  · rintro rfl
    exact absurd hc (by decide)
  · decide
  · rintro rfl
    exact absurd hc (by decide)
  · decide

theorem IsRead.isDefinition {ps : List (Piece VariableToken)} (h : IsRead ps)
    {name value written : Text} (hmem : .item (.define name value) written ∈ ps) :
    IsDefinition written name value := by
  induction h with
  | nil => cases hmem
  | plain hc hrest ih => exact ih ((List.mem_cons.mp hmem).resolve_left (by simp))
  | define hwritten hrest ih =>
      rcases List.mem_cons.mp hmem with heq | hmem
      · cases heq
        exact hwritten
      · exact ih hmem
  | use hwritten hlongest hnone hrest ih =>
      exact ih ((List.mem_cons.mp hmem).resolve_left (by simp))

/-- The value of a definition is read from left to right too, and makes no definitions. -/
theorem value_of_mem_pieces {text name value written : Text} (h : SignsUses text)
    (hmem : .item (.define name value) written ∈ pieces recogniseVariable text) :
    IsRead (pieces recogniseVariable value) ∧ AreUses (pieces recogniseVariable value) := by
  have hwritten := (isRead_pieces h).isDefinition hmem
  have hvalue : SignsUses value := by
    obtain ⟨front, back, hsplit⟩ := List.append_of_mem hmem
    have htexts := texts_pieces recogniseVariable text
    rw [hsplit, List.flatMap_append, List.flatMap_cons, Piece.text, ← List.append_assoc] at htexts
    exact hwritten.signsUses (htexts ▸ h)
  have hread := isRead_pieces hvalue
  refine ⟨hread, fun other found inside hinside => ?_⟩
  -- a definition would end in a semicolon, and the value has none
  obtain ⟨-, before, lead, trail, -, -, rfl⟩ := hread.isDefinition hinside
  have hsemicolon : ';' ∈ value := by
    rw [← texts_pieces recogniseVariable value]
    exact List.mem_flatMap.mpr ⟨_, hinside, by simp [Piece.text]⟩
  obtain ⟨-, before', lead', trail', -, hpadded, -⟩ := hwritten
  exact absurd (hpadded.goes_on _ hsemicolon) (by decide)

/-! ## Results -/

section Signs

variable {scope : Scope} {earlier : List (Text × Text)} {ps : List (Piece VariableToken)}

theorem not_mem_filled {value : Text → Option Text}
    (hvalue : ∀ name found, value name = some found → '$' ∉ found) (h : IsRead ps) :
    '$' ∉ filled value ps := by
  have huse : ∀ name, '$' ∉ (value name).getD [] := by
    intro name
    cases hname : value name with
    | none => simp
    | some found => exact hvalue name found hname
  induction h with
  | nil => simp [filled]
  | plain hc hrest ih =>
      rw [filled, List.flatMap_cons]
      exact List.not_mem_append (by simpa using Ne.symm hc) ih
  | define hwritten hrest ih => exact ih
  | use hwritten hlongest hnone hrest ih =>
      rw [filled_use]
      exact List.not_mem_append (huse _) ih

theorem not_mem_valueAfter (hscope : ∀ entry ∈ scope, '$' ∉ entry.2)
    (hearlier : ∀ definition ∈ earlier, IsRead (pieces recogniseVariable definition.2)) :
    ∀ name found, valueAfter scope earlier name = some found → '$' ∉ found := by
  induction earlier with
  | nil => exact fun name found h => hscope _ (Assoc.mem_of_get? h)
  | cons definition earlier ih =>
      rw [List.forall_mem_cons] at hearlier
      intro name found h
      rw [valueAfter] at h
      split at h
      · cases h
        exact not_mem_filled (ih hearlier.2) hearlier.1
      · exact ih hearlier.2 name found h

theorem not_mem_resolved (hscope : ∀ entry ∈ scope, '$' ∉ entry.2) (h : IsRead ps)
    (hearlier : ∀ definition ∈ earlier, IsRead (pieces recogniseVariable definition.2))
    (hvalues : ∀ name value written, Piece.item (.define name value) written ∈ ps →
      IsRead (pieces recogniseVariable value)) : '$' ∉ resolved scope earlier ps := by
  induction h generalizing earlier with
  | nil => simp [resolved]
  | plain hc hrest ih =>
      have hbehind := ih hearlier fun name value written hmem =>
        hvalues name value written (List.mem_cons_of_mem _ hmem)
      rw [resolved, List.mem_cons, not_or]
      exact ⟨Ne.symm hc, hbehind⟩
  | define hwritten hrest ih =>
      rw [resolved]
      refine ih (List.forall_mem_cons.mpr ⟨hvalues _ _ _ List.mem_cons_self, hearlier⟩) ?_
      exact fun name value written hmem => hvalues name value written (List.mem_cons_of_mem _ hmem)
  | @use written name rest hwritten hlongest hnone hrest ih =>
      have hbehind := ih hearlier fun name value written hmem =>
        hvalues name value written (List.mem_cons_of_mem _ hmem)
      rw [resolved]
      refine List.not_mem_append ?_ hbehind
      cases hname : valueAfter scope earlier name with
      | none => simp
      | some found => exact not_mem_valueAfter hscope hearlier name found hname

end Signs

/-! ## The first use that is undefined -/

/-- The first use of some that has no value. -/
def firstUndefined (scope : Scope) (all : List Usage) : Option Usage :=
  all.find? fun usage => (valueAfter scope usage.earlier usage.name).isNone

theorem isNone_valueAfter {scope : Scope} {usage : Usage} :
    (valueAfter scope usage.earlier usage.name).isNone = true ↔ usage.IsUndefined scope := by
  rw [Option.isNone_iff_eq_none, valueAfter_eq_none, Usage.IsUndefined]

theorem firstUndefined_eq_none {scope : Scope} {all : List Usage} :
    firstUndefined scope all = none ↔ ∀ usage ∈ all, ¬ usage.IsUndefined scope := by
  simp only [firstUndefined, List.find?_eq_none, isNone_valueAfter]

theorem firstUndefined_eq_some {scope : Scope} {all : List Usage} {usage : Usage} :
    firstUndefined scope all = some usage ↔
      ∃ before after, all = before ++ usage :: after ∧
        (∀ earlier ∈ before, ¬ earlier.IsUndefined scope) ∧ usage.IsUndefined scope := by
  rw [firstUndefined, List.find?_eq_some_iff_append, isNone_valueAfter]
  simp only [Bool.not_eq_true', ← Bool.not_eq_true, isNone_valueAfter]
  constructor
  · rintro ⟨husage, before, after, hsplit, hbefore⟩
    exact ⟨before, after, hsplit, hbefore, husage⟩
  · rintro ⟨before, after, hsplit, hbefore, husage⟩
    exact ⟨husage, before, after, hsplit, hbefore⟩

/-- Replacing fails for the first use that is undefined, if there is one. -/
theorem substituteVariables_eq {scope : Scope} {path : Option Text} {text : Text}
    (h : SignsUses text) :
    substituteVariables scope path text =
      match firstUndefined scope (usages [] (pieces recogniseVariable text)) with
      | some usage => .error (.variableUndefined usage.name path)
      | none => .ok (resolved scope [] (pieces recogniseVariable text)) := by
  have hstart : ∀ name, Assoc.get? name scope = valueAfter scope [] name := fun _ => rfl
  have hpieces := substitutePieces_eq hstart fun name value written hmem =>
    (value_of_mem_pieces h hmem).2
  rw [substituteVariables, hpieces, firstUndefined]
  cases (usages [] (pieces recogniseVariable text)).find? fun usage =>
    (valueAfter scope usage.earlier usage.name).isNone <;> rfl

/-- Let every dollar sign of a text start a use, and no value given beforehand have one. Then there
is one way to read the text from left to right, and variables are replaced in its order. This fails
exactly when some use comes behind no definition of its variable and none is given beforehand, and
the fault names the first such use. Otherwise the result is the text without its definitions, in
which every use stands for the value of its variable there, and has no dollar sign. -/
theorem substituteVariables_inOrder (scope : Scope) (path : Option Text) (text : Text)
    (hsigns : SignsUses text) (hscope : ∀ entry ∈ scope, '$' ∉ entry.2) :
    ∃ ps, (IsRead ps ∧ ps.flatMap Piece.text = text ∧
        ∀ other, IsRead other → other.flatMap Piece.text = text → other = ps) ∧
      (∀ fault, substituteVariables scope path text = .error fault ↔
        ∃ before usage after, usages [] ps = before ++ usage :: after ∧
          (∀ earlier ∈ before, ¬ earlier.IsUndefined scope) ∧ usage.IsUndefined scope ∧
          fault = .variableUndefined usage.name path) ∧
      (∀ result, substituteVariables scope path text = .ok result ↔
        (∀ usage ∈ usages [] ps, ¬ usage.IsUndefined scope) ∧ result = resolved scope [] ps) ∧
      '$' ∉ resolved scope [] ps := by
  have hread := isRead_pieces hsigns
  refine ⟨pieces recogniseVariable text, ⟨hread, texts_pieces recogniseVariable text, ?_⟩, ?_, ?_,
    ?_⟩
  · rintro other hother rfl
    exact hother.pieces_eq.symm
  · intro fault
    rw [substituteVariables_eq hsigns]
    constructor
    · intro h
      split at h
      · rename_i usage hfirst
        cases h
        obtain ⟨before, after, hsplit, hbefore, hmissing⟩ := firstUndefined_eq_some.mp hfirst
        exact ⟨before, usage, after, hsplit, hbefore, hmissing, rfl⟩
      · cases h
    · rintro ⟨before, usage, after, hsplit, hbefore, hmissing, rfl⟩
      rw [firstUndefined_eq_some.mpr ⟨before, after, hsplit, hbefore, hmissing⟩]
  · intro result
    rw [substituteVariables_eq hsigns, ← firstUndefined_eq_none]
    cases firstUndefined scope (usages [] (pieces recogniseVariable text)) with
    | some usage => simp
    | none => simp [eq_comm]
  · exact not_mem_resolved hscope hread (by simp) fun name value written hmem =>
      (value_of_mem_pieces hsigns hmem).1

/-- A text that defines a variable by another one and then defines that one anew by itself. -/
def shadowingText : Text :=
  "$a: 1; $b: $a$(p) ;$b $a: $a$a;$(a) $b".toList

theorem substituteVariables_inOrder_shadowing :
    (∃ ps, IsRead ps ∧ ps.flatMap Piece.text = shadowingText ∧
      resolved [("p".toList, "P".toList)] [] ps = " 1P 11 1P".toList) ∧
    ∃ ps, IsRead ps ∧ ps.flatMap Piece.text = shadowingText ∧
      ∃ usage ∈ usages [] ps, usage.IsUndefined [] ∧ usage.name = "p".toList := by
  constructor
  · obtain ⟨ps, ⟨hread, htexts, -⟩, -, hok, -⟩ := substituteVariables_inOrder
      [("p".toList, "P".toList)] none shadowingText (by decide +kernel) (by decide)
    refine ⟨ps, hread, htexts, ((hok " 1P 11 1P".toList).mp (by decide +kernel)).2.symm⟩
  · obtain ⟨ps, ⟨hread, htexts, -⟩, herror, -⟩ := substituteVariables_inOrder [] none shadowingText
      (by decide +kernel) (by decide)
    obtain ⟨before, usage, after, hsplit, -, hmissing, hname⟩ :=
      (herror (.variableUndefined "p".toList none)).mp (by decide +kernel)
    have hmessage := (Fault.mk.inj hname).2.1
    exact ⟨ps, hread, htexts, usage, by simp [hsplit], hmissing,
      (List.append_cancel_left hmessage).symm⟩

end AddonBundle.Stylesheet
