import AddonBundle.Proofs.Stylesheet.Nesting
import Mathlib.Logic.Relation
/-!
# Imports in depth-first order

Putting imports in place walks through the files that import each other: depth first, in the order
in which the imports stand. The walk is described apart from the function that makes it, by a slot
for each piece of a stylesheet: text that stays, a file put in the place of its import, or nothing.
An import gives its file exactly when no import of that file has been met before. This determines
the slots, and so the text: every file that is reached gives its own text once.
-/

namespace AddonBundle.Stylesheet

open Text

variable {σ : Type}

/-! ## Slots -/

/-- What stands in the place of a piece: its text, nothing for an import that is left out, or the
slots of the imported file under a media query. -/
inductive Slot where
  | kept (text : Text)
  | left (path : Text)
  | put (path media : Text) (slots : List Slot)

mutual

/-- The text of a slot. -/
def Slot.text : Slot → Text
  | .kept text => text
  | .left _ => []
  | .put _ media slots => underMedia media (textOf slots)

/-- The text of slots. -/
def textOf : List Slot → Text
  | [] => []
  | slot :: rest => slot.text ++ textOf rest

end

/-- The text that slots have of their own stylesheet. -/
def ownText (slots : List Slot) : Text :=
  slots.flatMap fun
    | .kept text => text
    | _ => []

/-- An import that is met: the path it leads to, and the slots of the file if it is put there. -/
structure Meeting where
  path : Text
  slots? : Option (List Slot)

mutual

/-- The imports met in a slot, depth first. -/
def Slot.meetings : Slot → List Meeting
  | .kept _ => []
  | .left path => [⟨path, none⟩]
  | .put path _ slots => ⟨path, some slots⟩ :: meetings slots

/-- The imports met in slots, depth first. -/
def meetings : List Slot → List Meeting
  | [] => []
  | slot :: rest => slot.meetings ++ meetings rest

end

/-- The files that are put in the place of an import, in order. -/
def entered (meetings : List Meeting) : List Text :=
  (meetings.filter fun meeting => meeting.slots?.isSome).map (·.path)

/-- An import gives its file exactly when the file is met for the first time. -/
def FirstMet (seen : List Text) (meetings : List Meeting) : Prop :=
  ∀ before meeting after, meetings = before ++ meeting :: after →
    (meeting.slots?.isSome = true ↔
      meeting.path ∉ seen ∧ ∀ earlier ∈ before, earlier.path ≠ meeting.path)

/-- The pieces of a stylesheet between its comments. -/
def importPieces (text : Text) : List (Piece Import) :=
  pieces recogniseImport (dropComments text)

/-- Slots belong to the pieces of a stylesheet from a brace depth on. Plain characters stay, and so
do imports inside braces and of other machines. In the place of another import there is its file,
with slots of its own, or nothing. -/
inductive HasSlots (view : View σ) (s : σ) : Text → Int → List (Piece Import) → List Slot → Prop
  | nil {importer : Text} {depth : Int} : HasSlots view s importer depth [] []
  | plain {importer : Text} {depth : Int} {c : Char} {rest : List (Piece Import)}
      {slots : List Slot} (hrest : HasSlots view s importer (depthAfter depth c) rest slots) :
      HasSlots view s importer depth (.plain c :: rest) (.kept [c] :: slots)
  | kept {importer : Text} {depth : Int} {statement : Import} {text : Text}
      {rest : List (Piece Import)} {slots : List Slot}
      (hkept : depth ≠ 0 ∨ isRemote (trim statement.target) = true)
      (hrest : HasSlots view s importer depth rest slots) :
      HasSlots view s importer depth (.item statement text :: rest) (.kept text :: slots)
  | left {importer : Text} {statement : Import} {text : Text} {rest : List (Piece Import)}
      {slots : List Slot} (hlocal : isRemote (trim statement.target) = false)
      (hrest : HasSlots view s importer 0 rest slots) :
      HasSlots view s importer 0 (.item statement text :: rest)
        (.left (importPath importer (trim statement.target)) :: slots)
  | put {importer : Text} {statement : Import} {text sheet : Text} {rest : List (Piece Import)}
      {inner slots : List Slot} (hlocal : isRemote (trim statement.target) = false)
      (hfile : view.isFile s (importPath importer (trim statement.target)) = .ok true)
      (hread : readSheet view s (importPath importer (trim statement.target)) = .ok sheet)
      (hinner : HasSlots view s (importPath importer (trim statement.target)) 0
        (importPieces sheet) inner)
      (hrest : HasSlots view s importer 0 rest slots) :
      HasSlots view s importer 0 (.item statement text :: rest)
        (.put (importPath importer (trim statement.target)) (trim statement.media) inner :: slots)

/-! ## First meetings -/

theorem firstMet_nil (seen : List Text) : FirstMet seen [] := by
  intro before meeting after hsplit
  exact absurd hsplit (by simp)

theorem firstMet_cons {seen : List Text} {meeting : Meeting} {rest : List Meeting} :
    FirstMet seen (meeting :: rest) ↔
      (meeting.slots?.isSome = true ↔ meeting.path ∉ seen) ∧
        FirstMet (meeting.path :: seen) rest := by
  have hknown : ∀ (before : List Meeting) (path : Text),
      (path ∉ seen ∧ ∀ earlier ∈ meeting :: before, earlier.path ≠ path) ↔
        path ∉ meeting.path :: seen ∧ ∀ earlier ∈ before, earlier.path ≠ path := by
    intro before path
    rw [List.forall_mem_cons, List.mem_cons, not_or, and_assoc, and_left_comm, ne_comm]
  constructor
  · intro h
    refine ⟨by simpa using h [] meeting rest rfl, ?_⟩
    intro before later after hsplit
    rw [← hknown]
    exact h (meeting :: before) later after (by rw [hsplit, List.cons_append])
  · rintro ⟨hfirst, hrest⟩ before later after hsplit
    cases before with
    | nil =>
        obtain ⟨rfl, -⟩ := List.cons.inj hsplit
        simpa using hfirst
    | cons first before =>
        obtain ⟨rfl, hlater⟩ := List.cons.inj hsplit
        rw [hknown]
        exact hrest before later after hlater

/-- Which files have been met is all that matters. -/
theorem FirstMet.congr {seen seen' : List Text} {meetings : List Meeting}
    (hseen : ∀ path, path ∈ seen ↔ path ∈ seen') (h : FirstMet seen meetings) :
    FirstMet seen' meetings := by
  intro before meeting after hsplit
  rw [← hseen]
  exact h before meeting after hsplit

theorem firstMet_append {seen : List Text} {front back : List Meeting} :
    FirstMet seen (front ++ back) ↔
      FirstMet seen front ∧ FirstMet (front.map (·.path) ++ seen) back := by
  induction front generalizing seen with
  | nil => simp [firstMet_nil]
  | cons meeting front ih =>
      have hseen : ∀ path, path ∈ front.map (·.path) ++ meeting.path :: seen ↔
          path ∈ (meeting :: front).map (·.path) ++ seen := by
        intro path
        simp only [List.map_cons, List.mem_append, List.mem_cons, or_left_comm, or_assoc]
      rw [List.cons_append, firstMet_cons, firstMet_cons, ih, and_assoc]
      exact and_congr_right fun _ => and_congr_right fun _ =>
        ⟨FirstMet.congr hseen, FirstMet.congr fun path => (hseen path).symm⟩

@[simp] theorem entered_nil : entered [] = [] := rfl

theorem entered_append (front back : List Meeting) :
    entered (front ++ back) = entered front ++ entered back := by
  simp [entered]

theorem entered_cons_some (path : Text) (slots : List Slot) (rest : List Meeting) :
    entered (⟨path, some slots⟩ :: rest) = path :: entered rest := rfl

theorem entered_cons_none (path : Text) (rest : List Meeting) :
    entered (⟨path, none⟩ :: rest) = entered rest := rfl

/-- Every file that is met has been entered, unless it was known before. -/
theorem FirstMet.mem_entered {seen : List Text} {meetings : List Meeting}
    (h : FirstMet seen meetings) (path : Text) :
    path ∈ (entered meetings).reverse ++ seen ↔ path ∈ meetings.map (·.path) ++ seen := by
  induction meetings generalizing seen with
  | nil => rfl
  | cons meeting rest ih =>
      obtain ⟨hfirst, hrest⟩ := firstMet_cons.mp h
      have hbehind := ih hrest
      obtain ⟨other, slots?⟩ := meeting
      cases slots? with
      | some slots =>
          rw [entered_cons_some]
          simp only [List.mem_append, List.mem_reverse, List.mem_cons, List.map_cons] at hbehind ⊢
          grind
      | none =>
          have hknown : other ∈ seen := by simpa using hfirst
          rw [entered_cons_none]
          simp only [List.mem_append, List.mem_reverse, List.mem_cons, List.map_cons] at hbehind ⊢
          grind

/-- No file is entered twice, and none that was known before. -/
theorem FirstMet.nodup_entered {seen : List Text} {meetings : List Meeting}
    (h : FirstMet seen meetings) :
    (entered meetings).Nodup ∧ ∀ path ∈ entered meetings, path ∉ seen := by
  induction meetings generalizing seen with
  | nil => simp
  | cons meeting rest ih =>
      obtain ⟨hfirst, hrest⟩ := firstMet_cons.mp h
      obtain ⟨hnodup, hfresh⟩ := ih hrest
      obtain ⟨path, slots?⟩ := meeting
      cases slots? with
      | none =>
          exact ⟨hnodup, fun other hother hseen =>
            hfresh other hother (List.mem_cons_of_mem _ hseen)⟩
      | some slots =>
          rw [entered_cons_some, List.nodup_cons, List.forall_mem_cons]
          exact ⟨⟨fun hmem => hfresh path hmem List.mem_cons_self, hnodup⟩, hfirst.mp rfl,
            fun other hother hseen => hfresh other hother (List.mem_cons_of_mem _ hseen)⟩

/-! ## Putting imports in place -/

/-- Slots for the pieces of a stylesheet in which each file stands where it is first met, and what
they give: their text, and the files met by then. -/
structure Arranges (view : View σ) (s : σ) (importer : Text) (depth : Int) (seen : List Text)
    (pieces : List (Piece Import)) (outcome : Text × List Text) (slots : List Slot) : Prop where
  hasSlots : HasSlots view s importer depth pieces slots
  first : FirstMet seen (meetings slots)
  text_eq : outcome.1 = textOf slots
  met_eq : outcome.2 = (entered (meetings slots)).reverse ++ seen

variable {view : View σ} {s : σ}

/-- When every load gives the text of its file as its slots have it, so do the pieces of the
stylesheet that asks for the loads. -/
theorem exists_slots_of_inlinePieces
    {load : List Text → Text → Text → Except Failure (Text × List Text)} {importer : Text}
    (hload : ∀ seen path target outcome, load seen path target = .ok outcome →
      view.isFile s path = .ok true ∧ ∃ sheet inner, readSheet view s path = .ok sheet ∧
        Arranges view s path 0 (path :: seen) (importPieces sheet) outcome inner)
    {depth : Int} {seen : List Text} {pieces : List (Piece Import)} :
    ∀ outcome : Text × List Text, inlinePieces load importer depth seen pieces = .ok outcome →
      ∃ slots, Arranges view s importer depth seen pieces outcome slots := by
  fun_induction inlinePieces load importer depth seen pieces with
  | case1 depth seen =>
      rintro _ ⟨⟩
      exact ⟨[], .nil, firstMet_nil seen, rfl, rfl⟩
  | case2 depth seen c rest ih =>
      intro outcome h
      obtain ⟨behind, hrest, rfl⟩ := ok_of_map h
      obtain ⟨slots, hslots⟩ := ih _ hrest
      refine ⟨.kept [c] :: slots, .plain hslots.hasSlots, hslots.first, ?_, hslots.met_eq⟩
      rw [textOf, Slot.text, ← hslots.text_eq]
      rfl
  | case3 depth seen statement text rest target hkept ih =>
      intro outcome h
      obtain ⟨behind, hrest, rfl⟩ := ok_of_map h
      obtain ⟨slots, hslots⟩ := ih _ hrest
      refine ⟨.kept text :: slots, .kept (by simpa using hkept) hslots.hasSlots, hslots.first, ?_,
        hslots.met_eq⟩
      rw [textOf, Slot.text, ← hslots.text_eq]
  | case4 depth seen statement text rest target hkept path hseen ih =>
      intro outcome h
      obtain ⟨rfl, hlocal⟩ : depth = 0 ∧ isRemote target = false := by simpa using hkept
      have hmem : path ∈ seen := by simpa using hseen
      obtain ⟨slots, hslots⟩ := ih _ h
      refine ⟨.left path :: slots, .left hlocal hslots.hasSlots, ?_, hslots.text_eq, hslots.met_eq⟩
      refine firstMet_cons.mpr ⟨by simp [hmem], hslots.first.congr fun other => ?_⟩
      rw [List.mem_cons, iff_or_self]
      rintro rfl
      exact hmem
  | case5 =>
      intro outcome h
      cases h
  | case6 depth seen statement text rest target hkept path hseen imported met hmet ih =>
      intro outcome h
      obtain ⟨rfl, hlocal⟩ : depth = 0 ∧ isRemote target = false := by simpa using hkept
      have hmem : path ∉ seen := by simpa using hseen
      obtain ⟨behind, hrest, rfl⟩ := ok_of_map h
      obtain ⟨hfile, sheet, inner, hread, hinner⟩ := hload _ _ _ _ hmet
      obtain ⟨slots, hslots⟩ := ih _ hrest
      have hmeteq : met = (entered (meetings inner)).reverse ++ path :: seen := hinner.met_eq
      refine ⟨.put path (trim statement.media) inner :: slots,
        .put hlocal hfile hread hinner.hasSlots hslots.hasSlots, ?_, ?_, ?_⟩
      · refine firstMet_cons.mpr ⟨by simp [hmem], firstMet_append.mpr ⟨hinner.first, ?_⟩⟩
        refine hslots.first.congr fun other => ?_
        rw [hmeteq]
        exact hinner.first.mem_entered other
      · rw [textOf, Slot.text, ← hslots.text_eq, ← hinner.text_eq]
      · rw [hslots.met_eq, hmeteq]
        simp [meetings, Slot.meetings, entered_append, entered_cons_some]

/-- What putting imports in place gives is what its slots give. -/
theorem exists_slots_of_inlineImports {deeper : Nat} {seen : List Text} {importer text : Text}
    {outcome : Text × List Text}
    (h : inlineImports view s deeper seen importer text = .ok outcome) :
    ∃ slots, Arranges view s importer 0 seen (importPieces text) outcome slots := by
  induction deeper generalizing seen importer text outcome with
  | zero => cases h
  | succ deeper ih =>
      rw [inlineImports_succ] at h
      refine exists_slots_of_inlinePieces ?_ _ h
      intro seen path target outcome hload
      unfold loadFor at hload
      split at hload
      · cases hload
      · cases hload
      · rename_i hfile
        split at hload
        · cases hload
        · rename_i sheet hread
          obtain ⟨inner, hinner⟩ := ih hload
          exact ⟨hfile, sheet, inner, hread, hinner⟩

/-- The order of first meetings determines the slots. -/
theorem HasSlots.unique {importer : Text} {depth : Int} {pieces : List (Piece Import)}
    {slots other : List Slot} {seen : List Text}
    (h : HasSlots view s importer depth pieces slots)
    (hother : HasSlots view s importer depth pieces other)
    (hfirst : FirstMet seen (meetings slots)) (hfirst' : FirstMet seen (meetings other)) :
    slots = other := by
  induction h generalizing other seen with
  | nil =>
      cases hother
      rfl
  | plain hrest ih =>
      cases hother with
      | plain hrest' => rw [ih hrest' hfirst hfirst']
  | kept hkept hrest ih =>
      cases hother with
      | kept hkept' hrest' => rw [ih hrest' hfirst hfirst']
      | left hlocal hrest' => simp [hlocal] at hkept
      | put hlocal hfile hread hinner hrest' => simp [hlocal] at hkept
  | left hlocal hrest ih =>
      obtain ⟨hknown, hbehind⟩ := firstMet_cons.mp hfirst
      cases hother with
      | kept hkept' hrest' => simp [hlocal] at hkept'
      | left hlocal' hrest' => rw [ih hrest' hbehind (firstMet_cons.mp hfirst').2]
      | put hlocal' hfile hread hinner hrest' =>
          exact absurd ((firstMet_cons.mp hfirst').1.mp rfl) (by simpa using hknown)
  | put hlocal hfile hread hinner hrest ihInner ihRest =>
      obtain ⟨hnew, hbehind⟩ := firstMet_cons.mp hfirst
      obtain ⟨hinside, hafter⟩ := firstMet_append.mp hbehind
      cases hother with
      | kept hkept' hrest' => simp [hlocal] at hkept'
      | left hlocal' hrest' =>
          exact absurd (hnew.mp rfl) (by simpa using (firstMet_cons.mp hfirst').1)
      | put hlocal' hfile' hread' hinner' hrest' =>
          obtain ⟨hinside', hafter'⟩ := firstMet_append.mp (firstMet_cons.mp hfirst').2
          obtain rfl := Except.ok.inj (hread.symm.trans hread')
          obtain rfl := ihInner hinner' hinside hinside'
          rw [ihRest hrest' hafter hafter']

/-! ## Files that are reached -/

/-- The paths that the imports at the top level lead to, from a brace depth on, in order. -/
def topPaths (importer : Text) : Int → List (Piece Import) → List Text
  | _, [] => []
  | depth, .plain c :: rest => topPaths importer (depthAfter depth c) rest
  | depth, .item statement _ :: rest =>
    if depth ≠ 0 || isRemote (trim statement.target) then topPaths importer depth rest
    else importPath importer (trim statement.target) :: topPaths importer depth rest

/-- The text of a stylesheet without the imports at the top level that lead to other files, from a
brace depth on. -/
def withoutImports : Int → List (Piece Import) → Text
  | _, [] => []
  | depth, .plain c :: rest => c :: withoutImports (depthAfter depth c) rest
  | depth, .item statement text :: rest =>
    if depth ≠ 0 || isRemote (trim statement.target) then text ++ withoutImports depth rest
    else withoutImports depth rest

/-- A file imports a path at its top level. -/
def Leads (view : View σ) (s : σ) (importer path : Text) : Prop :=
  ∃ text, readSheet view s importer = .ok text ∧ path ∈ topPaths importer 0 (importPieces text)

/-- A stylesheet and the files put in place in it, each with its slots, in the order in which they
are entered. -/
def sheets (path : Text) (slots : List Slot) : List (Text × List Slot) :=
  (path, slots) :: (meetings slots).filterMap fun meeting =>
    meeting.slots?.map fun inner => (meeting.path, inner)

theorem map_fst_sheets (path : Text) (slots : List Slot) :
    (sheets path slots).map (·.1) = path :: entered (meetings slots) := by
  rw [sheets, List.map_cons, List.cons.injEq]
  refine ⟨rfl, ?_⟩
  induction meetings slots with
  | nil => rfl
  | cons meeting rest ih =>
      obtain ⟨other, slots?⟩ := meeting
      cases slots? with
      | none => exact ih
      | some inner => exact congrArg (other :: ·) ih

theorem mem_sheets {path file : Text} {slots inner : List Slot} :
    (file, inner) ∈ sheets path slots ↔
      (file = path ∧ inner = slots) ∨ ⟨file, some inner⟩ ∈ meetings slots := by
  rw [sheets, List.mem_cons, Prod.mk.injEq, List.mem_filterMap]
  refine or_congr Iff.rfl ⟨?_, fun h => ⟨_, h, rfl⟩⟩
  rintro ⟨⟨other, slots?⟩, hmem, heq⟩
  obtain ⟨found, rfl, heq⟩ := Option.map_eq_some_iff.mp heq
  cases heq
  exact hmem

theorem exists_import_of_mem_topPaths {importer path : Text} {depth : Int}
    {pieces : List (Piece Import)} (h : path ∈ topPaths importer depth pieces) :
    ∃ statement text, Piece.item statement text ∈ pieces ∧
      isRemote (trim statement.target) = false ∧
      path = importPath importer (trim statement.target) := by
  fun_induction topPaths importer depth pieces with
  | case1 => cases h
  | case2 depth c rest ih =>
      obtain ⟨statement, text, hmem, hlocal⟩ := ih h
      exact ⟨statement, text, List.mem_cons_of_mem _ hmem, hlocal⟩
  | case3 depth statement text rest hkept ih =>
      obtain ⟨other, text', hmem, hlocal⟩ := ih h
      exact ⟨other, text', List.mem_cons_of_mem _ hmem, hlocal⟩
  | case4 depth statement text rest hkept ih =>
      rcases List.mem_cons.mp h with rfl | h
      · have hlocal : isRemote (trim statement.target) = false := by
          rw [Bool.or_eq_true, not_or] at hkept
          exact Bool.not_eq_true _ ▸ hkept.2
        exact ⟨statement, text, List.mem_cons_self, hlocal, rfl⟩
      · obtain ⟨other, text', hmem, hlocal⟩ := ih h
        exact ⟨other, text', List.mem_cons_of_mem _ hmem, hlocal⟩

namespace HasSlots

variable {importer : Text} {depth : Int} {pieces : List (Piece Import)} {slots : List Slot}

theorem ownText_eq (h : HasSlots view s importer depth pieces slots) :
    ownText slots = withoutImports depth pieces := by
  induction h with
  | nil => rfl
  | plain hrest ih => rw [withoutImports, ← ih]; rfl
  | kept hkept hrest ih =>
      rw [withoutImports, if_pos (by simpa using hkept), ← ih]
      rfl
  | left hlocal hrest ih =>
      rw [withoutImports, if_neg (by simp [hlocal]), ← ih]
      rfl
  | put hlocal hfile hread hinner hrest ihInner ihRest =>
      rw [withoutImports, if_neg (by simp [hlocal]), ← ihRest]
      rfl

/-- Every import at the top level is met. -/
theorem mem_meetings (h : HasSlots view s importer depth pieces slots) {path : Text}
    (hpath : path ∈ topPaths importer depth pieces) : path ∈ (meetings slots).map (·.path) := by
  induction h with
  | nil => cases hpath
  | plain hrest ih => exact ih hpath
  | kept hkept hrest ih =>
      rw [topPaths, if_pos (by simpa using hkept)] at hpath
      exact ih hpath
  | left hlocal hrest ih =>
      rw [topPaths, if_neg (by simp [hlocal])] at hpath
      exact (List.mem_cons.mp hpath).elim (fun heq => heq ▸ List.mem_cons_self)
        fun hmem => List.mem_cons_of_mem _ (ih hmem)
  | put hlocal hfile hread hinner hrest ihInner ihRest =>
      rw [topPaths, if_neg (by simp [hlocal])] at hpath
      rcases List.mem_cons.mp hpath with rfl | hmem
      · exact List.mem_cons_self
      · rw [meetings, List.map_append]
        exact List.mem_append_right _ (ihRest hmem)

/-- A file that is put in place has slots for its own pieces, in which no other imports are met. -/
theorem inner (h : HasSlots view s importer depth pieces slots) {path : Text}
    {inner : List Slot} (hmem : ⟨path, some inner⟩ ∈ meetings slots) :
    view.isFile s path = .ok true ∧ meetings inner ⊆ meetings slots ∧
      ∃ sheet, readSheet view s path = .ok sheet ∧
        HasSlots view s path 0 (importPieces sheet) inner := by
  induction h with
  | nil => cases hmem
  | plain hrest ih => exact ih hmem
  | kept hkept hrest ih => exact ih hmem
  | left hlocal hrest ih =>
      obtain ⟨hfile, hsubset, hsheet⟩ := ih ((List.mem_cons.mp hmem).resolve_left (by simp))
      exact ⟨hfile, List.subset_cons_of_subset _ hsubset, hsheet⟩
  | put hlocal hfile hread hinner hrest ihInner ihRest =>
      rcases List.mem_append.mp hmem with hmem | hmem
      · rcases List.mem_cons.mp hmem with heq | hmem
        · cases heq
          exact ⟨hfile, List.subset_append_of_subset_left _ (List.subset_cons_self _ _), _, hread,
            hinner⟩
        · obtain ⟨hfile', hsubset, hsheet⟩ := ihInner hmem
          exact ⟨hfile', List.subset_append_of_subset_left _
            (List.subset_cons_of_subset _ hsubset), hsheet⟩
      · obtain ⟨hfile', hsubset, hsheet⟩ := ihRest hmem
        exact ⟨hfile', List.subset_append_of_subset_right _ hsubset, hsheet⟩

/-- Imports that are met lead on from the stylesheet. -/
theorem reaches (h : HasSlots view s importer depth pieces slots)
    (hown : ∀ path ∈ topPaths importer depth pieces, Leads view s importer path) {meeting : Meeting}
    (hmem : meeting ∈ meetings slots) :
    Relation.ReflTransGen (Leads view s) importer meeting.path := by
  induction h with
  | nil => cases hmem
  | plain hrest ih => exact ih hown hmem
  | kept hkept hrest ih =>
      rw [topPaths, if_pos (by simpa using hkept)] at hown
      exact ih hown hmem
  | left hlocal hrest ih =>
      rw [topPaths, if_neg (by simp [hlocal]), List.forall_mem_cons] at hown
      rcases List.mem_cons.mp hmem with rfl | hmem
      · exact .single hown.1
      · exact ih hown.2 hmem
  | put hlocal hfile hread hinner hrest ihInner ihRest =>
      rw [topPaths, if_neg (by simp [hlocal]), List.forall_mem_cons] at hown
      rcases List.mem_append.mp hmem with hmem | hmem
      · rcases List.mem_cons.mp hmem with rfl | hmem
        · exact .single hown.1
        · exact .head hown.1 (ihInner (fun path hpath => ⟨_, hread, hpath⟩) hmem)
      · exact ihRest hown.2 hmem

end HasSlots

/-! ## Files that are found -/

/-- The imports of every stylesheet in a tree that are no remote ones have plain targets. -/
def PlainTargets (tree : Tree) : Prop :=
  ∀ key bytes sheet, tree.get? key = some bytes → Utf8.decode bytes = .ok sheet →
    ∀ target ∈ localTargets sheet, Path.IsPlain target

variable {get : σ → Tree} {set : Tree → σ → σ}

theorem mem_localTargets_of_mem_topPaths {importer path text : Text}
    (h : path ∈ topPaths importer 0 (importPieces text)) :
    ∃ target ∈ localTargets text, path = importPath importer target := by
  obtain ⟨statement, text', hmem, hlocal, heq⟩ := exists_import_of_mem_topPaths h
  exact ⟨_, List.mem_filterMap.mpr ⟨_, hmem, by simp [hlocal]⟩, heq⟩

/-- The paths that plain targets lead to start as the first one does. -/
theorem exists_normalize_of_reaches {path file : Text} (hplain : PlainTargets (get s))
    (hback : '\\' ∉ path) (hnormal : Path.normalize path = path)
    (h : Relation.ReflTransGen (Leads (.memory get set) s) path file) :
    ∃ raw, '\\' ∉ raw ∧ Path.leadingSlashes raw = Path.leadingSlashes path ∧
      file = Path.normalize raw := by
  induction h with
  | refl => exact ⟨path, hback, rfl, hnormal.symm⟩
  | tail hreach hleads ih =>
      obtain ⟨raw, hraw, hleading, rfl⟩ := ih
      obtain ⟨sheet, hread, hpath⟩ := hleads
      obtain ⟨target, htarget, rfl⟩ := mem_localTargets_of_mem_topPaths hpath
      have hplaintarget : Path.IsPlain target := by
        obtain ⟨bytes, text, hget, hdecode, hread'⟩ | ⟨fault, -, hread'⟩ :=
          readSheet_memory get set s (Path.normalize raw)
        · rw [hread] at hread'
          cases hread'
          exact hplain _ _ _ hget hdecode target htarget
        · rw [hread] at hread'
          cases hread'
      refine ⟨_, ?_, ?_, rfl⟩
      · have hparent := (Path.parent_isPrefix (Path.normalize raw)).subset
        exact Path.backslash_not_mem_append
          (fun hmem => Path.backslash_not_mem_normalize hraw (hparent hmem)) hplaintarget.1
      · rw [Path.leadingSlashes_append_parent hplaintarget.2, Path.leadingSlashes_normalize hraw,
          hleading]

/-- From plain targets no file is reached by two paths. -/
theorem eq_of_reaches_of_key {path file other : Text} (hplain : PlainTargets (get s))
    (hback : '\\' ∉ path) (hnormal : Path.normalize path = path)
    (hfile : Relation.ReflTransGen (Leads (.memory get set) s) path file)
    (hother : Relation.ReflTransGen (Leads (.memory get set) s) path other)
    (hkey : Path.key file = Path.key other) : file = other := by
  obtain ⟨raw, hraw, hleading, rfl⟩ := exists_normalize_of_reaches hplain hback hnormal hfile
  obtain ⟨raw', hraw', hleading', rfl⟩ := exists_normalize_of_reaches hplain hback hnormal hother
  rw [Path.key_normalize hraw, Path.key_normalize hraw'] at hkey
  exact Path.normalize_eq_of_key hraw hraw' (hleading.trans hleading'.symm) hkey

/-! ## Files that are flattened -/

/-- The files that are entered are those that the stylesheet leads to. -/
theorem mem_entered_iff {path text : Text} {slots : List Slot}
    (hread : readSheet view s path = .ok text)
    (hslots : HasSlots view s path 0 (importPieces text) slots)
    (hfirst : FirstMet [path] (meetings slots)) (file : Text) :
    file ∈ path :: entered (meetings slots) ↔ Relation.ReflTransGen (Leads view s) path file := by
  have hknown : ∀ file, file ∈ path :: entered (meetings slots) ↔
      file = path ∨ file ∈ (meetings slots).map (·.path) := by
    intro file
    have hmet := hfirst.mem_entered file
    simp only [List.mem_append, List.mem_reverse, List.mem_singleton] at hmet
    rw [List.mem_cons, or_comm, hmet, or_comm]
  constructor
  · intro hmem
    rcases (hknown file).mp hmem with rfl | hmem
    · exact .refl
    · obtain ⟨meeting, hmeeting, rfl⟩ := List.mem_map.mp hmem
      exact hslots.reaches (fun next hnext => ⟨text, hread, hnext⟩) hmeeting
  · intro hreach
    induction hreach with
    | refl => exact List.mem_cons_self
    | tail hreach hleads ih =>
        rename_i importer next
        obtain ⟨sheet, hsheet, hnext⟩ := hleads
        rw [hknown]
        right
        rw [← map_fst_sheets] at ih
        obtain ⟨⟨_, inner⟩, hinner, rfl⟩ := List.mem_map.mp ih
        rcases mem_sheets.mp hinner with ⟨heq, rfl⟩ | hinner
        · dsimp only at heq hsheet hnext
          subst heq
          obtain rfl := Except.ok.inj (hread.symm.trans hsheet)
          exact hslots.mem_meetings hnext
        · obtain ⟨-, hsubset, sheet', hread', hslots'⟩ := hslots.inner hinner
          obtain rfl := Except.ok.inj (hread'.symm.trans hsheet)
          exact List.map_subset _ hsubset (hslots'.mem_meetings hnext)

/-- Every stylesheet gives what it has between its imports. -/
theorem ownText_of_mem_sheets {path text : Text} {slots : List Slot}
    (hread : readSheet view s path = .ok text)
    (hslots : HasSlots view s path 0 (importPieces text) slots) {file : Text} {inner : List Slot}
    (hmem : (file, inner) ∈ sheets path slots) :
    ∃ own, readSheet view s file = .ok own ∧
      ownText inner = withoutImports 0 (importPieces own) := by
  rcases mem_sheets.mp hmem with ⟨rfl, rfl⟩ | hmem
  · exact ⟨text, hread, hslots.ownText_eq⟩
  · obtain ⟨-, -, own, hown, hslots'⟩ := hslots.inner hmem
    exact ⟨own, hown, hslots'.ownText_eq⟩

/-- Flattening puts imports in place depth first. When it comes to variables, the text has slots
for the pieces of the stylesheet, and these are the only ones in which every file stands where it
is first met. Their text is the one in which variables are replaced. The files are those that the
stylesheet leads to by imports at the top level, each entered once; each gives its own text without
these imports. When no target has a backslash or starts at the root, no file of the tree is entered
under two paths. -/
theorem flatten_depthFirst (get : σ → Tree) (set : Tree → σ → σ) (s : σ)
    (path text result : Text) (met : List Text) (hnormal : Path.normalize path = path)
    (hfile : (View.memory get set).isFile s path = .ok true)
    (hread : readSheet (.memory get set) s path = .ok text)
    (hinline : inlineImports (.memory get set) s Limit.maxNesting [Path.normalize path] path text =
      .ok (result, met)) :
    ∃ slots, HasSlots (.memory get set) s path 0 (importPieces text) slots ∧
      FirstMet [path] (meetings slots) ∧
      (∀ other, HasSlots (.memory get set) s path 0 (importPieces text) other →
        FirstMet [path] (meetings other) → other = slots) ∧
      result = textOf slots ∧
      flatten (.memory get set) s path =
        (substituteVariables [] (some path) (textOf slots)).mapError .fault ∧
      (path :: entered (meetings slots)).Nodup ∧
      (∀ file, file ∈ path :: entered (meetings slots) ↔
        Relation.ReflTransGen (Leads (.memory get set) s) path file) ∧
      (∀ file inner, (file, inner) ∈ sheets path slots →
        ∃ own, readSheet (.memory get set) s file = .ok own ∧
          ownText inner = withoutImports 0 (importPieces own)) ∧
      (PlainTargets (get s) → '\\' ∉ path →
        ((path :: entered (meetings slots)).map Path.key).Nodup) := by
  rw [hnormal] at hinline
  obtain ⟨slots, hslots, hfirst, htext, -⟩ := exists_slots_of_inlineImports hinline
  dsimp only at htext
  have hentered := mem_entered_iff hread hslots hfirst
  have hnodup : (path :: entered (meetings slots)).Nodup := by
    obtain ⟨hnodup, hfresh⟩ := hfirst.nodup_entered
    exact List.nodup_cons.mpr ⟨fun hmem => hfresh path hmem List.mem_cons_self, hnodup⟩
  refine ⟨slots, hslots, hfirst, fun other hother hfirst' => hother.unique hslots hfirst' hfirst,
    htext, ?_, hnodup, hentered, fun file inner => ownText_of_mem_sheets hread hslots, ?_⟩
  · rw [flatten_of_readSheet hfile hread, flattenText, hnormal, hinline, htext]
    dsimp only
    cases substituteVariables [] (some path) (textOf slots) with
    | ok text => rfl
    | error fault => rfl
  · intro hplain hback
    refine hnodup.map_on fun file hmem other hmem' hkey => ?_
    exact eq_of_reaches_of_key hplain hback hnormal ((hentered file).mp hmem)
      ((hentered other).mp hmem') hkey

/-- A stylesheet that imports another one under a media query, and once more behind it. The other
one imports it in turn, and a third one that it imports itself afterwards. -/
def mixedSheet : Text :=
  ("@import \"b.css\" screen;@import \"//r.css\";@import \"../c.css\";@import \"b.css\";" ++
    ".a \x7b\x7d").toList

def mixedTree : Tree :=
  ⟨[("c.css".toList, Utf8.encode ".c \x7b\x7d".toList), ("d/a.css".toList, Utf8.encode mixedSheet),
    ("d/b.css".toList, Utf8.encode
      "@import \"a.css\";.b \x7b\x7d@import url(../c.css);.d \x7b@import \"e.css\";\x7d".toList)]⟩

def mixedText : Text :=
  ("@media screen \x7b\n.b \x7b\x7d.c \x7b\x7d.d \x7b@import \"e.css\";\x7d\n\x7d" ++
    "@import \"//r.css\";.a \x7b\x7d").toList

theorem flatten_depthFirst_mixed :
    ∃ slots, HasSlots (.memory id fun tree _ => tree) mixedTree "d/a.css".toList 0
        (importPieces mixedSheet) slots ∧
      FirstMet ["d/a.css".toList] (meetings slots) ∧ textOf slots = mixedText ∧
      flatten (.memory id fun tree _ => tree) mixedTree "d/a.css".toList = .ok mixedText ∧
      (("d/a.css".toList :: entered (meetings slots)).map Path.key).Nodup := by
  have hplain : PlainTargets mixedTree := by
    have hfiles : ∀ entry ∈ mixedTree.files, ∀ sheet ∈ (Utf8.decode entry.2).toOption,
        ∀ target ∈ localTargets sheet, Path.IsPlain target := by
      decide +kernel
    intro key bytes sheet hget hdecode
    exact hfiles _ (Assoc.mem_of_get? hget) sheet (by rw [hdecode]; rfl)
  obtain ⟨slots, hslots, hfirst, -, htext, hflatten, -, -, -, hkeys⟩ :=
    flatten_depthFirst id (fun tree _ => tree) mixedTree "d/a.css".toList mixedSheet mixedText
      ["c.css".toList, "d/b.css".toList, "d/a.css".toList] (by decide) (by decide +kernel)
      (by decide +kernel) (by decide +kernel)
  have hvariables : substituteVariables [] (some "d/a.css".toList) mixedText = .ok mixedText := by
    decide +kernel
  refine ⟨slots, hslots, hfirst, htext.symm, ?_, hkeys hplain (by decide)⟩
  rw [hflatten, ← htext, hvariables]
  rfl

end AddonBundle.Stylesheet
