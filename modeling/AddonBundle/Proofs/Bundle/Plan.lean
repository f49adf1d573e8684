import AddonBundle.Proofs.Bundle.Run
import Mathlib.Data.List.Nodup
/-!
# Plans

What bundling does to a session is a list of actions, and neither the list nor the outcome depends
on what has been bundled before: both are read off the collection and the host. Whether a library
is still to be copied is left to the action. So what holds of sessions is shown for one action and
then for every step.
-/

namespace AddonBundle.Bundle

open Build Text

/-! ## Actions -/

/-- An elementary change of a session. -/
inductive Action where
  /-- A change of the trace and the log. -/
  | note (change : Trace × List Log.Entry → Trace × List Log.Entry)
  /-- Rules for the generated stylesheet. -/
  | rules (texts : List Text)
  /-- The copying of a library, unless it has been copied. -/
  | library (reference : Script.LibraryReference) (bytes : Bytes)
  /-- The writing of a file of an addon. -/
  | file (path : Text) (bytes : Bytes)
  | newLanguage (name : Text)
  /-- The collecting of a catalog, and its writing unless it has no bytes. -/
  | catalog (language addon : Text) (value : Json.Value) (bytes : Option Bytes)

def Action.apply (s : Session Trees) : Action → Session Trees
  | .note change =>
    { s with trace := (change (s.trace, s.log)).1, log := (change (s.trace, s.log)).2 }
  | .rules texts => { s with sheet := ⟨s.sheet.rules ++ texts⟩ }
  | .library reference bytes =>
    if s.libraries.contains reference.file then s else copiedSession reference bytes s
  | .file path bytes =>
    { s with
      storage := { s.storage with output := s.storage.output.writeBytes path bytes }
      written := s.written ++ [path] }
  | .newLanguage name => { s with catalogs := Assoc.putNew name [] s.catalogs }
  | .catalog language addon value bytes =>
    { s with
      storage := { s.storage with
        output := (bytes.map (s.storage.output.writeBytes (catalogPath language addon))).getD
          s.storage.output }
      catalogs := addCatalog language addon value s.catalogs }

theorem apply_library (reference : Script.LibraryReference) (bytes : Bytes) (s : Session Trees) :
    (Action.library reference bytes).apply s =
      if s.libraries.contains reference.file then s else copiedSession reference bytes s := rfl

/-- The session behind actions. -/
def perform (actions : List Action) (s : Session Trees) : Session Trees :=
  actions.foldl Action.apply s

theorem perform_append (actions others : List Action) (s : Session Trees) :
    perform (actions ++ others) s = perform others (perform actions s) :=
  List.foldl_append

/-- The action writes what is due in the output. -/
def Action.IsDue (source : Tree) (settings : Settings) : Action → Prop
  | .library reference bytes =>
    Path.IsSegment reference.file ∧ libraryBytes? source reference.file = some bytes
  | .file path bytes =>
    isStale path = true ∧ Path.key path = path ∧ due source settings path = some bytes
  | .catalog language addon value bytes =>
    Path.key (catalogPath language addon) = catalogPath language addon ∧
      catalogAt source (catalogPath language addon) = some value ∧
      (Utf8.encodeCode (Json.minimal value)).toOption = bytes
  | _ => True

/-- What holds before actions that are due holds behind them, if each of them keeps it. -/
theorem perform_induction {source : Tree} {settings : Settings} {P : Session Trees → Prop}
    (hstep : ∀ (action : Action) (s : Session Trees), action.IsDue source settings → P s →
      P (action.apply s))
    {actions : List Action} (hdue : ∀ action ∈ actions, action.IsDue source settings)
    {s : Session Trees} (hs : P s) : P (perform actions s) := by
  induction actions generalizing s with
  | nil => exact hs
  | cons action actions ih =>
      exact ih (fun a ha => hdue a (List.mem_cons_of_mem _ ha))
        (hstep action s (hdue action List.mem_cons_self) hs)

/-! ## Settled sessions -/

/-- The collection and the host are still those of the start, and what has been copied is in the
collection. -/
structure Settled (before : Trees) (s : Session Trees) : Prop where
  source_eq : s.storage.source = before.source
  host_eq : s.storage.host = before.host
  libraries : ∀ file ∈ s.libraries, (libraryBytes? before.source file).isSome = true

/-- A session in which nothing has been bundled. -/
def blank (before : Trees) : Session Trees :=
  { storage := { before with output := {} } }

theorem settled_blank (before : Trees) : Settled before (blank before) :=
  ⟨rfl, rfl, fun _ h => by cases h⟩

variable {before : Trees} {settings : Settings} {s : Session Trees}

/-- A library that is not there has not been copied. -/
theorem Settled.contains_eq_false (hs : Settled before s) {file : Text}
    (hbytes : libraryBytes? before.source file = none) : s.libraries.contains file = false := by
  rw [← Bool.not_eq_true, List.contains_iff_mem]
  intro hmem
  have hsome := hs.libraries file hmem
  rw [hbytes] at hsome
  cases hsome

/-- A step that looks at the storage, but not at the output, sees what was there in the beginning. -/
theorem Settled.exec_storage_bind (hs : Settled before s) {α : Type}
    {next : Trees → Build Trees α}
    (houtput : ∀ output, next { before with output } = next (blank before).storage) :
    exec (Build.storage >>= next) s = exec (next (blank before).storage) s := by
  have hstorage : s.storage = { before with output := s.storage.output } := by
    rw [← hs.source_eq, ← hs.host_eq]
  rw [exec_bind, exec_storage]
  dsimp only
  rw [hstorage, houtput]

theorem Settled.apply_library (hs : Settled before s) {reference : Script.LibraryReference}
    {bytes : Bytes} (hbytes : libraryBytes? before.source reference.file = some bytes) :
    Settled before ((Action.library reference bytes).apply s) := by
  rw [Bundle.apply_library]
  split
  · exact hs
  · refine ⟨hs.source_eq, hs.host_eq, ?_⟩
    intro file hfile
    rcases List.mem_append.mp hfile with hfile | hfile
    · exact hs.libraries file hfile
    · rw [List.mem_singleton.mp hfile, hbytes]
      rfl

theorem Settled.apply {action : Action} (hs : Settled before s)
    (hdue : action.IsDue before.source settings) : Settled before (action.apply s) := by
  cases action with
  | note change => exact ⟨hs.source_eq, hs.host_eq, hs.libraries⟩
  | rules texts => exact ⟨hs.source_eq, hs.host_eq, hs.libraries⟩
  | file path bytes => exact ⟨hs.source_eq, hs.host_eq, hs.libraries⟩
  | newLanguage name => exact ⟨hs.source_eq, hs.host_eq, hs.libraries⟩
  | catalog language addon value bytes => exact ⟨hs.source_eq, hs.host_eq, hs.libraries⟩
  | library reference bytes => exact hs.apply_library hdue.2

theorem Settled.perform {actions : List Action} (hs : Settled before s)
    (hdue : ∀ action ∈ actions, action.IsDue before.source settings) :
    Settled before (perform actions s) :=
  perform_induction (fun _ _ haction hs => hs.apply haction) hdue hs

/-! ## Plans of steps -/

variable {α β : Type} {who : Set Text}

/-- A fault that names no addon, or one of those given; or a failure below, but of no message. -/
def IsOf (who : Set Text) : Failure → Prop
  | .fault fault => ∀ name, fault.addon = some name → name ∈ who
  | .unshowable _ => False
  | _ => True

/-- From every settled session the step has the same outcome and performs the same actions, all of
them due. -/
structure IsPlan (before : Trees) (settings : Settings) (who : Set Text) (step : Build Trees α)
    (outcome : Except Failure α) (actions : List Action) : Prop where
  exec_eq : ∀ s, Settled before s → exec step s = (outcome, perform actions s)
  isDue : ∀ action ∈ actions, action.IsDue before.source settings
  isOf : ∀ failure, outcome = .error failure → IsOf who failure

def HasPlan (before : Trees) (settings : Settings) (who : Set Text) (step : Build Trees α) : Prop :=
  ∃ outcome actions, IsPlan before settings who step outcome actions

theorem IsPlan.exec_blank {step : Build Trees α} {outcome : Except Failure α}
    {actions : List Action} (h : IsPlan before settings who step outcome actions) :
    exec step (blank before) = (outcome, Bundle.perform actions (blank before)) :=
  h.exec_eq _ (settled_blank before)

theorem HasPlan.outcome_eq {step : Build Trees α} (h : HasPlan before settings who step)
    (hs : Settled before s) : (exec step s).1 = (exec step (blank before)).1 := by
  obtain ⟨outcome, actions, hplan⟩ := h
  rw [hplan.exec_eq s hs, hplan.exec_blank]

theorem HasPlan.settled {step : Build Trees α} (h : HasPlan before settings who step)
    (hs : Settled before s) : Settled before (exec step s).2 := by
  obtain ⟨outcome, actions, hplan⟩ := h
  rw [hplan.exec_eq s hs]
  exact hs.perform hplan.isDue

/-- A step that performs one action and succeeds. -/
theorem hasPlan_action {step : Build Trees α} {a : α} (action : Action)
    (hdue : action.IsDue before.source settings)
    (h : ∀ s, exec step s = (.ok a, action.apply s)) : HasPlan before settings who step :=
  ⟨.ok a, [action], fun s _ => h s, by simpa using hdue, fun _ h => by cases h⟩

theorem hasPlan_ofExcept (outcome : Except Failure α)
    (h : ∀ failure, outcome = .error failure → IsOf who failure) :
    HasPlan before settings who (Build.ofExcept outcome) :=
  ⟨outcome, [], fun s _ => exec_ofExcept outcome s, by simp, h⟩

theorem hasPlan_pure (a : α) : HasPlan before settings who (pure a : Build Trees α) :=
  hasPlan_ofExcept (.ok a) fun _ h => by cases h

theorem hasPlan_throw {failure : Failure} (h : IsOf who failure) :
    HasPlan before settings who (throw failure : Build Trees α) :=
  hasPlan_ofExcept (.error failure) fun _ heq => Except.error.inj heq ▸ h

/-- A fault that names no addon. -/
theorem hasPlan_fault {fault : Fault} (h : fault.addon = none) :
    HasPlan before settings who (Build.fault fault : Build Trees α) := by
  apply hasPlan_throw
  intro name hname
  rw [h] at hname
  cases hname

theorem hasPlan_record (event : Event) : HasPlan before settings who (record event) :=
  hasPlan_action (.note fun note => (note.1.record event, note.2)) trivial fun _ => rfl

theorem hasPlan_startPhase (name : Text) : HasPlan before settings who (startPhase name) :=
  hasPlan_action (.note fun note => (note.1.startPhase name [], note.2)) trivial fun _ => rfl

/-- Steps one after the other. The second may rely on the outcome of the first. -/
theorem HasPlan.bind {step : Build Trees α} {next : α → Build Trees β}
    (hstep : HasPlan before settings who step)
    (hnext : ∀ a, (exec step (blank before)).1 = .ok a → HasPlan before settings who (next a)) :
    HasPlan before settings who (step >>= next) := by
  obtain ⟨outcome, actions, hplan⟩ := hstep
  cases outcome with
  | error failure =>
      refine ⟨.error failure, actions, fun s hs => ?_, hplan.isDue, ?_⟩
      · rw [exec_bind, hplan.exec_eq s hs]
      · intro found heq
        cases heq
        exact hplan.isOf failure rfl
  | ok a =>
      obtain ⟨outcome, others, hothers⟩ := hnext a (by rw [hplan.exec_blank])
      refine ⟨outcome, actions ++ others, fun s hs => ?_, ?_, hothers.isOf⟩
      · rw [exec_bind, hplan.exec_eq s hs, perform_append]
        exact hothers.exec_eq _ (hs.perform hplan.isDue)
      · intro action haction
        rcases List.mem_append.mp haction with haction | haction
        · exact hplan.isDue action haction
        · exact hothers.isDue action haction

/-- A step may look at the storage as long as the output does not matter. -/
theorem HasPlan.storage {next : Trees → Build Trees α}
    (houtput : ∀ output, next { before with output } = next (blank before).storage)
    (h : HasPlan before settings who (next (blank before).storage)) :
    HasPlan before settings who (Build.storage >>= next) := by
  obtain ⟨outcome, actions, hplan⟩ := h
  refine ⟨outcome, actions, fun s hs => ?_, hplan.isDue, hplan.isOf⟩
  rw [hs.exec_storage_bind houtput]
  exact hplan.exec_eq s hs

theorem HasPlan.mapFailure {step : Build Trees α} {addon : Text}
    (h : HasPlan before settings who step) (haddon : addon ∈ who) :
    HasPlan before settings who (Build.mapFailure (Failure.inAddon addon) step) := by
  obtain ⟨outcome, actions, hplan⟩ := h
  refine ⟨outcome.mapError (Failure.inAddon addon), actions, fun s hs => ?_, hplan.isDue, ?_⟩
  · rw [exec_mapFailure, hplan.exec_eq s hs]
  · intro failure heq
    cases outcome with
    | ok a => cases heq
    | error raised =>
        cases heq
        have hraised := hplan.isOf raised rfl
        cases raised with
        | fault fault =>
            intro name hname
            dsimp only at hname
            cases hfault : fault.addon with
            | none =>
                rw [hfault, Option.none_or, Option.some.injEq] at hname
                exact hname ▸ haddon
            | some other =>
                rw [hfault, Option.some_or] at hname
                exact hraised name (hfault.trans hname)
        | _ => exact hraised

theorem HasPlan.closePhase {step : Build Trees α} (h : HasPlan before settings who step) :
    HasPlan before settings who (Build.always Build.closePhase step) := by
  obtain ⟨outcome, actions, hplan⟩ := h
  refine ⟨outcome, actions ++ [.note fun note => (note.1.endPhase, note.2)], fun s hs => ?_, ?_,
    hplan.isOf⟩
  · rw [exec_always, hplan.exec_eq s hs, perform_append]
    rfl
  · intro action haction
    rcases List.mem_append.mp haction with haction | haction
    · exact hplan.isDue action haction
    · rw [List.mem_singleton.mp haction]
      trivial

/-! ## Steps in order -/

/-- Steps one after the other. -/
def inOrder : List (Build Trees Unit) → Build Trees Unit
  | [] => return ()
  | step :: rest => do
    step
    inOrder rest

theorem hasPlan_inOrder {steps : List (Build Trees Unit)}
    (h : ∀ step ∈ steps, HasPlan before settings who step) :
    HasPlan before settings who (inOrder steps) := by
  induction steps with
  | nil => exact hasPlan_pure ()
  | cons step rest ih =>
      exact (h step List.mem_cons_self).bind fun _ _ =>
        ih fun other hother => h other (List.mem_cons_of_mem _ hother)

/-- Steps in order succeed when each of them succeeds alone. -/
theorem exec_inOrder_ok_iff {steps : List (Build Trees Unit)}
    (h : ∀ step ∈ steps, HasPlan before settings who step) (hs : Settled before s) :
    (exec (inOrder steps) s).1 = .ok () ↔
      ∀ step ∈ steps, (exec step (blank before)).1 = .ok () := by
  induction steps generalizing s with
  | nil => simp [inOrder]
  | cons step rest ih =>
      have hstep := h step List.mem_cons_self
      have houtcome := hstep.outcome_eq hs
      have hrest := ih (fun other hother => h other (List.mem_cons_of_mem _ hother))
        (hstep.settled hs)
      rw [List.forall_mem_cons, ← houtcome, ← hrest, inOrder, exec_bind]
      cases hexec : exec step s with
      | mk outcome s' =>
          cases outcome with
          | ok _ => simp
          | error failure => simp

/-! ## Rules and libraries -/

/-- The rules that an action adds to the generated stylesheet. -/
def Action.newRules : Action → List Text
  | .rules texts => texts
  | _ => []

theorem rules_apply (action : Action) (s : Session Trees) :
    (action.apply s).sheet.rules = s.sheet.rules ++ action.newRules := by
  cases action with
  | rules texts => rfl
  | library reference bytes =>
      rw [apply_library]
      split
      · exact (List.append_nil _).symm
      · exact (List.append_nil _).symm
  | _ => exact (List.append_nil _).symm

theorem rules_perform (actions : List Action) (s : Session Trees) :
    (perform actions s).sheet.rules = s.sheet.rules ++ actions.flatMap Action.newRules := by
  induction actions generalizing s with
  | nil => exact (List.append_nil _).symm
  | cons action actions ih =>
      rw [List.flatMap_cons, ← List.append_assoc, ← rules_apply]
      exact ih (action.apply s)

theorem mem_libraries_apply {action : Action} {s : Session Trees} {file : Text} :
    file ∈ (action.apply s).libraries ↔
      file ∈ s.libraries ∨ ∃ reference bytes, action = .library reference bytes ∧
        file = reference.file := by
  cases action with
  | library reference bytes =>
      rw [apply_library]
      split
      · rename_i hcopied
        rw [List.contains_iff_mem] at hcopied
        constructor
        · exact .inl
        · rintro (hfile | ⟨other, bytes', heq, rfl⟩)
          · exact hfile
          · cases heq
            exact hcopied
      · rw [copiedSession, List.mem_append, List.mem_singleton]
        constructor
        · rintro (hfile | rfl)
          · exact .inl hfile
          · exact .inr ⟨reference, bytes, rfl, rfl⟩
        · rintro (hfile | ⟨other, bytes', heq, rfl⟩)
          · exact .inl hfile
          · cases heq
            exact .inr rfl
  | _ =>
      constructor
      · exact .inl
      · rintro (hfile | ⟨reference, bytes, heq, -⟩)
        · exact hfile
        · cases heq

theorem mem_libraries_perform {actions : List Action} {s : Session Trees} {file : Text} :
    file ∈ (perform actions s).libraries ↔
      file ∈ s.libraries ∨ ∃ reference bytes, Action.library reference bytes ∈ actions ∧
        file = reference.file := by
  induction actions generalizing s with
  | nil => simp [perform]
  | cons action actions ih =>
      refine (ih (s := action.apply s)).trans ?_
      rw [mem_libraries_apply, or_assoc]
      apply or_congr_right
      constructor
      · rintro (⟨reference, bytes, rfl, hfile⟩ | ⟨reference, bytes, hmem, hfile⟩)
        · exact ⟨reference, bytes, List.mem_cons_self, hfile⟩
        · exact ⟨reference, bytes, List.mem_cons_of_mem _ hmem, hfile⟩
      · rintro ⟨reference, bytes, hmem, hfile⟩
        rcases List.mem_cons.mp hmem with rfl | hmem
        · exact .inl ⟨reference, bytes, rfl, hfile⟩
        · exact .inr ⟨reference, bytes, hmem, hfile⟩

theorem nodup_libraries_apply (action : Action) {s : Session Trees} (h : s.libraries.Nodup) :
    (action.apply s).libraries.Nodup := by
  cases action with
  | library reference bytes =>
      rw [apply_library]
      split
      · exact h
      · rename_i hnot
        rw [List.contains_iff_mem] at hnot
        exact List.nodup_append.mpr ⟨h, List.nodup_singleton _, fun file hfile other hother =>
          fun heq => hnot (List.mem_singleton.mp hother ▸ heq ▸ hfile)⟩
  | _ => exact h

/-- The rules that a step adds. -/
def rulesOf (before : Trees) (step : Build Trees α) : List Text :=
  (exec step (blank before)).2.sheet.rules

/-- The libraries that a step calls for. -/
def librariesOf (before : Trees) (step : Build Trees α) : List Text :=
  (exec step (blank before)).2.libraries

theorem HasPlan.rules_eq {step : Build Trees α} (h : HasPlan before settings who step)
    (hs : Settled before s) :
    (exec step s).2.sheet.rules = s.sheet.rules ++ rulesOf before step := by
  obtain ⟨outcome, actions, hplan⟩ := h
  rw [rulesOf, hplan.exec_eq s hs, hplan.exec_blank, rules_perform, rules_perform]
  rfl

theorem HasPlan.mem_libraries {step : Build Trees α} (h : HasPlan before settings who step)
    (hs : Settled before s) {file : Text} :
    file ∈ (exec step s).2.libraries ↔ file ∈ s.libraries ∨ file ∈ librariesOf before step := by
  obtain ⟨outcome, actions, hplan⟩ := h
  rw [librariesOf, hplan.exec_eq s hs, hplan.exec_blank, mem_libraries_perform,
    mem_libraries_perform]
  simp [blank]

theorem HasPlan.nodup_libraries {step : Build Trees α} (h : HasPlan before settings who step)
    (hs : Settled before s) (hnodup : s.libraries.Nodup) : (exec step s).2.libraries.Nodup := by
  obtain ⟨outcome, actions, hplan⟩ := h
  rw [hplan.exec_eq s hs]
  exact perform_induction (P := fun s => s.libraries.Nodup)
    (fun action _ _ hs => nodup_libraries_apply action hs) hplan.isDue hnodup

/-- Steps in order that succeed leave the rules of each, in order, and the libraries of all. -/
theorem exec_inOrder_of_ok {steps : List (Build Trees Unit)}
    (h : ∀ step ∈ steps, HasPlan before settings who step) (hs : Settled before s)
    (hok : (exec (inOrder steps) s).1 = .ok ()) :
    (exec (inOrder steps) s).2.sheet.rules = s.sheet.rules ++ steps.flatMap (rulesOf before) ∧
      ∀ file, file ∈ (exec (inOrder steps) s).2.libraries ↔
        file ∈ s.libraries ∨ ∃ step ∈ steps, file ∈ librariesOf before step := by
  induction steps generalizing s with
  | nil => simp [inOrder]
  | cons step rest ih =>
      have hstep := h step List.mem_cons_self
      have hrules := hstep.rules_eq hs
      have hlibraries : ∀ file, file ∈ (exec step s).2.libraries ↔
          file ∈ s.libraries ∨ file ∈ librariesOf before step := fun _ => hstep.mem_libraries hs
      have hsettled := hstep.settled hs
      rw [inOrder, exec_bind] at hok ⊢
      cases hexec : exec step s with
      | mk outcome s' =>
          rw [hexec] at hok hrules hlibraries hsettled
          cases outcome with
          | error failure => cases hok
          | ok _ =>
              obtain ⟨hrestRules, hrestLibraries⟩ :=
                ih (fun other hother => h other (List.mem_cons_of_mem _ hother)) hsettled hok
              dsimp only at hrules hlibraries hrestRules hrestLibraries ⊢
              refine ⟨?_, fun file => ?_⟩
              · rw [hrestRules, hrules, List.flatMap_cons, List.append_assoc]
              · rw [hrestLibraries, hlibraries, or_assoc]
                simp

end AddonBundle.Bundle

