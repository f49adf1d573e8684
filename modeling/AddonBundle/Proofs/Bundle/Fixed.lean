import AddonBundle.Proofs.Bundle.Planning
/-!
# Steps whose outcome is fixed

Whatever has been bundled before, a step of a run has one outcome, which is read off the collection
and the host. This holds of every collection and every list of addons, also where names are no
segments of paths, so it says nothing of what is written.
-/

namespace AddonBundle.Bundle

open Build Text
open Stylesheet (Finishes)

variable {before : Trees} {settings : Settings} {s : Session Trees} {α β : Type}

/-- What a step gives when nothing has been bundled before. -/
def outcome (before : Trees) (step : Build Trees α) : Except Failure α :=
  (exec step (blank before)).1

/-- From every settled session the step has the same outcome, and leaves a settled session. -/
structure IsFixed (before : Trees) (step : Build Trees α) : Prop where
  exec_fst : ∀ s, Settled before s → (exec step s).1 = outcome before step
  settled : ∀ s, Settled before s → Settled before (exec step s).2

/-- The step moreover gives a result or a fault. -/
structure Settles (before : Trees) (step : Build Trees α) : Prop extends IsFixed before step where
  finishes : Finishes (outcome before step)

theorem isFixed_of_exec {step : Build Trees α} (result : Except Failure α)
    (h : ∀ s, Settled before s → ∃ s', exec step s = (result, s') ∧ Settled before s') :
    IsFixed before step ∧ outcome before step = result := by
  have hfixed : ∀ s, Settled before s →
      (exec step s).1 = result ∧ Settled before (exec step s).2 := by
    intro s hs
    obtain ⟨s', hexec, hs'⟩ := h s hs
    rw [hexec]
    exact ⟨rfl, hs'⟩
  have houtcome : outcome before step = result := (hfixed _ (settled_blank before)).1
  exact ⟨⟨fun s hs => (hfixed s hs).1.trans houtcome.symm, fun s hs => (hfixed s hs).2⟩, houtcome⟩

theorem HasPlan.isFixed {who : Set Text} {step : Build Trees α}
    (h : HasPlan before settings who step) : IsFixed before step :=
  ⟨fun _ hs => h.outcome_eq hs, fun _ hs => h.settled hs⟩

theorem settles_of_exec {step : Build Trees α} {result : Except Failure α}
    (hresult : Finishes result) (h : ∀ s, Settled before s → ∃ s', exec step s = (result, s') ∧ Settled before s') :
    Settles before step := by
  obtain ⟨hfixed, houtcome⟩ := isFixed_of_exec result h
  exact ⟨hfixed, houtcome.symm ▸ hresult⟩

/-- A step that succeeds and leaves the collection, the host and the libraries alone. -/
theorem settles_of_keeps {step : Build Trees α} {a : α} {after : Session Trees → Session Trees}
    (hexec : ∀ s, exec step s = (.ok a, after s))
    (hsource : ∀ s, (after s).storage.source = s.storage.source)
    (hhost : ∀ s, (after s).storage.host = s.storage.host)
    (hlibraries : ∀ s, (after s).libraries = s.libraries) : Settles before step :=
  settles_of_exec (.inl ⟨a, rfl⟩) fun s hs =>
    ⟨after s, hexec s, (hsource s).trans hs.source_eq, (hhost s).trans hs.host_eq,
      fun file hfile => hs.libraries file (hlibraries s ▸ hfile)⟩

theorem isFixed_ofExcept (result : Except Failure α) : IsFixed before (Build.ofExcept result) :=
  (isFixed_of_exec result fun s hs => ⟨s, exec_ofExcept result s, hs⟩).1

theorem settles_ofExcept {result : Except Failure α} (h : Finishes result) :
    Settles before (Build.ofExcept result) := by
  refine ⟨isFixed_ofExcept result, ?_⟩
  rw [outcome, exec_ofExcept]
  exact h

theorem settles_pure (a : α) : Settles before (pure a : Build Trees α) :=
  settles_ofExcept (.inl ⟨a, rfl⟩)

theorem settles_fault (fault : Fault) : Settles before (Build.fault fault : Build Trees α) :=
  settles_ofExcept (.inr ⟨fault, rfl⟩)

/-! ## Steps one after the other -/

section

variable {step : Build Trees α} {next : α → Build Trees β}

theorem outcome_bind (hstep : IsFixed before step)
    (hnext : ∀ a, outcome before step = .ok a → IsFixed before (next a)) :
    outcome before (step >>= next) = (outcome before step).bind fun a => outcome before (next a) := by
  have hsettled := hstep.settled _ (settled_blank before)
  unfold outcome at hnext ⊢
  rw [exec_bind]
  cases hexec : exec step (blank before) with
  | mk result s =>
      rw [hexec] at hsettled hnext
      cases result with
      | error failure => rfl
      | ok a => exact (hnext a rfl).exec_fst s hsettled

theorem IsFixed.bind (hstep : IsFixed before step)
    (hnext : ∀ a, outcome before step = .ok a → IsFixed before (next a)) :
    IsFixed before (step >>= next) := by
  refine (isFixed_of_exec ((outcome before step).bind fun a => outcome before (next a)) ?_).1
  intro s hs
  have houtcome := hstep.exec_fst s hs
  have hsettled := hstep.settled s hs
  rw [exec_bind]
  cases hexec : exec step s with
  | mk result s' =>
      rw [hexec] at houtcome hsettled
      cases result with
      | error failure =>
          refine ⟨s', ?_, hsettled⟩
          rw [← houtcome]
          rfl
      | ok a =>
          have hnext := hnext a houtcome.symm
          refine ⟨(exec (next a) s').2, ?_, hnext.settled s' hsettled⟩
          rw [← houtcome]
          exact Prod.ext (hnext.exec_fst s' hsettled) rfl

theorem Settles.bind (hstep : Settles before step) (hnext : ∀ a, Settles before (next a)) :
    Settles before (step >>= next) := by
  refine ⟨hstep.toIsFixed.bind fun a _ => (hnext a).toIsFixed, ?_⟩
  rw [outcome_bind hstep.toIsFixed fun a _ => (hnext a).toIsFixed]
  obtain ⟨a, houtcome⟩ | ⟨fault, houtcome⟩ := hstep.finishes
  · rw [houtcome]
    exact (hnext a).finishes
  · rw [houtcome]
    exact .inr ⟨fault, rfl⟩

/-- A step may look at the storage as long as the output does not matter. -/
theorem IsFixed.storage {next : Trees → Build Trees α}
    (houtput : ∀ output, next { before with output } = next (blank before).storage)
    (h : IsFixed before (next (blank before).storage)) :
    IsFixed before (Build.storage >>= next) := by
  constructor
  · intro s hs
    rw [hs.exec_storage_bind houtput]
    exact h.exec_fst s hs
  · intro s hs
    rw [hs.exec_storage_bind houtput]
    exact h.settled s hs

theorem Settles.storage {next : Trees → Build Trees α}
    (houtput : ∀ output, next { before with output } = next (blank before).storage)
    (h : Settles before (next (blank before).storage)) : Settles before (Build.storage >>= next) :=
  ⟨h.toIsFixed.storage houtput, h.finishes⟩

end

/-! ## Steps in order -/

section

variable {steps : List (Build Trees Unit)} (h : ∀ step ∈ steps, IsFixed before step)

include h

theorem isFixed_inOrder : IsFixed before (inOrder steps) := by
  induction steps with
  | nil => exact (settles_pure ()).toIsFixed
  | cons step rest ih =>
      rw [List.forall_mem_cons] at h
      exact h.1.bind fun _ _ => ih h.2

theorem outcome_inOrder_ok_iff :
    outcome before (inOrder steps) = .ok () ↔ ∀ step ∈ steps, outcome before step = .ok () := by
  induction steps with
  | nil => simp [inOrder, outcome]
  | cons step rest ih =>
      rw [List.forall_mem_cons] at h
      rw [inOrder, outcome_bind h.1 fun _ _ => isFixed_inOrder h.2, List.forall_mem_cons, ← ih h.2]
      cases outcome before step with
      | error failure => simp [Except.bind]
      | ok _ => simp [Except.bind]

end

/-! ## Files of addons -/

theorem settles_readable (path : Text) {result : Except Failure α}
    (h : ∀ failure, result = .error failure → failure.isUnreadable = true) :
    Settles before (readable path result) := by
  unfold readable
  cases result with
  | ok a => exact settles_pure a
  | error failure =>
      dsimp only
      rw [if_pos (h failure rfl)]
      exact settles_fault _

theorem settles_readText (path : Text) {next : Text → Build Trees α}
    (hnext : ∀ text, Settles before (next text)) :
    Settles before
      (do next (← readable path (Places.memory.source.readText (← Build.storage) path))) := by
  apply Settles.storage (fun _ => rfl)
  exact (settles_readable path fun _ h => isUnreadable_of_readText h).bind hnext

theorem settles_copyLibrary (reference : Script.LibraryReference) {next : Build Trees α}
    (hnext : Settles before next) :
    Settles before (copyLibrary Places.memory reference >>= fun _ => next) := by
  cases hbytes : libraryBytes? before.source reference.file with
  | none =>
      refine settles_of_exec (.inr ⟨.libraryMissing reference.file (libraryPath reference.file),
        rfl⟩) fun s hs => ⟨s, ?_, hs⟩
      rw [exec_copyLibrary_settled hs, hbytes]
  | some bytes =>
      refine settles_of_exec hnext.finishes fun s hs => ?_
      have hcopied := hs.apply_library hbytes
      refine ⟨(exec next ((Action.library reference bytes).apply s)).2, ?_, hnext.settled _ hcopied⟩
      rw [exec_copyLibrary_settled hs, hbytes]
      exact Prod.ext (hnext.exec_fst _ hcopied) rfl

theorem settles_copyLibraries (references : List Script.LibraryReference) {next : Build Trees α}
    (hnext : Settles before next) :
    Settles before (copyLibraries Places.memory references >>= fun _ => next) := by
  induction references with
  | nil => simpa [copyLibraries] using hnext
  | cons reference rest ih =>
      have hsplit : (copyLibraries Places.memory (reference :: rest) >>= fun _ => next) =
          (copyLibrary Places.memory reference >>= fun _ =>
            copyLibraries Places.memory rest >>= fun _ => next) := by
        simp [copyLibraries]
      rw [hsplit]
      exact settles_copyLibrary reference ih

theorem settles_record (event : Event) : Settles before (record event) :=
  settles_of_keeps (fun s => exec_record event s) (fun _ => rfl) (fun _ => rfl) fun _ => rfl

theorem settles_stamp (header path text : Text) : Settles before (stamp header path text) := by
  unfold stamp
  split
  · exact settles_pure _
  · exact (settles_record _).bind fun _ => settles_pure _

theorem settles_markersOf (path text : Text) : Settles before (markersOf path text) := by
  unfold markersOf
  split
  · exact settles_pure _
  · exact settles_fault _

theorem settles_linkScript (extensions : List Text) (path text : Text) :
    Settles before (linkScript Places.memory.source extensions path text) := by
  have hplan : HasPlan before { addons := [], extensions } ∅
      (linkScript Places.memory.source extensions path text) := hasPlan_linkScript path text
  refine ⟨hplan.isFixed, .inl ?_⟩
  unfold outcome
  rw [Places.memory, exec_linkScript]
  split
  · exact ⟨_, rfl⟩
  · exact ⟨_, rfl⟩

theorem settles_writeFile (path text : Text) :
    Settles before (writeFile Places.memory.output path text) :=
  settles_of_keeps (fun s => exec_writeFile path text s) (fun _ => rfl) (fun _ => rfl) fun _ => rfl

theorem settles_bundleScript (settings : Settings) (path : Text) :
    Settles before (bundleScript Places.memory settings path) := by
  apply settles_readText
  intro text
  apply settles_copyLibraries
  apply (settles_markersOf path text).bind
  intro markers
  apply (settles_linkScript settings.extensions path text).bind
  rintro ⟨linked, table⟩
  apply (settles_stamp settings.header path linked).bind
  intro stamped
  exact (settles_writeFile path stamped).bind fun _ => settles_pure _

theorem settles_bundleStylesheet (settings : Settings) (path : Text) :
    Settles before (bundleStylesheet Places.memory settings path) := by
  apply settles_readText
  intro text
  exact (settles_stamp settings.header path text).bind fun stamped => settles_writeFile path stamped

theorem settles_copyFile (path : Text) : Settles before (copyFile Places.memory path) := by
  apply Settles.storage (fun _ => rfl)
  apply Settles.bind
  · apply settles_readable
    intro failure h
    have hread : Places.memory.source.readBytes (blank before).storage path =
        before.source.readBytes path := rfl
    rw [hread, Tree.readBytes] at h
    split at h <;> cases h
    rfl
  · intro bytes
    refine Settles.bind ?_ fun _ => ?_
    · exact settles_of_keeps (fun s => exec_write _ s) (fun _ => rfl) (fun _ => rfl) fun _ => rfl
    · exact settles_of_keeps (fun s => exec_modify _ s) (fun _ => rfl) (fun _ => rfl) fun _ => rfl

theorem settles_bundleFile (settings : Settings) (path : Text) :
    Settles before (bundleFile Places.memory settings path) := by
  unfold bundleFile
  split
  · exact settles_bundleScript settings path
  · exact (settles_bundleStylesheet settings path).bind fun _ => settles_pure _
  · exact (settles_copyFile path).bind fun _ => settles_pure _

theorem settles_bundleFiles (settings : Settings) (directory : Text) (files : List Text) :
    Settles before (bundleFiles Places.memory settings directory files) := by
  induction files with
  | nil => exact settles_pure []
  | cons file rest ih =>
      exact (settles_bundleFile settings _).bind fun markers => ih.bind fun _ => settles_pure _

end AddonBundle.Bundle
