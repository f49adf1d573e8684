import AddonBundle.Bundle.Libraries
import AddonBundle.Proofs.Session
import Mathlib.Data.Set.Insert
/-!
# Steps that make files

What bundling writes into a file of the output depends on the collection only, whatever has been
written before. So there is one notion for all its steps: a step makes a set of files when it
changes nothing in the trees but files of that set, each to the contents due there, whether it
succeeds or fails; and when it succeeds, all of them are there.
-/

namespace AddonBundle

/-- The tree holds a file with the contents due under its key. -/
def Tree.Holds (due : Text → Option Bytes) (tree : Tree) (key : Text) : Prop :=
  ∃ bytes, due key = some bytes ∧ tree.get? key = some bytes

/-- Only some files of the output have been written, each with the contents due. -/
structure Trees.Extends (due : Text → Option Bytes) (files : Set Text) (before after : Trees) :
    Prop where
  source_eq : after.source = before.source
  host_eq : after.host = before.host
  output : ∀ key, after.output.get? key = before.output.get? key ∨
    key ∈ files ∧ after.output.Holds due key

namespace Trees.Extends

variable {due : Text → Option Bytes} {files others : Set Text} {before middle after : Trees}

theorem refl (trees : Trees) : Extends due files trees trees where
  source_eq := rfl
  host_eq := rfl
  output := fun _ => .inl rfl

theorem get?_eq (h : Extends due files before after) {key : Text} (hkey : key ∉ files) :
    after.output.get? key = before.output.get? key := by
  rcases h.output key with hsame | hmade
  · exact hsame
  · exact absurd hmade.1 hkey

/-- What is held stays held: a later write of the same file has the same contents. -/
theorem holds (h : Extends due files before after) {key : Text}
    (hkey : before.output.Holds due key) : after.output.Holds due key := by
  rcases h.output key with hsame | hmade
  · obtain ⟨bytes, hdue, hget⟩ := hkey
    exact ⟨bytes, hdue, hsame.trans hget⟩
  · exact hmade.2

theorem trans (h : Extends due files before middle) (h' : Extends due others middle after) :
    Extends due (files ∪ others) before after where
  source_eq := h'.source_eq.trans h.source_eq
  host_eq := h'.host_eq.trans h.host_eq
  output := by
    intro key
    rcases h'.output key with hsame | hmade
    · rcases h.output key with hsame' | hmade
      · exact .inl (hsame.trans hsame')
      · exact .inr ⟨.inl hmade.1, h'.holds hmade.2⟩
    · exact .inr ⟨.inr hmade.1, hmade.2⟩

theorem mono (h : Extends due files before after) (hsub : files ⊆ others) :
    Extends due others before after where
  source_eq := h.source_eq
  host_eq := h.host_eq
  output := fun key => (h.output key).imp_right fun hmade => ⟨hsub hmade.1, hmade.2⟩

theorem write (trees : Trees) {path : Text} {bytes : Bytes}
    (hdue : due (Path.key path) = some bytes) :
    Extends due {Path.key path} trees
      { trees with output := trees.output.writeBytes path bytes } where
  source_eq := rfl
  host_eq := rfl
  output := by
    intro key
    by_cases hkey : key = Path.key path
    · subst hkey
      exact .inr ⟨rfl, bytes, hdue, by simp [Tree.get?_writeBytes]⟩
    · exact .inl (by simp [Tree.get?_writeBytes, hkey])

end Trees.Extends

namespace Bundle

open Build

variable {α β : Type} {source : Tree} {due : Text → Option Bytes} {files others : Set Text}

/-- The libraries that a session remembers as copied are in its output. -/
structure IsSteady (source : Tree) (due : Text → Option Bytes) (s : Session Trees) : Prop where
  source_eq : s.storage.source = source
  libraries : ∀ file ∈ s.libraries, s.storage.output.Holds due (libraryPath file)

/-- A step that makes files, from a steady session on. -/
structure Made (source : Tree) (due : Text → Option Bytes) (files : Set Text)
    (s : Session Trees) (outcome : Except Failure α) (s' : Session Trees) : Prop where
  trees : s.storage.Extends due files s'.storage
  steady : IsSteady source due s'
  complete : ∀ a, outcome = .ok a → ∀ key ∈ files, s'.storage.output.Holds due key

/-- A step that makes files whatever session it starts from. -/
def Makes (source : Tree) (due : Text → Option Bytes) (files : Set Text)
    (step : Build Trees α) : Prop :=
  ∀ s, IsSteady source due s → Made source due files s (exec step s).1 (exec step s).2

/-- A step that leaves the trees and the list of copied libraries alone. -/
def IsQuiet (step : Build Trees α) : Prop :=
  ∀ s, (exec step s).2.storage = s.storage ∧ (exec step s).2.libraries = s.libraries

theorem IsSteady.congr {s s' : Session Trees} (h : IsSteady source due s)
    (hstorage : s'.storage = s.storage) (hlibraries : s'.libraries = s.libraries) :
    IsSteady source due s' where
  source_eq := by rw [hstorage, h.source_eq]
  libraries := by
    rw [hstorage, hlibraries]
    exact h.libraries

theorem IsQuiet.makes {step : Build Trees α} (h : IsQuiet step) : Makes source due ∅ step := by
  intro s hs
  obtain ⟨hstorage, hlibraries⟩ := h s
  refine ⟨?_, hs.congr hstorage hlibraries, fun _ _ _ hkey => absurd hkey (Set.notMem_empty _)⟩
  rw [hstorage]
  exact .refl _

theorem makes_throw (failure : Failure) :
    Makes source due files (throw failure : Build Trees α) :=
  fun s hs => ⟨.refl _, hs, fun _ hok => by cases hok⟩

/-- Steps one after the other. The second one may rely on how the first one gave its result. -/
theorem Makes.bind {step : Build Trees α} {next : α → Build Trees β}
    (hstep : Makes source due files step)
    (hnext : ∀ s a, IsSteady source due s → (exec step s).1 = .ok a →
      Makes source due others (next a)) :
    Makes source due (files ∪ others) (step >>= next) := by
  intro s hs
  have hmade := hstep s hs
  rw [exec_bind]
  split
  · rename_i a middle hexec
    rw [hexec] at hmade
    have hmade' := hnext s a hs (by rw [hexec]) middle hmade.steady
    refine ⟨hmade.trees.trans hmade'.trees, hmade'.steady, ?_⟩
    rintro b hb key (hkey | hkey)
    · exact hmade'.trees.holds (hmade.complete a rfl key hkey)
    · exact hmade'.complete b hb key hkey
  · rename_i failure middle hexec
    rw [hexec] at hmade
    refine ⟨hmade.trees.mono Set.subset_union_left, hmade.steady, ?_⟩
    intro b hb
    cases hb

theorem IsQuiet.bind_makes {step : Build Trees α} {next : α → Build Trees β}
    (hstep : IsQuiet step)
    (hnext : ∀ s a, IsSteady source due s → (exec step s).1 = .ok a →
      Makes source due files (next a)) :
    Makes source due files (step >>= next) := by
  have hbind := hstep.makes.bind hnext
  rwa [Set.empty_union] at hbind

theorem Makes.bind_quiet {step : Build Trees α} {next : α → Build Trees β}
    (hstep : Makes source due files step) (hnext : ∀ a, IsQuiet (next a)) :
    Makes source due files (step >>= next) := by
  have hbind := hstep.bind fun _ a _ _ => (hnext a).makes
  rwa [Set.union_empty] at hbind

theorem Makes.mapFailure {step : Build Trees α} (h : Makes source due files step)
    (f : Failure → Failure) : Makes source due files (Build.mapFailure f step) := by
  intro s hs
  have hmade := h s hs
  rw [exec_mapFailure]
  refine ⟨hmade.trees, hmade.steady, ?_⟩
  intro a ha
  cases hstep : (exec step s).1 with
  | ok b => exact hmade.complete b hstep
  | error failure =>
      rw [hstep] at ha
      cases ha

theorem Makes.closePhase {step : Build Trees α} (h : Makes source due files step) :
    Makes source due files (Build.always Build.closePhase step) := by
  intro s hs
  have hmade := h s hs
  rw [exec_always]
  exact ⟨hmade.trees, hmade.steady.congr rfl rfl, hmade.complete⟩

/-! ## Quiet steps -/

theorem isQuiet_pure (a : α) : IsQuiet (pure a : Build Trees α) := fun _ => ⟨rfl, rfl⟩

theorem isQuiet_throw (failure : Failure) : IsQuiet (throw failure : Build Trees α) :=
  fun _ => ⟨rfl, rfl⟩

theorem isQuiet_storage : IsQuiet (storage : Build Trees Trees) := fun _ => ⟨rfl, rfl⟩

theorem isQuiet_record (event : Event) : IsQuiet (record event) := fun _ => ⟨rfl, rfl⟩

theorem isQuiet_startPhase (name : Text) : IsQuiet (startPhase name) := fun _ => ⟨rfl, rfl⟩

theorem isQuiet_ofExcept (outcome : Except Failure α) : IsQuiet (Build.ofExcept outcome) := by
  intro s
  rw [exec_ofExcept]
  exact ⟨rfl, rfl⟩

theorem isQuiet_log (level : Log.Level) (message : Text) : IsQuiet (log level message) := by
  intro s
  rw [exec_log]
  exact ⟨rfl, rfl⟩

theorem isQuiet_modify {f : Session Trees → Session Trees}
    (hstorage : ∀ s, (f s).storage = s.storage) (hlibraries : ∀ s, (f s).libraries = s.libraries) :
    IsQuiet (modify f) :=
  fun s => ⟨hstorage s, hlibraries s⟩

theorem IsQuiet.bind {step : Build Trees α} {next : α → Build Trees β} (hstep : IsQuiet step)
    (hnext : ∀ a, IsQuiet (next a)) : IsQuiet (step >>= next) := by
  intro s
  have hs := hstep s
  rw [exec_bind]
  split
  · rename_i a middle hexec
    rw [hexec] at hs
    have ha := hnext a middle
    exact ⟨ha.1.trans hs.1, ha.2.trans hs.2⟩
  · rename_i failure middle hexec
    rwa [hexec] at hs

/-! ## Writing a file -/

theorem makes_write {path : Text} {bytes : Bytes} (hkey : Path.key path = path)
    (hdue : due path = some bytes) :
    Makes source due {path} (Build.write (Places.memory.output.writeBytes path bytes)) := by
  intro s hs
  have htrees : s.storage.Extends due {Path.key path}
      { s.storage with output := s.storage.output.writeBytes path bytes } :=
    .write s.storage (by rw [hkey, hdue])
  rw [hkey] at htrees
  rw [exec_write]
  refine ⟨htrees, ⟨hs.source_eq, fun file hfile => htrees.holds (hs.libraries file hfile)⟩, ?_⟩
  rintro a ha key rfl
  refine ⟨bytes, hdue, ?_⟩
  simp [Places.memory, View.memory, Tree.get?_writeBytes, hkey]

end Bundle

end AddonBundle
