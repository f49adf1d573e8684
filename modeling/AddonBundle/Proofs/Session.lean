import AddonBundle.Proofs.Tree
import AddonBundle.Session
/-!
# Steps of bundling

What each elementary step does to the session, and how a sequence of steps is taken apart.
-/

namespace AddonBundle.Build

variable {σ α β : Type}

/-! ## Elementary steps -/

@[simp] theorem exec_pure (a : α) (s : Session σ) : exec (pure a) s = (.ok a, s) := rfl

@[simp] theorem exec_throw (failure : Failure) (s : Session σ) :
    exec (throw failure : Build σ α) s = (.error failure, s) := rfl

@[simp] theorem exec_fault (f : Fault) (s : Session σ) :
    exec (fault f : Build σ α) s = (.error (.fault f), s) := rfl

@[simp] theorem exec_get (s : Session σ) : exec (get : Build σ (Session σ)) s = (.ok s, s) := rfl

@[simp] theorem exec_modify (f : Session σ → Session σ) (s : Session σ) :
    exec (modify f : Build σ Unit) s = (.ok (), f s) := rfl

@[simp] theorem exec_storage (s : Session σ) : exec storage s = (.ok s.storage, s) := rfl

@[simp] theorem exec_record (event : Event) (s : Session σ) :
    exec (record event) s = (.ok (), { s with trace := s.trace.record event }) := rfl

@[simp] theorem exec_startPhase (name : Text) (s : Session σ) :
    exec (startPhase name) s = (.ok (), { s with trace := s.trace.startPhase name [] }) := rfl

@[simp] theorem exec_ofExcept (outcome : Except Failure α) (s : Session σ) :
    exec (ofExcept outcome) s = (outcome, s) := by
  cases outcome <;> rfl

theorem exec_ofExcept_ok {outcome : Except Failure α} {s : Session σ} {a : α}
    (h : (exec (ofExcept outcome) s).1 = .ok a) : outcome = .ok a := by
  rw [exec_ofExcept] at h
  exact h

/-- Steps one after the other: the second is taken only if the first succeeds. -/
theorem exec_bind (step : Build σ α) (next : α → Build σ β) (s : Session σ) :
    exec (step >>= next) s =
      match exec step s with
      | (.ok a, s') => exec (next a) s'
      | (.error failure, s') => (.error failure, s') := by
  have hrun : exec (step >>= next) s =
      (match exec step s with
        | (outcome, s') => exec (ExceptT.bindCont next outcome) s') := rfl
  rw [hrun]
  obtain ⟨outcome, s'⟩ := exec step s
  cases outcome <;> rfl

theorem exec_bind_ok {step : Build σ α} {next : α → Build σ β} {s s' : Session σ} {b : β}
    (h : exec (step >>= next) s = (.ok b, s')) :
    ∃ a mid, exec step s = (.ok a, mid) ∧ exec (next a) mid = (.ok b, s') := by
  rw [exec_bind] at h
  split at h
  · rename_i a mid hstep
    exact ⟨a, mid, hstep, h⟩
  · cases h

/-- What both of two steps leave alone, the two together leave alone. -/
theorem exec_bind_keeps {γ : Type} {f : Session σ → γ} {step : Build σ α} {next : α → Build σ β}
    (hstep : ∀ s, f (exec step s).2 = f s) (hnext : ∀ a s, f (exec (next a) s).2 = f s)
    (s : Session σ) : f (exec (step >>= next) s).2 = f s := by
  have hs := hstep s
  rw [exec_bind]
  split
  · rename_i a mid hexec
    rw [hexec] at hs
    exact (hnext a mid).trans hs
  · rename_i failure mid hexec
    rwa [hexec] at hs

theorem exec_bind_of_ok {step : Build σ α} {next : α → Build σ β} {s mid : Session σ} {a : α}
    (h : exec step s = (.ok a, mid)) : exec (step >>= next) s = exec (next a) mid := by
  rw [exec_bind, h]

@[simp] theorem exec_write (change : σ → Except Failure Unit × σ) (s : Session σ) :
    exec (write change) s =
      ((change s.storage).1, { s with storage := (change s.storage).2 }) := by
  have hwrite : exec (write change) s =
      exec (ofExcept (change s.storage).1) { s with storage := (change s.storage).2 } := rfl
  rw [hwrite, exec_ofExcept]

theorem exec_log (level : Log.Level) (message : Text) (s : Session σ) :
    exec (log level message) s =
      (match Log.Entry.fault? ⟨level, message⟩ with
        | some fault => .error (.unshowable fault)
        | none => .ok (), { s with log := s.log ++ [⟨level, message⟩] }) := by
  simp only [log, exec_bind, exec_modify]
  cases Log.Entry.fault? ⟨level, message⟩ <;> rfl

@[simp] theorem exec_always (after : Session σ → Session σ) (step : Build σ α) (s : Session σ) :
    exec (always after step) s = ((exec step s).1, after (exec step s).2) := rfl

@[simp] theorem exec_mapFailure (f : Failure → Failure) (step : Build σ α) (s : Session σ) :
    exec (mapFailure f step) s = ((exec step s).1.mapError f, (exec step s).2) := by
  have hmap : exec (mapFailure f step) s =
      (match exec step s with
        | (.ok a, s') => (.ok a, s')
        | (.error failure, s') => (.error (f failure), s')) := by
    simp only [mapFailure, exec, ExceptT.run_mk, StateT.run_bind]
    obtain ⟨outcome, s'⟩ := StateT.run (ExceptT.run step) s
    cases outcome <;> rfl
  rw [hmap]
  obtain ⟨outcome, s'⟩ := exec step s
  cases outcome <;> rfl

end AddonBundle.Build
