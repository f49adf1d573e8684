import AddonBundle.Json.Value
import AddonBundle.Log
import AddonBundle.Storage
import AddonBundle.Trace
/-!
# Sessions

The state that bundling works on: the storage, the trace and log, and what has been collected so
far. A step either gives a result or fails, and what it did before it failed stays done.
-/

namespace AddonBundle

/-- The generated stylesheet: a banner and the rules appended so far. -/
structure FixedSheet where
  rules : List Text := []
deriving Repr, DecidableEq

/-- The comment that every generated stylesheet starts with. -/
def FixedSheet.banner : Text :=
  "/* generated by addon-porter */\n".toList

/-- The text of the generated stylesheet. -/
def FixedSheet.text (sheet : FixedSheet) : Text :=
  FixedSheet.banner ++ sheet.rules.flatten

/-- The sheet with one more rule. -/
def FixedSheet.append (sheet : FixedSheet) (rule : Text) : FixedSheet :=
  ⟨sheet.rules ++ [rule]⟩

/-- Catalogs by language and addon. -/
abbrev Catalogs := List (Text × List (Text × Json.Value))

/-- What bundling works on. -/
structure Session (σ : Type) where
  storage : σ
  trace : Trace := {}
  log : List Log.Entry := []
  /-- The shared libraries copied so far. -/
  libraries : List Text := []
  /-- The rules generated so far. -/
  sheet : FixedSheet := {}
  /-- The files of addons and the generated stylesheet, in the order written. -/
  written : List Text := []
  /-- The catalogs collected so far. -/
  catalogs : Catalogs := []

/-- A step of bundling. -/
abbrev Build (σ : Type) := ExceptT Failure (StateM (Session σ))

namespace Build

variable {σ : Type}

/-- Fails with a fault. -/
def fault {α : Type} (f : Fault) : Build σ α :=
  throw (.fault f)

/-- Runs a step on a session and gives the outcome with the session after it. -/
def exec {α : Type} (step : Build σ α) (session : Session σ) : Except Failure α × Session σ :=
  StateT.run (ExceptT.run step) session

/-- The storage as it is now. -/
def storage : Build σ σ := do
  return (← get).storage

/-- The outcome of reading, as a step. -/
def ofExcept {α : Type} (outcome : Except Failure α) : Build σ α :=
  match outcome with
  | .ok a => pure a
  | .error failure => throw failure

/-- Changes the storage. -/
def write (change : σ → Except Failure Unit × σ) : Build σ Unit := do
  let session ← get
  let (outcome, storage) := change session.storage
  set { session with storage }
  ofExcept outcome

/-- Records an event. -/
def record (event : Event) : Build σ Unit :=
  modify fun s => { s with trace := s.trace.record event }

/-- Tells the user something; a message that cannot be shown is recorded before the step fails. -/
def log (level : Log.Level) (message : Text) : Build σ Unit := do
  let entry : Log.Entry := ⟨level, message⟩
  modify fun s => { s with log := s.log ++ [entry] }
  match entry.fault? with
  | some fault => throw (.unshowable fault)
  | none => return ()

/-- Runs a step, and changes the session behind it whether it failed or not. -/
def always {α : Type} (after : Session σ → Session σ) (step : Build σ α) : Build σ α :=
  ExceptT.mk do
    let outcome ← step.run
    modify after
    return outcome

/-- Runs a step, and changes its failure if it fails. -/
def mapFailure {α : Type} (f : Failure → Failure) (step : Build σ α) : Build σ α :=
  ExceptT.mk do
    match ← step.run with
    | .ok a => return .ok a
    | .error failure => return .error (f failure)

/-- Opens a phase. -/
def startPhase (name : Text) : Build σ Unit :=
  modify fun s => { s with trace := s.trace.startPhase name [] }

/-- Closes the innermost phase of a session. -/
def closePhase (s : Session σ) : Session σ :=
  { s with trace := s.trace.endPhase }

end Build

end AddonBundle
