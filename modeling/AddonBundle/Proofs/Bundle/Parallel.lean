import AddonBundle.Proofs.Bundle.Restyling
import AddonBundle.Proofs.Bundle.Run
import AddonBundle.Proofs.Stylesheet.Inlining
/-!
# Steps side by side

A step of bundling is taken in two sessions that stand in a relation, maybe over different kinds of
trees. When the relation lets both sides read the same and is kept by writing at some paths, it is
kept by all of bundling, as far as bundling writes at these paths only; and both sides have the
same outcome. A property of one session is such a relation too, between a session and itself.
-/

namespace AddonBundle

variable {σ τ : Type}

/-- Reading from two views gives the same. -/
structure View.Agrees (view : View σ) (a : σ) (view' : View τ) (b : τ) : Prop where
  present : view.present a = view'.present b
  isDir : view.isDir a = view'.isDir b
  listDir : view.listDir a = view'.listDir b
  walk : view.walk a = view'.walk b
  readBytes : view.readBytes a = view'.readBytes b

namespace View.Agrees

variable {view : View σ} {view' : View τ} {a : σ} {b : τ} (h : view.Agrees a view' b)

include h

theorem isFile (path : Text) : view.isFile a path = view'.isFile b path := by
  simp only [View.isFile, h.present, h.isDir]

theorem readText (path : Text) : view.readText a path = view'.readText b path := by
  simp only [View.readText, h.readBytes]

theorem mediaFiles (extensions : List Text) (directory : Text) :
    Script.mediaFiles view a extensions directory =
      Script.mediaFiles view' b extensions directory := by
  simp only [Script.mediaFiles, h.listDir, h.isDir]

theorem restyleSheet (directory : Text) (mapping : Stylesheet.ClassMapping) :
    Stylesheet.restyleSheet view a directory mapping =
      Stylesheet.restyleSheet view' b directory mapping := by
  have hread : ∀ path, Stylesheet.readSheet view a path = Stylesheet.readSheet view' b path := by
    intro path
    simp only [Stylesheet.readSheet, h.readText]
  simp only [Stylesheet.restyleSheet, h.present, Stylesheet.flatten_congr h.isFile hread]

theorem languages : Bundle.languages view a = Bundle.languages view' b := by
  simp only [Bundle.languages, h.listDir, h.isDir]

theorem readJson (path : Text) (invalid : Text → Fault) :
    Bundle.readJson view a path invalid = Bundle.readJson view' b path invalid := by
  simp only [Bundle.readJson, h.readText]

theorem readVersion : Bundle.readVersion view a = Bundle.readVersion view' b := by
  simp only [Bundle.readVersion, h.present, h.readJson]

end View.Agrees

namespace Bundle

open Build

variable {α β : Type} {R : Session σ → Session τ → Prop}

/-! ## Steps one after the other -/

/-- Taken in two sessions that stand in a relation, the two steps have the same outcome, and the
sessions behind them stand in the relation again. -/
def Parallel (R : Session σ → Session τ → Prop) (step : Build σ α) (step' : Build τ α) : Prop :=
  ∀ s t, R s t → (exec step s).1 = (exec step' t).1 ∧ R (exec step s).2 (exec step' t).2

theorem parallel_ofExcept (outcome : Except Failure α) :
    Parallel R (Build.ofExcept outcome) (Build.ofExcept outcome) := by
  intro s t h
  simpa using h

theorem parallel_pure (a : α) : Parallel R (pure a) (pure a) :=
  parallel_ofExcept (.ok a)

theorem parallel_throw (failure : Failure) :
    Parallel R (throw failure : Build σ α) (throw failure) :=
  parallel_ofExcept (.error failure)

/-- The second step may rely on an outcome of the first. -/
theorem Parallel.bind {step : Build σ α} {step' : Build τ α} {next : α → Build σ β}
    {next' : α → Build τ β} (hstep : Parallel R step step')
    (hnext : ∀ a s, (exec step s).1 = .ok a → Parallel R (next a) (next' a)) :
    Parallel R (step >>= next) (step' >>= next') := by
  intro s t h
  obtain ⟨houtcome, hbehind⟩ := hstep s t h
  rw [exec_bind, exec_bind]
  cases hs : exec step s with
  | mk outcome s' =>
      cases ht : exec step' t with
      | mk outcome' t' =>
          rw [hs, ht] at houtcome hbehind
          dsimp only at houtcome hbehind
          subst houtcome
          cases outcome with
          | error failure => exact ⟨rfl, hbehind⟩
          | ok a => exact hnext a s (by rw [hs]) s' t' hbehind

/-- Steps whose results do not matter. -/
theorem Parallel.before {γ : Type} {step : Build σ γ} {step' : Build τ γ} {next : Build σ β}
    {next' : Build τ β}
    (hstep : Parallel R (step >>= fun _ => pure ()) (step' >>= fun _ => pure ()))
    (hnext : Parallel R next next') :
    Parallel R (step >>= fun _ => next) (step' >>= fun _ => next') := by
  have hsplit : (step >>= fun _ => next) = (step >>= fun _ => pure ()) >>= fun _ => next := by
    simp
  have hsplit' : (step' >>= fun _ => next') = (step' >>= fun _ => pure ()) >>= fun _ => next' := by
    simp
  rw [hsplit, hsplit']
  exact hstep.bind fun _ _ _ => hnext

/-- Steps that look at the storage. -/
theorem Parallel.storage {next : σ → Build σ α} {next' : τ → Build τ α}
    (h : ∀ s t, R s t → Parallel R (next s.storage) (next' t.storage)) :
    Parallel R (Build.storage >>= next) (Build.storage >>= next') := by
  intro s t hR
  rw [exec_bind_of_ok (exec_storage s), exec_bind_of_ok (exec_storage t)]
  exact h s t hR s t hR

/-- Steps that look at the session. -/
theorem Parallel.get {next : Session σ → Build σ α} {next' : Session τ → Build τ α}
    (h : ∀ s t, R s t → Parallel R (next s) (next' t)) :
    Parallel R (get >>= next) (get >>= next') := by
  intro s t hR
  rw [exec_bind_of_ok (exec_get s), exec_bind_of_ok (exec_get t)]
  exact h s t hR s t hR

theorem Parallel.mapFailure {step : Build σ α} {step' : Build τ α} (h : Parallel R step step')
    (f : Failure → Failure) : Parallel R (Build.mapFailure f step) (Build.mapFailure f step') := by
  intro s t hR
  obtain ⟨houtcome, hbehind⟩ := h s t hR
  rw [exec_mapFailure, exec_mapFailure, houtcome]
  exact ⟨rfl, hbehind⟩

/-! ## Relations that bundling keeps -/

/-- What a session tells: the trace and the log, the files written, and the catalogs. -/
structure Notes where
  trace : Trace
  log : List Log.Entry
  written : List Text
  catalogs : Catalogs

/-- The session with its notes changed. -/
def tell (change : Notes → Notes) (s : Session σ) : Session σ :=
  let notes := change ⟨s.trace, s.log, s.written, s.catalogs⟩
  { s with
    trace := notes.trace
    log := notes.log
    written := notes.written
    catalogs := notes.catalogs }

/-- The session with more rules. -/
def addRules (texts : List Text) (s : Session σ) : Session σ :=
  { s with sheet := ⟨s.sheet.rules ++ texts⟩ }

/-- A relation that lets both sides read the same, and that is kept by the same notes and rules on
both sides, by copying libraries, and by writing at paths with a property. -/
structure IsKept (places : Places σ) (places' : Places τ) (P : Text → Prop)
    (R : Session σ → Session τ → Prop) : Prop where
  tell : ∀ {s t} change, R s t → R (tell change s) (tell change t)
  addRules : ∀ {s t} texts, R s t → R (addRules texts s) (addRules texts t)
  source : ∀ {s t}, R s t → places.source.Agrees s.storage places'.source t.storage
  host : ∀ {s t}, R s t → places.host.Agrees s.storage places'.host t.storage
  writeText : ∀ path text, P path → Parallel R (Build.write (places.output.writeText path text))
    (Build.write (places'.output.writeText path text))
  writeBytes : ∀ path bytes, P path → Parallel R (Build.write (places.output.writeBytes path bytes))
    (Build.write (places'.output.writeBytes path bytes))
  copy : ∀ text, ∀ reference ∈ Script.libraryReferences text,
    Parallel R (copyLibrary places reference >>= fun _ => pure ())
      (copyLibrary places' reference >>= fun _ => pure ())

/-- The files that addons have in a state are bundled at paths with a property. -/
def FilesAt (places : Places σ) (addons : List Text) (P : Text → Prop) (storage : σ) : Prop :=
  ∀ addon ∈ addons, ∀ found, places.source.walk storage (addonsDir ++ '/' :: addon) = .ok found →
    ∀ file ∈ found, P (addonsDir ++ '/' :: addon ++ '/' :: file)

/-- The catalogs that addons may have in a state are written at paths with a property. -/
def CatalogsAt (places : Places σ) (addons : List Text) (P : Text → Prop) (storage : σ) : Prop :=
  ∀ found, languages places.source storage = .ok found →
    ∀ language ∈ found, ∀ addon ∈ addons, P (catalogPath language addon)

/-- The steps of a run behind the addons. -/
def finishingSteps (places : Places σ) (settings : Settings) : Build σ Report := do
  writeFile places.output sheetFile (← get).sheet.text
  Build.startPhase "Localization".toList
  let languages ← writeCatalogs places settings.addons
  modify Build.closePhase
  let version ← Build.ofExcept (readVersion places.source (← Build.storage))
  writeRecord places.output version languages
  let s ← get
  let report : Report :=
    { written := s.written, libraries := s.libraries, languages, version, sheet := s.sheet
      trace := s.trace }
  Build.log .success (summary settings.addons.length report)
  return report

theorem bundlingSteps_eq (places : Places σ) (settings : Settings) :
    bundlingSteps places settings = (do
      Build.log .info
        ("Porting ".toList ++ Text.ofNat settings.addons.length ++ " addons".toList)
      bundleAddons places settings settings.addons
      finishingSteps places settings) := rfl

namespace IsKept

variable {places : Places σ} {places' : Places τ} {settings : Settings} {P : Text → Prop}
  {addons : List Text}

theorem record (h : IsKept places places' P R) (event : Event) :
    Parallel R (Build.record event) (Build.record event) :=
  fun _ _ hR => ⟨rfl, h.tell (fun notes => { notes with trace := notes.trace.record event }) hR⟩

theorem log (h : IsKept places places' P R) (level : Log.Level) (message : Text) :
    Parallel R (Build.log level message) (Build.log level message) := by
  intro s t hR
  rw [exec_log, exec_log]
  exact ⟨rfl, h.tell (fun notes => { notes with log := notes.log ++ [⟨level, message⟩] }) hR⟩

theorem startPhase (h : IsKept places places' P R) (name : Text) :
    Parallel R (Build.startPhase name) (Build.startPhase name) :=
  fun _ _ hR =>
    ⟨rfl, h.tell (fun notes => { notes with trace := notes.trace.startPhase name [] }) hR⟩

theorem endPhase (h : IsKept places places' P R) {s : Session σ} {t : Session τ}
    (hR : R s t) : R (Build.closePhase s) (Build.closePhase t) :=
  h.tell (fun notes => { notes with trace := notes.trace.endPhase }) hR

theorem closePhase (h : IsKept places places' P R) {step : Build σ α} {step' : Build τ α}
    (hstep : Parallel R step step') :
    Parallel R (Build.always Build.closePhase step) (Build.always Build.closePhase step') := by
  intro s t hR
  obtain ⟨houtcome, hbehind⟩ := hstep s t hR
  rw [exec_always, exec_always]
  exact ⟨houtcome, h.endPhase hbehind⟩

theorem noteWritten (h : IsKept places places' P R) (path : Text) :
    Parallel R (modify fun s => { s with written := s.written ++ [path] } : Build σ Unit)
      (modify fun s => { s with written := s.written ++ [path] } : Build τ Unit) :=
  fun _ _ hR => ⟨rfl, h.tell (fun notes => { notes with written := notes.written ++ [path] }) hR⟩

theorem noteCatalogs (h : IsKept places places' P R) (change : Catalogs → Catalogs) :
    Parallel R (modify fun s => { s with catalogs := change s.catalogs } : Build σ Unit)
      (modify fun s => { s with catalogs := change s.catalogs } : Build τ Unit) :=
  fun _ _ hR => ⟨rfl, h.tell (fun notes => { notes with catalogs := change notes.catalogs }) hR⟩

/-! ## Files of addons -/

theorem readable (path : Text) (outcome : Except Failure α) :
    Parallel R (readable path outcome) (readable path outcome) := by
  unfold Bundle.readable
  split
  · exact parallel_pure _
  · split
    · exact parallel_throw _
    · exact parallel_throw _

theorem readText (h : IsKept places places' P R) (path : Text) {next : Text → Build σ α}
    {next' : Text → Build τ α} (hnext : ∀ text, Parallel R (next text) (next' text)) :
    Parallel R
      (do next (← Bundle.readable path (places.source.readText (← Build.storage) path)))
      (do next' (← Bundle.readable path (places'.source.readText (← Build.storage) path))) := by
  apply Parallel.storage
  intro s t hR
  rw [(h.source hR).readText]
  exact (readable path _).bind fun text _ _ => hnext text

theorem copyLibraries (h : IsKept places places' P R) {text : Text}
    {references : List Script.LibraryReference}
    (hreferences : ∀ reference ∈ references, reference ∈ Script.libraryReferences text) :
    Parallel R (copyLibraries places references >>= fun _ => pure ())
      (copyLibraries places' references >>= fun _ => pure ()) := by
  induction references with
  | nil => exact parallel_pure ()
  | cons reference rest ih =>
      simp only [Bundle.copyLibraries, bind_assoc, pure_bind]
      exact (h.copy text reference (hreferences reference List.mem_cons_self)).before
        (ih fun other hother => hreferences other (List.mem_cons_of_mem _ hother))

theorem markersOf (path text : Text) :
    Parallel R (markersOf path text) (markersOf path text) := by
  unfold Bundle.markersOf
  split
  · exact parallel_pure _
  · exact parallel_throw _

theorem warnMissing (h : IsKept places places' P R) (script : Text) (paths : List Text) :
    Parallel R (warnMissing script paths) (warnMissing script paths) := by
  induction paths with
  | nil => exact parallel_pure ()
  | cons path rest ih =>
      exact (h.log _ _).bind fun _ _ _ => (h.record _).bind fun _ _ _ => ih

theorem linkScript (h : IsKept places places' P R) (extensions : List Text)
    (path text : Text) :
    Parallel R (linkScript places.source extensions path text)
      (linkScript places'.source extensions path text) := by
  unfold Bundle.linkScript
  split
  · apply Parallel.storage
    intro s t hR
    rw [(h.source hR).mediaFiles]
    apply (parallel_ofExcept _).bind
    intro media _ _
    apply (h.warnMissing _ _).bind
    intro _ _ _
    exact (h.record _).bind fun _ _ _ => parallel_pure _
  · exact parallel_pure _

theorem stamp (h : IsKept places places' P R) (header path text : Text) :
    Parallel R (stamp header path text) (stamp header path text) := by
  unfold Bundle.stamp
  split
  · exact parallel_pure _
  · exact (h.record _).bind fun _ _ _ => parallel_pure _

theorem writeFile (h : IsKept places places' P R) {path : Text} (hpath : P path)
    (text : Text) :
    Parallel R (writeFile places.output path text) (writeFile places'.output path text) :=
  (h.writeText path _ hpath).bind fun _ _ _ => h.noteWritten path

theorem bundleScript (h : IsKept places places' P R) {path : Text} (hpath : P path) :
    Parallel R (bundleScript places settings path) (bundleScript places' settings path) := by
  apply h.readText
  intro text
  apply (h.copyLibraries fun _ hreference => hreference).before
  apply (markersOf path text).bind
  intro markers _ _
  apply (h.linkScript settings.extensions path text).bind
  rintro ⟨linked, table⟩ _ _
  apply (h.stamp settings.header path linked).bind
  intro stamped _ _
  exact (h.writeFile hpath stamped).bind fun _ _ _ => parallel_pure _

theorem bundleStylesheet (h : IsKept places places' P R) {path : Text} (hpath : P path) :
    Parallel R (bundleStylesheet places settings path)
      (bundleStylesheet places' settings path) := by
  apply h.readText
  intro text
  exact (h.stamp settings.header path text).bind fun stamped _ _ => h.writeFile hpath stamped

theorem copyFile (h : IsKept places places' P R) {path : Text} (hpath : P path) :
    Parallel R (copyFile places path) (copyFile places' path) := by
  apply Parallel.storage
  intro s t hR
  rw [(h.source hR).readBytes]
  apply (readable path _).bind
  intro bytes _ _
  exact (h.writeBytes path bytes hpath).bind fun _ _ _ => h.noteWritten path

theorem bundleFile (h : IsKept places places' P R) {path : Text} (hpath : P path) :
    Parallel R (bundleFile places settings path) (bundleFile places' settings path) := by
  unfold Bundle.bundleFile
  split
  · exact h.bundleScript hpath
  · exact (h.bundleStylesheet hpath).bind fun _ _ _ => parallel_pure _
  · exact (h.copyFile hpath).bind fun _ _ _ => parallel_pure _

theorem bundleFiles (h : IsKept places places' P R) {directory : Text} {files : List Text}
    (hfiles : ∀ file ∈ files, P (directory ++ '/' :: file)) :
    Parallel R (bundleFiles places settings directory files)
      (bundleFiles places' settings directory files) := by
  induction files with
  | nil => exact parallel_pure []
  | cons file rest ih =>
      apply (h.bundleFile (hfiles file List.mem_cons_self)).bind
      intro markers _ _
      exact (ih fun other hother => hfiles other (List.mem_cons_of_mem _ hother)).bind
        fun _ _ _ => parallel_pure _

/-! ## Addons -/

theorem recordRules (h : IsKept places places' P R) (sheet : Text)
    (rules : List Stylesheet.RestyledRule) :
    Parallel R (recordRules sheet rules) (recordRules sheet rules) := by
  induction rules with
  | nil => exact parallel_pure ()
  | cons rule rest ih => exact (h.record _).bind fun _ _ _ => ih

theorem restyleOne (h : IsKept places places' P R) (directory : Text)
    (mapping : Stylesheet.ClassMapping) :
    Parallel R (restyleOne places.host directory mapping)
      (restyleOne places'.host directory mapping) := by
  apply Parallel.storage
  intro s t hR
  rw [(h.host hR).restyleSheet]
  apply (parallel_ofExcept _).bind
  intro rules _ _
  apply (h.recordRules _ _).bind
  intro _ _ _
  refine Parallel.bind ?_ fun _ _ _ => parallel_pure _
  intro s t hR
  rw [exec_modify, exec_modify, foldl_append_rules, foldl_append_rules]
  exact ⟨rfl, h.addRules _ hR⟩

theorem restyle (h : IsKept places places' P R) (directory : Text)
    (mappings : List Stylesheet.ClassMapping) :
    Parallel R (restyle places.host directory mappings)
      (restyle places'.host directory mappings) := by
  induction mappings with
  | nil => exact parallel_pure 0
  | cons mapping rest ih =>
      exact (h.restyleOne directory mapping).bind fun _ _ _ => ih.bind fun _ _ _ => parallel_pure _

theorem bundleAddon (h : IsKept places places' P R)
    (hfiles : ∀ s t, R s t → FilesAt places addons P s.storage) {addon : Text}
    (haddon : addon ∈ addons) :
    Parallel R (bundleAddon places settings addon) (bundleAddon places' settings addon) := by
  apply Parallel.storage
  intro s t hR
  rw [← (h.source hR).isDir, ← (h.source hR).walk]
  apply (parallel_ofExcept _).bind
  intro isDir _ _
  split
  · apply (parallel_ofExcept _).bind
    intro files _ hwalk
    apply (h.bundleFiles (hfiles s t hR addon haddon files (exec_ofExcept_ok hwalk))).bind
    intro markers _ _
    exact (h.restyle _ _).bind fun _ _ _ => parallel_pure _
  · exact parallel_throw _

theorem bundleAddons (h : IsKept places places' P R)
    (hfiles : ∀ s t, R s t → FilesAt places addons P s.storage) {those : List Text}
    (hthose : those ⊆ addons) :
    Parallel R (bundleAddons places settings those) (bundleAddons places' settings those) := by
  induction those with
  | nil => exact parallel_pure ()
  | cons addon rest ih =>
      apply (h.startPhase _).bind
      intro _ _ _
      have haddon : Parallel R (Bundle.bundleAddon places settings addon)
          (Bundle.bundleAddon places' settings addon) :=
        h.bundleAddon hfiles (hthose List.mem_cons_self)
      exact (h.closePhase (haddon.mapFailure _)).bind fun _ _ _ =>
        ih fun other hother => hthose (List.mem_cons_of_mem _ hother)

/-! ## Catalogs -/

theorem writeCatalog (h : IsKept places places' P R) {language addon : Text}
    (hpath : P (catalogPath language addon)) :
    Parallel R (writeCatalog places language addon) (writeCatalog places' language addon) := by
  apply Parallel.storage
  intro s t hR
  rw [(h.source hR).present, (h.source hR).readJson]
  apply (parallel_ofExcept _).bind
  intro present _ _
  split
  · apply (parallel_ofExcept _).bind
    intro catalog _ _
    apply (h.noteCatalogs (addCatalog language addon catalog)).bind
    intro _ _ _
    exact (h.writeText _ _ hpath).bind fun _ _ _ => h.record _
  · exact parallel_pure ()

theorem writeLanguage (h : IsKept places places' P R) {language : Text}
    {those : List Text} (hpaths : ∀ addon ∈ those, P (catalogPath language addon)) :
    Parallel R (writeLanguage places language those) (writeLanguage places' language those) := by
  induction those with
  | nil => exact parallel_pure ()
  | cons addon rest ih =>
      exact (h.writeCatalog (hpaths addon List.mem_cons_self)).bind fun _ _ _ =>
        ih fun other hother => hpaths other (List.mem_cons_of_mem _ hother)

theorem writeLanguages (h : IsKept places places' P R) {names : List Text}
    (hpaths : ∀ language ∈ names, ∀ addon ∈ addons, P (catalogPath language addon)) :
    Parallel R (writeLanguages places addons names) (writeLanguages places' addons names) := by
  induction names with
  | nil => exact parallel_pure ()
  | cons language rest ih =>
      apply (h.noteCatalogs (Assoc.putNew language [])).bind
      intro _ _ _
      exact (h.writeLanguage (hpaths language List.mem_cons_self)).bind fun _ _ _ =>
        ih fun other hother => hpaths other (List.mem_cons_of_mem _ hother)

theorem writeCatalogs (h : IsKept places places' P R)
    (hcatalogs : ∀ s t, R s t → CatalogsAt places addons P s.storage) :
    Parallel R (writeCatalogs places addons) (writeCatalogs places' addons) := by
  apply Parallel.storage
  intro s t hR
  rw [← (h.source hR).languages]
  apply (parallel_ofExcept _).bind
  intro found _ hfound
  exact (h.writeLanguages (hcatalogs s t hR found (exec_ofExcept_ok hfound))).bind
    fun _ _ _ => parallel_pure _

/-! ## Runs -/

theorem removeAll {paths : List Text}
    (hremove : ∀ path ∈ paths, Parallel R (Build.write (places.output.remove path))
      (Build.write (places'.output.remove path))) :
    Parallel R (removeAll places.output paths) (removeAll places'.output paths) := by
  induction paths with
  | nil => exact parallel_pure ()
  | cons path rest ih =>
      exact (hremove path List.mem_cons_self).bind fun _ _ _ =>
        ih fun other hother => hremove other (List.mem_cons_of_mem _ hother)

/-- The steps of a run behind the addons, when what is reported is the same on both sides. -/
theorem finishingSteps (h : IsKept places places' P R)
    (hcatalogs : ∀ s t, R s t → CatalogsAt places settings.addons P s.storage)
    (hsheet : P sheetFile) (hrecord : P recordFile)
    (hreport : ∀ {s t}, R s t → s.written = t.written ∧ s.libraries = t.libraries ∧
      s.sheet = t.sheet ∧ s.trace = t.trace) :
    Parallel R (finishingSteps places settings) (finishingSteps places' settings) := by
  apply Parallel.get
  intro s t hR
  rw [(hreport hR).2.2.1]
  apply (h.writeFile hsheet _).bind
  intro _ _ _
  apply (h.startPhase _).bind
  intro _ _ _
  apply (h.writeCatalogs hcatalogs).bind
  intro languages _ _
  refine Parallel.bind (fun _ _ hR => ⟨rfl, h.endPhase hR⟩) fun _ _ _ => ?_
  apply Parallel.storage
  intro s t hR
  rw [(h.source hR).readVersion]
  apply (parallel_ofExcept _).bind
  intro version _ _
  apply (h.writeText recordFile _ hrecord).bind
  intro _ _ _
  apply Parallel.get
  intro s t hR
  obtain ⟨hwritten, hlibraries, hsheet, htrace⟩ := hreport hR
  rw [hwritten, hlibraries, hsheet, htrace]
  exact (h.log _ _).bind fun _ _ _ => parallel_pure _

/-- Whole runs, when what is reported is the same on both sides. -/
theorem runSteps (h : IsKept places places' P R)
    (hfiles : ∀ s t, R s t → FilesAt places settings.addons P s.storage)
    (hcatalogs : ∀ s t, R s t → CatalogsAt places settings.addons P s.storage)
    (hremove : ∀ path ∈ staleDirs, Parallel R (Build.write (places.output.remove path))
      (Build.write (places'.output.remove path)))
    (hsheet : P sheetFile) (hrecord : P recordFile)
    (hreport : ∀ {s t}, R s t → s.written = t.written ∧ s.libraries = t.libraries ∧
      s.sheet = t.sheet ∧ s.trace = t.trace) :
    Parallel R (runSteps places settings) (runSteps places' settings) := by
  have hbundling : Parallel R (bundlingSteps places settings) (bundlingSteps places' settings) := by
    rw [bundlingSteps_eq, bundlingSteps_eq]
    apply (h.log _ _).bind
    intro _ _ _
    apply (h.bundleAddons hfiles fun _ haddon => haddon).bind
    intro _ _ _
    exact h.finishingSteps hcatalogs hsheet hrecord hreport
  rw [runSteps_eq, runSteps_eq]
  split
  · exact (removeAll hremove).bind fun _ _ _ => hbundling
  · exact hbundling

end IsKept

/-! ## Properties of one session -/

/-- A property of the storage and of the libraries copied that is kept by writing at paths with
another property, where the libraries lie. -/
structure Keeps (places : Places σ) (P : Text → Prop) (Q : σ → List Text → Prop) : Prop where
  writeText : ∀ {storage libraries} path text, P path → Q storage libraries →
    Q (places.output.writeText path text storage).2 libraries
  writeBytes : ∀ {storage libraries} path bytes, P path → Q storage libraries →
    Q (places.output.writeBytes path bytes storage).2 libraries
  library : ∀ text, ∀ reference ∈ Script.libraryReferences text, P (libraryPath reference.file)
  copied : ∀ text, ∀ reference ∈ Script.libraryReferences text, ∀ {storage libraries} bytes,
    Q storage libraries →
      (places.output.writeBytes (libraryPath reference.file) bytes storage).1 = .ok () →
        Q (places.output.writeBytes (libraryPath reference.file) bytes storage).2
          (libraries ++ [reference.file])

namespace Keeps

variable {places : Places σ} {settings : Settings} {P : Text → Prop} {addons : List Text}
  {Q : σ → List Text → Prop}

theorem copyLibrary (h : Keeps places P Q) {text : Text}
    {reference : Script.LibraryReference}
    (hreference : reference ∈ Script.libraryReferences text) {s : Session σ}
    (hs : Q s.storage s.libraries) :
    Q (exec (copyLibrary places reference) s).2.storage
      (exec (copyLibrary places reference) s).2.libraries := by
  rw [Bundle.copyLibrary, exec_bind_of_ok (exec_get s)]
  split
  · exact hs
  · dsimp only
    rw [exec_bind_of_ok (exec_storage s), exec_bind, exec_ofExcept]
    cases places.source.isFile s.storage (libraryPath reference.file) with
    | error failure => exact hs
    | ok isFile =>
        cases isFile with
        | false => exact hs
        | true =>
            dsimp only
            rw [if_neg (by decide), exec_bind, exec_ofExcept]
            cases places.source.readBytes s.storage (libraryPath reference.file) with
            | error failure => exact hs
            | ok bytes =>
                dsimp only
                rw [exec_bind, exec_write]
                have hfailed := h.writeBytes _ bytes (h.library text reference hreference) hs
                have hcopied := h.copied text reference hreference bytes hs
                cases hwrite : places.output.writeBytes (libraryPath reference.file) bytes
                    s.storage with
                | mk outcome storage =>
                    rw [hwrite] at hfailed hcopied
                    cases outcome with
                    | error failure => exact hfailed
                    | ok _ => exact hcopied rfl

theorem isKept (h : Keeps places P Q) :
    IsKept places places P fun s t => s = t ∧ Q s.storage s.libraries where
  tell := by
    rintro s _ change ⟨rfl, hs⟩
    exact ⟨rfl, hs⟩
  addRules := by
    rintro s _ texts ⟨rfl, hs⟩
    exact ⟨rfl, hs⟩
  source := by
    rintro s _ ⟨rfl, -⟩
    exact ⟨rfl, rfl, rfl, rfl, rfl⟩
  host := by
    rintro s _ ⟨rfl, -⟩
    exact ⟨rfl, rfl, rfl, rfl, rfl⟩
  writeText := by
    rintro path text hpath s _ ⟨rfl, hs⟩
    rw [exec_write]
    exact ⟨rfl, rfl, h.writeText path text hpath hs⟩
  writeBytes := by
    rintro path bytes hpath s _ ⟨rfl, hs⟩
    rw [exec_write]
    exact ⟨rfl, rfl, h.writeBytes path bytes hpath hs⟩
  copy := by
    rintro text reference hreference s _ ⟨rfl, hs⟩
    have hcopied := h.copyLibrary hreference hs
    refine ⟨rfl, rfl, ?_⟩
    rw [exec_bind]
    cases hexec : exec (Bundle.copyLibrary places reference) s with
    | mk outcome s' =>
        rw [hexec] at hcopied
        cases outcome <;> exact hcopied

theorem bundleAddons (h : Keeps places P Q)
    (hfiles : ∀ storage libraries, Q storage libraries → FilesAt places addons P storage)
    {s : Session σ} (hs : Q s.storage s.libraries) :
    Q (exec (bundleAddons places settings addons) s).2.storage
      (exec (bundleAddons places settings addons) s).2.libraries :=
  (h.isKept.bundleAddons (fun s _ hR => hfiles s.storage s.libraries hR.2)
    (fun _ haddon => haddon) s s ⟨rfl, hs⟩).2.2

theorem writeCatalogs (h : Keeps places P Q)
    (hcatalogs : ∀ storage libraries, Q storage libraries → CatalogsAt places addons P storage)
    {s : Session σ} (hs : Q s.storage s.libraries) :
    Q (exec (writeCatalogs places addons) s).2.storage
      (exec (writeCatalogs places addons) s).2.libraries :=
  (h.isKept.writeCatalogs (fun s _ hR => hcatalogs s.storage s.libraries hR.2) s s ⟨rfl, hs⟩).2.2

theorem run (h : Keeps places P Q)
    (hfiles : ∀ storage libraries, Q storage libraries → FilesAt places settings.addons P storage)
    (hcatalogs : ∀ storage libraries, Q storage libraries →
      CatalogsAt places settings.addons P storage)
    (hremove : ∀ path ∈ staleDirs, ∀ {storage libraries}, Q storage libraries →
      Q (places.output.remove path storage).2 libraries)
    (hsheet : P sheetFile) (hrecord : P recordFile) {s : Session σ}
    (hs : Q s.storage s.libraries) :
    Q (run places settings s).2.storage (run places settings s).2.libraries := by
  refine (h.isKept.runSteps (fun s _ hR => hfiles s.storage s.libraries hR.2)
    (fun s _ hR => hcatalogs s.storage s.libraries hR.2) ?_ hsheet hrecord ?_ (fresh s) (fresh s)
    ⟨rfl, hs⟩).2.2
  · rintro path hpath s _ ⟨rfl, hs⟩
    rw [exec_write]
    exact ⟨rfl, rfl, hremove path hpath hs⟩
  · rintro s _ ⟨rfl, -⟩
    exact ⟨rfl, rfl, rfl, rfl⟩

end Keeps

end Bundle

end AddonBundle
