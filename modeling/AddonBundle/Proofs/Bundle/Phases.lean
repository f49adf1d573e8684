import AddonBundle.Proofs.Bundle.Output
import AddonBundle.Proofs.Bundle.Parallel
import AddonBundle.Proofs.Trace
/-!
# The phases of a run

The steps of an addon, and those of the catalogs, record events inside the phase that is open, and
neither open a phase nor end one. So the trace of a run is its phases one behind the other.
-/

namespace AddonBundle.Bundle

open Build

variable {σ α β : Type} {kinds : List Event.Kind}

/-! ## Steps inside a phase -/

/-- A step that, whether it fails or not, records events of some kinds in the innermost phase, and
does nothing else to the trace. -/
def Records (kinds : List Event.Kind) (step : Build σ α) : Prop :=
  ∀ s, ∃ events : List Event, (∀ event ∈ events, event.kind ∈ kinds) ∧
    (exec step s).2.trace = events.foldl Trace.record s.trace

theorem records_of_trace_eq {step : Build σ α} (h : ∀ s, (exec step s).2.trace = s.trace) :
    Records kinds step :=
  fun s => ⟨[], by simp, h s⟩

theorem records_ofExcept (outcome : Except Failure α) :
    Records kinds (Build.ofExcept outcome : Build σ α) :=
  records_of_trace_eq fun s => by rw [exec_ofExcept]

theorem records_pure (a : α) : Records kinds (pure a : Build σ α) :=
  records_ofExcept (.ok a)

theorem records_throw (failure : Failure) : Records kinds (throw failure : Build σ α) :=
  records_ofExcept (.error failure)

theorem records_write (change : σ → Except Failure Unit × σ) :
    Records kinds (Build.write change) :=
  records_of_trace_eq fun s => by rw [exec_write]

theorem records_log (level : Log.Level) (message : Text) :
    Records kinds (Build.log level message : Build σ Unit) :=
  records_of_trace_eq fun s => by rw [exec_log]

theorem records_modify {f : Session σ → Session σ} (h : ∀ s, (f s).trace = s.trace) :
    Records kinds (modify f : Build σ Unit) :=
  records_of_trace_eq fun s => by rw [exec_modify, h]

theorem records_record {event : Event} (h : kinds.contains event.kind = true) :
    Records kinds (Build.record event : Build σ Unit) :=
  fun _ => ⟨[event], by simpa using h, rfl⟩

theorem Records.bind {step : Build σ α} {next : α → Build σ β} (hstep : Records kinds step)
    (hnext : ∀ a, Records kinds (next a)) : Records kinds (step >>= next) := by
  intro s
  obtain ⟨events, hevents, htrace⟩ := hstep s
  rw [exec_bind]
  cases hexec : exec step s with
  | mk outcome mid =>
      rw [hexec] at htrace
      cases outcome with
      | error failure => exact ⟨events, hevents, htrace⟩
      | ok a =>
          obtain ⟨more, hmore, hbehind⟩ := hnext a mid
          refine ⟨events ++ more, ?_, ?_⟩
          · intro event hevent
            exact (List.mem_append.mp hevent).elim (hevents event) (hmore event)
          · dsimp only at htrace ⊢
            rw [hbehind, htrace, List.foldl_append]

theorem Records.storage {next : σ → Build σ α} (h : ∀ storage, Records kinds (next storage)) :
    Records kinds (Build.storage >>= next) :=
  Records.bind (records_of_trace_eq fun s => by rw [exec_storage]) h

theorem Records.mapFailure {step : Build σ α} (h : Records kinds step) (f : Failure → Failure) :
    Records kinds (Build.mapFailure f step) := by
  intro s
  rw [exec_mapFailure]
  exact h s

/-! ## Addons -/

/-- What is recorded while an addon is bundled. -/
def addonKinds : List Event.Kind :=
  [.libraryCopy, .warning, .linking, .licenseStamp, .classFix]

variable {places : Places σ} {settings : Settings}

theorem records_readable (path : Text) (outcome : Except Failure α) :
    Records kinds (readable path outcome : Build σ α) := by
  unfold readable
  split
  · exact records_pure _
  · split
    · exact records_throw _
    · exact records_throw _

theorem records_copyLibrary (reference : Script.LibraryReference) :
    Records addonKinds (copyLibrary places reference) := by
  refine Records.bind (records_of_trace_eq fun s => by rw [exec_get]) fun s => ?_
  split
  · exact records_pure _
  · apply Records.storage
    intro storage
    apply (records_ofExcept _).bind
    intro isFile
    split
    · exact records_throw _
    · apply (records_ofExcept _).bind
      intro bytes
      apply (records_write _).bind
      intro _
      refine Records.bind (records_modify fun _ => rfl) fun _ => ?_
      exact (records_record rfl).bind fun _ => records_pure _

theorem records_copyLibraries (references : List Script.LibraryReference) :
    Records addonKinds (copyLibraries places references) := by
  induction references with
  | nil => exact records_pure 0
  | cons reference rest ih =>
      exact (records_copyLibrary reference).bind fun _ => ih.bind fun _ => records_pure _

theorem records_markersOf (path text : Text) :
    Records kinds (markersOf path text : Build σ (List Script.ClassMarker)) := by
  unfold markersOf
  split
  · exact records_pure _
  · exact records_throw _

theorem records_warnMissing (script : Text) (paths : List Text) :
    Records addonKinds (warnMissing script paths : Build σ Unit) := by
  induction paths with
  | nil => exact records_pure ()
  | cons path rest ih =>
      exact (records_log _ _).bind fun _ => (records_record rfl).bind fun _ => ih

theorem records_linkScript (source : View σ) (extensions : List Text) (path text : Text) :
    Records addonKinds (linkScript source extensions path text) := by
  unfold linkScript
  split
  · apply Records.storage
    intro storage
    apply (records_ofExcept _).bind
    intro media
    apply (records_warnMissing _ _).bind
    intro _
    exact (records_record rfl).bind fun _ => records_pure _
  · exact records_pure _

theorem records_stamp (header path text : Text) :
    Records addonKinds (stamp header path text : Build σ Text) := by
  unfold stamp
  split
  · exact records_pure _
  · exact (records_record rfl).bind fun _ => records_pure _

theorem records_writeFile (output : View σ) (path text : Text) :
    Records kinds (writeFile output path text) :=
  (records_write _).bind fun _ => records_modify fun _ => rfl

theorem records_bundleScript (path : Text) :
    Records addonKinds (bundleScript places settings path) := by
  apply Records.storage
  intro storage
  apply (records_readable path _).bind
  intro text
  apply (records_copyLibraries _).bind
  intro _
  apply (records_markersOf path text).bind
  intro markers
  apply (records_linkScript _ _ _ _).bind
  rintro ⟨linked, table⟩
  apply (records_stamp _ _ _).bind
  intro stamped
  exact (records_writeFile _ _ _).bind fun _ => records_pure _

theorem records_bundleStylesheet (path : Text) :
    Records addonKinds (bundleStylesheet places settings path) := by
  apply Records.storage
  intro storage
  apply (records_readable path _).bind
  intro text
  exact (records_stamp _ _ _).bind fun stamped => records_writeFile _ _ _

theorem records_copyFile (path : Text) : Records kinds (copyFile places path) := by
  apply Records.storage
  intro storage
  apply (records_readable path _).bind
  intro bytes
  exact (records_write _).bind fun _ => records_modify fun _ => rfl

theorem records_bundleFile (path : Text) :
    Records addonKinds (bundleFile places settings path) := by
  unfold bundleFile
  split
  · exact records_bundleScript path
  · exact (records_bundleStylesheet path).bind fun _ => records_pure _
  · exact (records_copyFile path).bind fun _ => records_pure _

theorem records_bundleFiles (directory : Text) (files : List Text) :
    Records addonKinds (bundleFiles places settings directory files) := by
  induction files with
  | nil => exact records_pure []
  | cons file rest ih =>
      exact (records_bundleFile _).bind fun _ => ih.bind fun _ => records_pure _

theorem records_recordRules (sheet : Text) (rules : List Stylesheet.RestyledRule) :
    Records addonKinds (recordRules sheet rules : Build σ Unit) := by
  induction rules with
  | nil => exact records_pure ()
  | cons rule rest ih => exact (records_record rfl).bind fun _ => ih

theorem records_restyleOne (host : View σ) (directory : Text)
    (mapping : Stylesheet.ClassMapping) :
    Records addonKinds (restyleOne host directory mapping) := by
  apply Records.storage
  intro storage
  apply (records_ofExcept _).bind
  intro rules
  apply (records_recordRules _ _).bind
  intro _
  exact Records.bind (records_modify fun _ => rfl) fun _ => records_pure _

theorem records_restyle (host : View σ) (directory : Text)
    (mappings : List Stylesheet.ClassMapping) :
    Records addonKinds (restyle host directory mappings) := by
  induction mappings with
  | nil => exact records_pure 0
  | cons mapping rest ih =>
      exact (records_restyleOne _ _ _).bind fun _ => ih.bind fun _ => records_pure _

theorem records_bundleAddon (addon : Text) :
    Records addonKinds (bundleAddon places settings addon) := by
  apply Records.storage
  intro storage
  apply (records_ofExcept _).bind
  intro isDir
  split
  · apply (records_ofExcept _).bind
    intro files
    apply (records_bundleFiles _ _).bind
    intro markers
    exact (records_restyle _ _ _).bind fun _ => records_pure _
  · exact records_throw _

/-- The steps that stand inside the phase of an addon. -/
theorem records_bundleAddon_inAddon (addon : Text) : Records addonKinds
    (Build.mapFailure (Failure.inAddon addon) (bundleAddon places settings addon)) :=
  (records_bundleAddon addon).mapFailure _

/-! ## Catalogs -/

/-- What is recorded while the catalogs are written. -/
def catalogKinds : List Event.Kind :=
  [.catalogWrite]

theorem records_writeCatalog (language addon : Text) :
    Records catalogKinds (writeCatalog places language addon) := by
  apply Records.storage
  intro storage
  apply (records_ofExcept _).bind
  intro present
  split
  · apply (records_ofExcept _).bind
    intro catalog
    refine Records.bind (records_modify fun _ => rfl) fun _ => ?_
    exact (records_write _).bind fun _ => records_record rfl
  · exact records_pure ()

theorem records_writeLanguage (language : Text) (addons : List Text) :
    Records catalogKinds (writeLanguage places language addons) := by
  induction addons with
  | nil => exact records_pure ()
  | cons addon rest ih => exact (records_writeCatalog _ _).bind fun _ => ih

theorem records_writeLanguages (addons names : List Text) :
    Records catalogKinds (writeLanguages places addons names) := by
  induction names with
  | nil => exact records_pure ()
  | cons language rest ih =>
      refine Records.bind (records_modify fun _ => rfl) fun _ => ?_
      exact (records_writeLanguage _ _).bind fun _ => ih

theorem records_writeCatalogs (addons : List Text) :
    Records catalogKinds (writeCatalogs places addons) := by
  apply Records.storage
  intro storage
  apply (records_ofExcept _).bind
  intro found
  exact (records_writeLanguages _ _).bind fun _ => records_pure _

/-! ## Phases one behind the other -/

/-- The entries of a phase that is closed, with all events of the phase inside it. -/
def closedPhase (first : Nat) (phase : Text × List Event) : List Trace.Entry :=
  ⟨.phaseStart phase.1 [], none⟩ :: phase.2.map (⟨·, some first⟩) ++ [⟨.phaseEnd, some first⟩]

/-- The entries of closed phases one behind the other, none of them inside another. -/
def phasesFrom (first : Nat) : List (Text × List Event) → List Trace.Entry
  | [] => []
  | phase :: rest => closedPhase first phase ++ phasesFrom (first + phase.2.length + 2) rest

theorem length_closedPhase (first : Nat) (phase : Text × List Event) :
    (closedPhase first phase).length = phase.2.length + 2 := by
  simp [closedPhase]

theorem phasesFrom_append (first : Nat) (phases others : List (Text × List Event)) :
    phasesFrom first (phases ++ others) =
      phasesFrom first phases ++ phasesFrom (first + (phasesFrom first phases).length) others := by
  induction phases generalizing first with
  | nil => rfl
  | cons phase rest ih =>
      have hlength : ∀ entries : List Trace.Entry,
          first + phase.2.length + 2 + entries.length =
            first + (closedPhase first phase ++ entries).length := by
        intro entries
        rw [List.length_append, length_closedPhase]
        omega
      rw [List.cons_append, phasesFrom, ih, hlength, ← List.append_assoc]
      rfl

theorem foldl_record (events : List Event) (trace : Trace) :
    events.foldl Trace.record trace =
      { trace with entries := trace.entries ++ events.map (⟨·, trace.openPhases.head?⟩) } := by
  induction events generalizing trace with
  | nil => simp
  | cons event rest ih =>
      rw [List.foldl_cons, ih]
      simp [Trace.record]

/-- A phase that is opened at the top level and closed behind events inside it. -/
theorem endPhase_foldl_record {trace : Trace} (h : trace.openPhases = []) (name : Text)
    (events : List Event) :
    (events.foldl Trace.record (trace.startPhase name [])).endPhase =
      ⟨trace.entries ++ closedPhase trace.entries.length (name, events), []⟩ := by
  rw [foldl_record]
  simp [Trace.startPhase, Trace.endPhase, closedPhase, h]

/-- Bundling addons adds a closed phase for each, in order. -/
theorem exists_phases {addons : List Text} {s s' : Session σ}
    (h : exec (bundleAddons places settings addons) s = (.ok (), s'))
    (hopen : s.trace.openPhases = []) :
    ∃ phases : List (Text × List Event),
      phases.map (·.1) = addons.map ("Addon: ".toList ++ ·) ∧
      (∀ phase ∈ phases, ∀ event ∈ phase.2, event.kind ∈ addonKinds) ∧
      s'.trace = ⟨s.trace.entries ++ phasesFrom s.trace.entries.length phases, []⟩ := by
  induction addons generalizing s with
  | nil =>
      obtain rfl : s = s' := congrArg Prod.snd h
      exact ⟨[], rfl, by simp, by simp [phasesFrom, ← hopen]⟩
  | cons addon rest ih =>
      rw [bundleAddons, exec_bind_of_ok (exec_startPhase _ s)] at h
      obtain ⟨⟨⟩, mid, hphase, hrest⟩ := exec_bind_ok h
      obtain ⟨events, hevents, htrace⟩ := records_bundleAddon_inAddon addon
        { s with trace := s.trace.startPhase ("Addon: ".toList ++ addon) [] }
      have hmid : mid.trace =
          ⟨s.trace.entries ++
            closedPhase s.trace.entries.length ("Addon: ".toList ++ addon, events), []⟩ := by
        rw [← endPhase_foldl_record hopen, ← htrace]
        rw [exec_always] at hphase
        exact congrArg (·.2.trace) hphase.symm
      obtain ⟨phases, hnames, hkinds, hbehind⟩ := ih hrest (by rw [hmid])
      refine ⟨("Addon: ".toList ++ addon, events) :: phases, ?_, ?_, ?_⟩
      · rw [List.map_cons, List.map_cons, hnames]
      · exact List.forall_mem_cons.mpr ⟨hevents, hkinds⟩
      · rw [hbehind, hmid]
        simp [phasesFrom, length_closedPhase, Nat.add_assoc]

/-- A trace that is a closed phase for each addon, in order, and one for the catalogs behind them,
with everything else inside. -/
def IsPhased (addons : List Text) (trace : Trace) : Prop :=
  ∃ (phases : List (Text × List Event)) (catalogs : List Event),
    phases.map (·.1) = addons.map ("Addon: ".toList ++ ·) ∧
    (∀ phase ∈ phases, ∀ event ∈ phase.2, event.kind ∈ addonKinds) ∧
    (∀ event ∈ catalogs, event.kind ∈ catalogKinds) ∧
    trace = ⟨phasesFrom 0 (phases ++ [("Localization".toList, catalogs)]), []⟩

theorem Records.trace_eq {step : Build σ α} (h : Records [] step) {s s' : Session σ}
    {outcome : Except Failure α} (hexec : exec step s = (outcome, s')) : s'.trace = s.trace := by
  obtain ⟨events, hevents, htrace⟩ := h s
  obtain rfl : events = [] := List.eq_nil_iff_forall_not_mem.mpr fun event hevent =>
    absurd (hevents event hevent) List.not_mem_nil
  rwa [hexec] at htrace

theorem records_removeAll (output : View σ) (paths : List Text) :
    Records kinds (removeAll output paths) := by
  induction paths with
  | nil => exact records_pure ()
  | cons path rest ih => exact (records_write _).bind fun _ => ih

/-- What is reported behind the addons ends with the phase of the catalogs. -/
theorem exists_localization {report : Report} {s s' : Session σ}
    (h : exec (finishingSteps places settings) s = (.ok report, s'))
    (hopen : s.trace.openPhases = []) :
    ∃ events : List Event, (∀ event ∈ events, event.kind ∈ catalogKinds) ∧
      report.trace = ⟨s.trace.entries ++
        closedPhase s.trace.entries.length ("Localization".toList, events), []⟩ := by
  rw [finishingSteps, exec_bind_of_ok (exec_get s)] at h
  obtain ⟨⟨⟩, written, hwrite, h⟩ := exec_bind_ok h
  rw [exec_bind_of_ok (exec_startPhase _ written)] at h
  obtain ⟨languages, localized, hcatalogs, h⟩ := exec_bind_ok h
  rw [exec_bind_of_ok (exec_modify _ localized), exec_bind_of_ok (exec_storage _)] at h
  obtain ⟨version, versioned, hversion, h⟩ := exec_bind_ok h
  obtain ⟨⟨⟩, recorded, hrecord, h⟩ := exec_bind_ok h
  rw [exec_bind_of_ok (exec_get recorded)] at h
  obtain ⟨⟨⟩, logged, hlog, h⟩ := exec_bind_ok h
  have hreport : report.trace = recorded.trace := by
    rw [exec_pure] at h
    exact congrArg Report.trace (Except.ok.inj (congrArg Prod.fst h)).symm
  have hwritten := (records_writeFile _ _ _).trace_eq hwrite
  have hrecorded := (records_write _).trace_eq hrecord
  have hversioned := (records_ofExcept _).trace_eq hversion
  obtain ⟨events, hevents, htrace⟩ := records_writeCatalogs settings.addons
    { written with trace := written.trace.startPhase "Localization".toList [] }
  refine ⟨events, hevents, ?_⟩
  rw [hcatalogs] at htrace
  rw [hreport, hrecorded, hversioned, ← endPhase_foldl_record hopen, ← hwritten, ← htrace]
  rfl

/-! ## Whole runs -/

/-- Bundling starts with an empty trace, whether the output has been cleaned or not. -/
theorem exists_bundling {report : Report} {s s' : Session σ}
    (h : exec (runSteps places settings) s = (.ok report, s')) :
    ∃ mid, mid.trace = s.trace ∧ exec (bundlingSteps places settings) mid = (.ok report, s') := by
  rw [runSteps_eq] at h
  split at h
  · obtain ⟨⟨⟩, mid, hremove, h⟩ := exec_bind_ok h
    exact ⟨mid, (records_removeAll _ _).trace_eq hremove, h⟩
  · exact ⟨s, rfl, h⟩

theorem isPhased_run {session after : Session σ} {report : Report}
    (h : run places settings session = (.ok report, after)) :
    IsPhased settings.addons report.trace := by
  obtain ⟨start, hstart, h⟩ := exists_bundling h
  rw [bundlingSteps_eq] at h
  obtain ⟨⟨⟩, logged, hlog, h⟩ := exec_bind_ok h
  obtain ⟨⟨⟩, bundled, hbundle, h⟩ := exec_bind_ok h
  have hlogged : logged.trace = {} := ((records_log _ _).trace_eq hlog).trans hstart
  obtain ⟨phases, hnames, hkinds, hbundled⟩ := exists_phases hbundle (by rw [hlogged])
  obtain ⟨events, hevents, hreport⟩ := exists_localization h (by rw [hbundled])
  refine ⟨phases, events, hnames, hkinds, hevents, ?_⟩
  rw [hreport, hbundled, hlogged, phasesFrom_append]
  simp [phasesFrom]

/-! ## Runs that may fail -/

/-- A step behind which phases nest, whether it fails or not, if they do before it. -/
def Nests (step : Build σ α) : Prop :=
  ∀ s, s.trace.Sound → (exec step s).2.trace.Sound

theorem Nests.bind {step : Build σ α} {next : α → Build σ β} (hstep : Nests step)
    (hnext : ∀ a, Nests (next a)) : Nests (step >>= next) := by
  intro s hs
  have hmid := hstep s hs
  rw [exec_bind]
  cases hexec : exec step s with
  | mk outcome mid =>
      rw [hexec] at hmid
      cases outcome with
      | error failure => exact hmid
      | ok a => exact hnext a mid hmid

theorem Records.nests {step : Build σ α} (h : Records kinds step)
    (hkinds : ∀ kind ∈ kinds, kind ≠ .phaseStart ∧ kind ≠ .phaseEnd) : Nests step := by
  intro s hs
  obtain ⟨events, hevents, htrace⟩ := h s
  rw [htrace]
  exact hs.foldl_record fun event hevent => hkinds _ (hevents event hevent)

/-- A step that records nothing keeps phases nested. -/
theorem Records.nests_nil {step : Build σ α} (h : Records [] step) : Nests step :=
  h.nests (by simp)

theorem nests_startPhase (name : Text) : Nests (Build.startPhase name : Build σ Unit) :=
  fun _ hs => hs.startPhase name []

theorem nests_bundleAddons (addons : List Text) :
    Nests (bundleAddons places settings addons) := by
  induction addons with
  | nil => exact fun _ hs => hs
  | cons addon rest ih =>
      refine (nests_startPhase _).bind fun _ => Nests.bind (fun s hs => ?_) fun _ => ih
      rw [exec_always]
      exact ((records_bundleAddon_inAddon addon).nests (by decide) s hs).endPhase

theorem nests_finishingSteps : Nests (finishingSteps places settings) := by
  refine Nests.bind (fun _ hs => hs) fun s => (records_writeFile _ _ _).nests_nil.bind fun _ =>
    (nests_startPhase _).bind fun _ => ?_
  apply ((records_writeCatalogs settings.addons).nests (by decide)).bind
  intro languages
  refine Nests.bind (fun _ hs => hs.endPhase) fun _ => Records.nests_nil (Records.storage fun storage => ?_)
  apply (records_ofExcept _).bind
  intro version
  apply (records_write _).bind
  intro _
  refine Records.bind (records_of_trace_eq fun _ => rfl) fun s => ?_
  exact (records_log _ _).bind fun _ => records_pure _

theorem sound_run (session : Session σ) : (run places settings session).2.trace.Sound := by
  have hbundling : Nests (bundlingSteps places settings) := by
    rw [bundlingSteps_eq]
    exact (records_log _ _).nests_nil.bind fun _ =>
      (nests_bundleAddons _).bind fun _ => nests_finishingSteps
  have hrun : Nests (runSteps places settings) := by
    rw [runSteps_eq]
    split
    · exact (records_removeAll _ _).nests_nil.bind fun _ => hbundling
    · exact hbundling
  exact hrun (fresh session) Trace.sound_empty

/-! ## Nested traces -/

/-- Whatever is done with a trace, its phases nest, also when more phases are ended than are open,
and the exported events refer to each other as the entries do. The phases of every run nest, and
those of a successful run are one for each addon, in order, and one for the catalogs. -/
theorem traces_nest :
    (∀ calls : List Trace.Call,
      Trace.WellNested (Trace.afterCalls calls).entries ∧
        ∃ events, (Trace.afterCalls calls).toJson = .array events ∧
          Trace.IsExport events (Trace.afterCalls calls).entries) ∧
    ∀ {σ : Type} (places : Places σ) (settings : Settings) (session : Session σ),
      Trace.WellNested (run places settings session).2.trace.entries ∧
        ∀ report after, run places settings session = (.ok report, after) →
          IsPhased settings.addons report.trace :=
  ⟨fun calls => ⟨(Trace.sound_afterCalls calls).attached.wellNested, _, rfl,
      Trace.isExport_exportFrom _⟩,
    fun _ _ session => ⟨(sound_run session).attached.wellNested, fun _ _ => isPhased_run⟩⟩

/-- What is recorded behind a phase that has ended belongs to the one around it, and to none behind
the last; a bundled addon gives two phases. -/
theorem traces_nest_surplus :
    let calls : List Trace.Call := [.endPhase, .startPhase ['a'] [], .startPhase ['b'] [], .endPhase,
      .record (.licenseStamp ['x']) (by decide) (by decide), .endPhase, .endPhase,
      .record (.warning ['y']) (by decide) (by decide)]
    (Trace.afterCalls calls).entries.map (·.parent) =
        [none, some 0, some 1, some 0, some 0, none] ∧
      Trace.WellNested (Trace.afterCalls calls).entries ∧
      ∃ report after, run Places.memory smallSettings { storage := smallTrees } =
          (.ok report, after) ∧ IsPhased smallSettings.addons report.trace := by
  obtain ⟨report, hreport⟩ := exists_run_small
  have hrun : run Places.memory smallSettings { storage := smallTrees } = (.ok report, _) :=
    Prod.ext hreport rfl
  have hphased := (traces_nest.2 Places.memory smallSettings { storage := smallTrees }).2
    report _ hrun
  exact ⟨by decide, (traces_nest.1 _).1, report, _, hrun, hphased⟩

end AddonBundle.Bundle
