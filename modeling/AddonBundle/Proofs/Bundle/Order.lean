import AddonBundle.Proofs.Bundle.Output
import AddonBundle.Proofs.Bundle.Planning
/-!
# The order of the addons

Runs that bundle the same addons in different orders do the same steps in different orders. Each
step has the same outcome, rules and libraries in both, so the runs succeed together, and what they
leave differs in the order of the rules and of the libraries only.
-/

namespace AddonBundle.Bundle

open Build Text

variable {before : Trees} {settings : Settings} {s : Session Trees}

/-! ## Settings that differ in their addons -/

private theorem bundleFiles_addons (settings : Settings) (addons : List Text) (directory : Text)
    (files : List Text) :
    bundleFiles Places.memory { settings with addons } directory files =
      bundleFiles Places.memory settings directory files := by
  induction files with
  | nil => rfl
  | cons file rest ih =>
      rw [bundleFiles, bundleFiles, ih]
      rfl

theorem addonPhase_addons (settings : Settings) (addons : List Text) (addon : Text) :
    addonPhase { settings with addons } addon = addonPhase settings addon := by
  have hfiles := bundleFiles_addons settings addons
  simp only [addonPhase, bundleAddon, hfiles]

/-! ## When a run succeeds -/

theorem libraries_writeCatalog (language addon : Text) (s : Session Trees) :
    (exec (writeCatalog Places.memory language addon) s).2.libraries = s.libraries := by
  have hread : ∀ {α : Type} (outcome : Except Failure α) (s : Session Trees),
      (exec (Build.ofExcept outcome) s).2.libraries = s.libraries := by
    intro α outcome s
    rw [exec_ofExcept]
  apply exec_bind_keeps (f := Session.libraries) (fun _ => rfl)
  intro storage
  apply exec_bind_keeps (f := Session.libraries) (hread _)
  intro present
  split
  · apply exec_bind_keeps (f := Session.libraries) (hread _)
    intro catalog
    apply exec_bind_keeps (f := Session.libraries) (fun _ => rfl)
    intro _
    apply exec_bind_keeps (f := Session.libraries)
    · intro s
      rw [exec_write]
    · exact fun _ _ => rfl
  · exact fun _ => rfl

/-- Writing the catalogs copies no libraries. -/
theorem libraries_writeCatalogs (addons : List Text) (s : Session Trees) :
    (exec (writeCatalogs Places.memory addons) s).2.libraries = s.libraries := by
  have hinOrder : ∀ steps : List (Build Trees Unit),
      (∀ step ∈ steps, ∀ s, (exec step s).2.libraries = s.libraries) →
      ∀ s, (exec (inOrder steps) s).2.libraries = s.libraries := by
    intro steps h
    induction steps with
    | nil => exact fun _ => rfl
    | cons step rest ih =>
        apply exec_bind_keeps (f := Session.libraries) (h step List.mem_cons_self)
        exact fun _ => ih fun other hother => h other (List.mem_cons_of_mem _ hother)
  apply exec_bind_keeps (f := Session.libraries) (fun _ => rfl)
  intro storage
  apply exec_bind_keeps (f := Session.libraries)
  · intro s
    rw [exec_ofExcept]
  · intro found
    apply exec_bind_keeps (f := Session.libraries) ?_ fun _ _ => rfl
    rw [writeLanguages_eq]
    apply hinOrder
    intro step hstep
    obtain ⟨language, -, rfl⟩ := List.mem_map.mp hstep
    apply exec_bind_keeps (f := Session.libraries) (fun _ => rfl)
    intro _
    rw [writeLanguage_eq]
    apply hinOrder
    intro step hstep
    obtain ⟨addon, -, rfl⟩ := List.mem_map.mp hstep
    exact libraries_writeCatalog language addon

theorem exec_languagePhase_ok_iff {addons : List Text} {language : Text}
    (hlanguage : Path.IsSegment language) (haddons : ∀ addon ∈ addons, Path.IsSegment addon) :
    (exec (languagePhase addons language) (blank before)).1 = .ok () ↔
      ∀ addon ∈ addons,
        (exec (writeCatalog Places.memory language addon) (blank before)).1 = .ok () := by
  have hopened : Settled before { blank before with
      catalogs := Assoc.putNew language [] (blank before).catalogs } :=
    ⟨rfl, rfl, (settled_blank before).libraries⟩
  have hplan : ∀ step ∈ addons.map (writeCatalog Places.memory language),
      HasPlan before { addons } Set.univ step := by
    intro step hstep
    obtain ⟨addon, haddon, rfl⟩ := List.mem_map.mp hstep
    exact hasPlan_writeCatalog (Set.mem_univ addon)
      (isKey_catalogPath hlanguage (haddons addon haddon))
  rw [languagePhase, exec_bind, exec_modify, writeLanguage_eq]
  refine (exec_inOrder_ok_iff hplan hopened).trans ?_
  simp

/-- Writing the catalogs succeeds when each of them can be written. -/
theorem exec_writeCatalogs_ok_iff (hnormal : before.source.Normal) {addons : List Text}
    (haddons : ∀ addon ∈ addons, Path.IsSegment addon) (hs : Settled before s)
    {languages : List Text} :
    (exec (writeCatalogs Places.memory addons) s).1 = .ok languages ↔
      treeLanguages before.source = languages ∧
      ∀ language ∈ treeLanguages before.source, ∀ addon ∈ addons,
        (exec (writeCatalog Places.memory language addon) (blank before)).1 = .ok () := by
  have hsegments : ∀ language ∈ treeLanguages before.source, Path.IsSegment language :=
    fun _ hlanguage => ((mem_treeLanguages hnormal).mp hlanguage).1
  have hplan : ∀ step ∈ (treeLanguages before.source).map (languagePhase addons),
      HasPlan before { addons } Set.univ step := by
    intro step hstep
    obtain ⟨language, hlanguage, rfl⟩ := List.mem_map.mp hstep
    exact hasPlan_languagePhase (hsegments language hlanguage) haddons
  have heach : (exec (writeLanguages Places.memory addons (treeLanguages before.source)) s).1 =
      .ok () ↔ ∀ language ∈ treeLanguages before.source, ∀ addon ∈ addons,
        (exec (writeCatalog Places.memory language addon) (blank before)).1 = .ok () := by
    rw [writeLanguages_eq, exec_inOrder_ok_iff hplan hs, List.forall_mem_map]
    exact forall₂_congr fun language hlanguage =>
      exec_languagePhase_ok_iff (hsegments language hlanguage) haddons
  rw [← heach]
  simp only [writeCatalogs, exec_bind, exec_storage, exec_ofExcept, languages_memory, hs.source_eq]
  split
  · rename_i hexec
    simp [hexec]
  · rename_i failure s' hexec
    simp [hexec]

/-- The closing message of a run, by the numbers in it. -/
def closingText (addons libraries rules : Nat) (languages : List Text) (version : CodeText) :
    Text :=
  "Ported ".toList ++ Text.ofNat addons ++ " addons, ".toList ++
    Text.ofNat libraries ++ " libraries, ".toList ++
    Text.ofNat rules ++ " fixed rules, ".toList ++
    Text.ofNat languages.length ++ " languages (upstream ".toList ++
    CodePoint.toText version ++ [')']

/-- What it takes for bundling to succeed from a settled session, with a version. -/
structure CanBundle (before : Trees) (settings : Settings) (s : Session Trees)
    (name : CodeText) : Prop where
  addons : ∀ addon ∈ settings.addons, (exec (addonPhase settings addon) (blank before)).1 = .ok ()
  catalogs : ∀ language ∈ treeLanguages before.source, ∀ addon ∈ settings.addons,
    (exec (writeCatalog Places.memory language addon) (blank before)).1 = .ok ()
  version : readVersion Places.memory.source before = .ok name
  record : ∃ bytes,
    Utf8.encodeCode (versionRecord name (treeLanguages before.source)) = .ok bytes
  closing : Log.Entry.fault? ⟨.success, closingText settings.addons.length
    (bundled settings s).libraries.length (bundled settings s).sheet.rules.length
    (treeLanguages before.source) name⟩ = none

theorem exec_bundleAddons_ok_iff (hnormal : before.source.Normal)
    (hsegments : ∀ addon ∈ settings.addons, Path.IsSegment addon) (hs : Settled before s) :
    (exec (bundleAddons Places.memory settings settings.addons) (announced settings s)).1 =
      .ok () ↔
    ∀ addon ∈ settings.addons, (exec (addonPhase settings addon) (blank before)).1 = .ok () := by
  rw [bundleAddons_eq, exec_inOrder_ok_iff (hasPlan_addonPhases settings hnormal hsegments)
    (settled_announced settings hs), List.forall_mem_map]

/-- The closing message of a run, as the addons leave the session. -/
theorem closing_bundled (settings : Settings) (s : Session Trees) (languages : List Text)
    (version : CodeText) :
    closing settings (reportOf (bundled settings s) languages version) =
      ⟨.success, closingText settings.addons.length (bundled settings s).libraries.length
        (bundled settings s).sheet.rules.length languages version⟩ := rfl

section Bundling

variable (hnormal : before.source.Normal)
  (hsegments : ∀ addon ∈ settings.addons, Path.IsSegment addon) (hs : Settled before s)

include hnormal hsegments hs

theorem readVersion_translated :
    readVersion Places.memory.source (translated settings s).storage =
      readVersion Places.memory.source before :=
  readVersion_congr ((hasPlan_writeCatalogs settings hnormal hsegments).settled
    (settled_sheeted hnormal hsegments hs)).source_eq

/-- Bundling succeeds from a settled session exactly when it can. -/
theorem succeeds_iff_canBundle {version : CodeText} :
    (∃ languages bytes, Succeeds settings s languages version bytes) ↔
      CanBundle before settings s version := by
  have haddons := exec_bundleAddons_ok_iff hnormal hsegments hs
  have hcatalogs := @exec_writeCatalogs_ok_iff _ _ hnormal _ hsegments
    (settled_sheeted hnormal hsegments hs)
  have hversion := readVersion_translated hnormal hsegments hs
  have hclosing : ∀ languages, Log.Entry.fault? ⟨.success, closingText settings.addons.length
      (bundled settings s).libraries.length (bundled settings s).sheet.rules.length languages
        version⟩ = none ↔ markupFault? (CodePoint.toText version) = none := by
    intro languages
    rw [← closing_bundled, fault?_closing_eq_none_iff]
    rfl
  constructor
  · rintro ⟨languages, bytes, h⟩
    obtain ⟨rfl, hwritten⟩ := hcatalogs.mp h.catalogs
    exact ⟨haddons.mp h.addons, hwritten, hversion ▸ h.version_eq, ⟨bytes, h.record⟩,
      (hclosing _).mpr h.shown⟩
  · intro h
    obtain ⟨bytes, hbytes⟩ := h.record
    exact ⟨_, bytes, haddons.mpr h.addons, hcatalogs.mpr ⟨rfl, h.catalogs⟩,
      hversion.trans h.version, hbytes, (hclosing _).mp h.closing⟩

theorem canBundle_of_exec {report : Report} {s' : Session Trees}
    (h : exec (bundlingSteps Places.memory settings) s = (.ok report, s')) :
    CanBundle before settings s report.version ∧
      report.libraries = (bundled settings s).libraries ∧
      report.sheet = (bundled settings s).sheet := by
  obtain ⟨languages, version, bytes, hstages, rfl, -⟩ := exec_bundlingSteps_ok_iff.mp h
  refine ⟨(succeeds_iff_canBundle hnormal hsegments hs).mp ⟨languages, bytes, hstages⟩, ?_, ?_⟩
  · exact libraries_writeCatalogs settings.addons (sheeted settings s)
  · exact keepsSheet_writeCatalogs settings.addons (sheeted settings s)

theorem exists_exec_of_canBundle {version : CodeText}
    (h : CanBundle before settings s version) :
    ∃ report, (exec (bundlingSteps Places.memory settings) s).1 = .ok report := by
  obtain ⟨languages, bytes, hstages⟩ := (succeeds_iff_canBundle hnormal hsegments hs).mpr h
  have hexec := exec_bundlingSteps_ok_iff.mpr ⟨languages, version, bytes, hstages, rfl, rfl⟩
  exact ⟨_, congrArg Prod.fst hexec⟩

end Bundling

/-! ## Runs in different orders -/

/-- The rules of an addon: what it adds to the generated stylesheet when nothing else has been
bundled. -/
def chunk (before : Trees) (settings : Settings) (addon : Text) : Text :=
  (rulesOf before (addonPhase settings addon)).flatten

theorem bundled_of_ok (settings : Settings) (hnormal : before.source.Normal)
    (hsegments : ∀ addon ∈ settings.addons, Path.IsSegment addon) (hs : Settled before s)
    (h : ∀ addon ∈ settings.addons, (exec (addonPhase settings addon) (blank before)).1 = .ok ()) :
    (bundled settings s).sheet.rules = s.sheet.rules ++
        settings.addons.flatMap (fun addon => rulesOf before (addonPhase settings addon)) ∧
      ∀ file, file ∈ (bundled settings s).libraries ↔
        file ∈ s.libraries ∨
          ∃ addon ∈ settings.addons, file ∈ librariesOf before (addonPhase settings addon) := by
  have hok := (exec_bundleAddons_ok_iff hnormal hsegments hs).mpr h
  have hleft := exec_inOrder_of_ok (hasPlan_addonPhases settings hnormal hsegments)
    (settled_announced settings hs)
  rw [← bundleAddons_eq] at hleft
  obtain ⟨hrules, hlibraries⟩ := hleft hok
  refine ⟨?_, fun file => ?_⟩
  · rw [bundled, hrules, List.flatMap_map]
    rfl
  · rw [bundled, hlibraries]
    simp [announced]

theorem nodup_bundled (settings : Settings) (hnormal : before.source.Normal)
    (hsegments : ∀ addon ∈ settings.addons, Path.IsSegment addon) (hs : Settled before s)
    (hnodup : s.libraries.Nodup) : (bundled settings s).libraries.Nodup := by
  exact (hasPlan_bundleAddons settings hnormal hsegments).nodup_libraries
    (settled_announced settings hs) hnodup

section Perm

variable (settings) {others : List Text} (hnormal : before.source.Normal)
  (hsegments : ∀ addon ∈ settings.addons, Path.IsSegment addon)
  (hperm : settings.addons.Perm others)

include hnormal hsegments hperm

theorem bundled_perm (hs : Settled before s) (hnodup : s.libraries.Nodup)
    (h : ∀ addon ∈ settings.addons, (exec (addonPhase settings addon) (blank before)).1 = .ok ()) :
    (bundled { settings with addons := others } s).libraries.Perm (bundled settings s).libraries ∧
      (bundled { settings with addons := others } s).sheet.rules.length =
        (bundled settings s).sheet.rules.length := by
  have hsegments' : ∀ addon ∈ others, Path.IsSegment addon :=
    fun addon haddon => hsegments addon (hperm.mem_iff.mpr haddon)
  obtain ⟨hrules, hlibraries⟩ := bundled_of_ok settings hnormal hsegments hs h
  have h' : ∀ addon ∈ others, (exec (addonPhase { settings with addons := others } addon)
      (blank before)).1 = .ok () := by
    intro addon haddon
    rw [addonPhase_addons]
    exact h addon (hperm.mem_iff.mpr haddon)
  obtain ⟨hrules', hlibraries'⟩ := bundled_of_ok { settings with addons := others } hnormal
    hsegments' hs h'
  simp only [addonPhase_addons] at hrules' hlibraries'
  constructor
  · rw [List.perm_ext_iff_of_nodup (nodup_bundled _ hnormal hsegments' hs hnodup)
      (nodup_bundled _ hnormal hsegments hs hnodup)]
    intro file
    rw [hlibraries, hlibraries']
    simp only [hperm.mem_iff]
  · rw [hrules, hrules', List.length_append, List.length_append]
    rw [(hperm.flatMap_right _).length_eq]

theorem canBundle_perm (hs : Settled before s) (hnodup : s.libraries.Nodup) {version : CodeText}
    (h : CanBundle before settings s version) :
    CanBundle before { settings with addons := others } s version := by
  obtain ⟨hlibraries, hrules⟩ := bundled_perm settings hnormal hsegments hperm hs hnodup h.addons
  refine ⟨?_, ?_, h.version, h.record, ?_⟩
  · intro addon haddon
    rw [addonPhase_addons]
    exact h.addons addon (hperm.mem_iff.mpr haddon)
  · intro language hlanguage addon haddon
    exact h.catalogs language hlanguage addon (hperm.mem_iff.mpr haddon)
  · have hclosing := h.closing
    rwa [← hlibraries.length_eq, ← hrules, hperm.length_eq] at hclosing

end Perm

/-- What is left by runs in different orders. -/
structure SameButOrder (before : Trees) (settings : Settings) (others : List Text)
    (report report' : Report) (after after' : Trees) : Prop where
  output : ∀ key ≠ sheetFile, after'.output.get? key = after.output.get? key
  version : report'.version = report.version
  languages : report'.languages = report.languages
  libraries : report'.libraries.Perm report.libraries
  sheet : report.sheet.text =
    FixedSheet.banner ++ settings.addons.flatMap (chunk before settings)
  sheet' : report'.sheet.text = FixedSheet.banner ++ others.flatMap (chunk before settings)
  sheetFile : after.output.get? sheetFile = some (Utf8.encode report.sheet.text)
  sheetFile' : after'.output.get? Bundle.sheetFile = some (Utf8.encode report'.sheet.text)

/-- Runs that make the same files leave the same, apart from the generated stylesheet. -/
theorem IsComplete.get?_eq {settings' : Settings} {report report' : Report} {s s' : Session Trees}
    (h : IsComplete settings before report s) (h' : IsComplete settings' before report' s')
    (hmem : ∀ addon, addon ∈ settings.addons ↔ addon ∈ settings'.addons)
    (hdue : due before.source settings' = due before.source settings) {key : Text}
    (hkey : key ≠ sheetFile) : s'.storage.output.get? key = s.storage.output.get? key := by
  by_cases hmade : key ∈ bundleFilesOf before.source settings.addons ∪
      catalogFiles before.source (treeLanguages before.source) settings.addons
  · have hmade' := hmade
    simp only [bundleFilesOf, catalogFiles, hmem] at hmade'
    obtain ⟨bytes, hbytes, hget⟩ := h.made key hmade
    obtain ⟨bytes', hbytes', hget'⟩ := h'.made key hmade'
    rw [hdue, hbytes] at hbytes'
    rw [hget, hget', hbytes']
  · have hmade' := hmade
    simp only [bundleFilesOf, catalogFiles, hmem] at hmade'
    by_cases hrecord : key = recordFile
    · obtain ⟨bytes, hbytes, hget⟩ := h.record
      obtain ⟨bytes', hbytes', hget'⟩ := h'.record
      have hversion : report'.version = report.version :=
        Except.ok.inj (h'.version_eq.symm.trans h.version_eq)
      rw [hversion, h'.languages_eq, ← h.languages_eq, hbytes] at hbytes'
      cases hbytes'
      rw [hrecord, hget, hget']
    · rw [h.unmade key hmade hkey hrecord, h'.unmade key hmade' hkey hrecord]

private theorem text_of_rules {sheet : FixedSheet} {addons : List Text}
    (h : sheet.rules = addons.flatMap fun addon => rulesOf before (addonPhase settings addon)) :
    sheet.text = FixedSheet.banner ++ addons.flatMap (chunk before settings) := by
  rw [FixedSheet.text, h]
  clear h
  congr 1
  induction addons with
  | nil => rfl
  | cons addon rest ih => rw [List.flatMap_cons, List.flatten_append, ih, List.flatMap_cons, chunk]

/-- The order of the addons has no effect on whether a run succeeds, and when it does, only on the
order of the rules and of the copied libraries. -/
theorem run_perm {others : List Text} (hnormal : before.source.Normal)
    (hsegments : ∀ addon ∈ settings.addons, Path.IsSegment addon)
    (hperm : settings.addons.Perm others) :
    ((∃ report, (run Places.memory settings { storage := before }).1 = .ok report) ↔
      ∃ report, (run Places.memory { settings with addons := others }
        { storage := before }).1 = .ok report) ∧
    ∀ report report' s s',
      run Places.memory settings { storage := before } = (.ok report, s) →
      run Places.memory { settings with addons := others } { storage := before } =
        (.ok report', s') →
      SameButOrder before settings others report report' s.storage s'.storage := by
  let s₀ := cleanedSession settings (fresh { storage := before })
  have hs₀ : Settled before s₀ := ⟨rfl, rfl, fun _ h => by cases h⟩
  have hsegments' : ∀ addon ∈ others, Path.IsSegment addon :=
    fun addon haddon => hsegments addon (hperm.mem_iff.mpr haddon)
  have hrun : run Places.memory settings { storage := before } =
      exec (bundlingSteps Places.memory settings) s₀ := exec_runSteps settings _
  have hrun' : run Places.memory { settings with addons := others } { storage := before } =
      exec (bundlingSteps Places.memory { settings with addons := others }) s₀ :=
    exec_runSteps { settings with addons := others } _
  rw [hrun, hrun']
  refine ⟨⟨?_, ?_⟩, ?_⟩
  · rintro ⟨report, hreport⟩
    obtain ⟨hcan, -⟩ := canBundle_of_exec hnormal hsegments hs₀ (Prod.ext hreport rfl)
    exact exists_exec_of_canBundle hnormal hsegments' hs₀
      (canBundle_perm settings hnormal hsegments hperm hs₀ List.nodup_nil hcan)
  · rintro ⟨report, hreport⟩
    obtain ⟨hcan, -⟩ := canBundle_of_exec hnormal hsegments' hs₀ (Prod.ext hreport rfl)
    exact exists_exec_of_canBundle hnormal hsegments hs₀
      (canBundle_perm { settings with addons := others } hnormal hsegments' hperm.symm hs₀
        List.nodup_nil hcan)
  · intro report report' s s' h h'
    obtain ⟨hcan, hlibraries, hsheet⟩ := canBundle_of_exec hnormal hsegments hs₀ h
    obtain ⟨hcan', hlibraries', hsheet'⟩ := canBundle_of_exec hnormal hsegments' hs₀ h'
    have hperm' := (bundled_perm settings hnormal hsegments hperm hs₀ List.nodup_nil
      hcan.addons).1
    have hrules := (bundled_of_ok settings hnormal hsegments hs₀ hcan.addons).1
    have hrules' := (bundled_of_ok { settings with addons := others } hnormal hsegments' hs₀
      hcan'.addons).1
    have hcomplete := isComplete_of_run hnormal hsegments (hrun.trans h)
    have hcomplete' := isComplete_of_run hnormal hsegments' (hrun'.trans h')
    constructor
    case output =>
      intro key hkey
      exact hcomplete.get?_eq hcomplete' (fun addon => hperm.mem_iff) rfl hkey
    case version => exact Except.ok.inj (hcan'.version.symm.trans hcan.version)
    case languages => exact hcomplete'.languages_eq.trans hcomplete.languages_eq.symm
    case libraries =>
      rw [hlibraries, hlibraries']
      exact hperm'
    case sheet =>
      rw [hsheet]
      exact text_of_rules hrules
    case sheet' =>
      simp only [addonPhase_addons] at hrules'
      rw [hsheet']
      exact text_of_rules hrules'
    case sheetFile => exact hcomplete.sheet
    case sheetFile' => exact hcomplete'.sheet

/-- Two addons: the script of each loads a library and has a marker. -/
def pairTrees : Trees where
  source := .ofFiles
    [("addons/a/x.js".toList,
        Utf8.encode "load(addon.self.lib + \"/l.js\") // FIXCLASS: s_c_h".toList),
      ("addons/b/x.js".toList,
        Utf8.encode "load(addon.self.lib + \"/m.js\") // FIXCLASS: s_d_h".toList),
      ("libraries/l.js".toList, []), ("libraries/m.js".toList, []),
      ("manifest.json".toList, Utf8.encode "\x7b\"version_name\": \"1\"\x7d".toList)]
  host := .ofFiles
    [("components/s/s.css".toList, Utf8.encode ".c \x7b\x7d .d \x7b\x7d".toList)]

def pairSettings : Settings where
  addons := [['a'], ['b']]

theorem run_perm_pair : ∃ report report' s s',
    run Places.memory pairSettings { storage := pairTrees } = (.ok report, s) ∧
    run Places.memory { pairSettings with addons := [['b'], ['a']] } { storage := pairTrees } =
      (.ok report', s') ∧
    SameButOrder pairTrees pairSettings [['b'], ['a']] report report' s.storage s'.storage := by
  obtain ⟨htogether, hsame⟩ := @run_perm pairTrees pairSettings [['b'], ['a']]
    (Tree.normal_ofFiles _) (by decide) (.swap _ _ _)
  have hok : (run Places.memory pairSettings { storage := pairTrees }).1.toOption.isSome =
      true := by
    decide +kernel
  have hreport : ∃ report, (run Places.memory pairSettings { storage := pairTrees }).1 =
      .ok report := by
    cases hrun : (run Places.memory pairSettings { storage := pairTrees }).1 with
    | ok report => exact ⟨report, rfl⟩
    | error failure =>
        rw [hrun] at hok
        cases hok
  obtain ⟨report', hreport'⟩ := htogether.mp hreport
  obtain ⟨report, hreport⟩ := hreport
  exact ⟨report, report', _, _, Prod.ext hreport rfl, Prod.ext hreport' rfl,
    hsame report report' _ _ (Prod.ext hreport rfl) (Prod.ext hreport' rfl)⟩

end AddonBundle.Bundle
