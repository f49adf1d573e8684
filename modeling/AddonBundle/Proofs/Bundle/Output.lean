import AddonBundle.Proofs.Bundle.Stages
/-!
# What a clean run leaves in the output

After a clean run that succeeds, the output holds the files of the addons, the libraries that
their scripts refer to, their catalogs, the generated stylesheet and the version record, each with
contents read off the collection, and nothing else has changed.
-/

namespace AddonBundle.Bundle

open Build Text

/-- What a clean run leaves in the trees, file by file. -/
structure IsBundle (settings : Settings) (before : Trees) (report : Report) (after : Trees) :
    Prop where
  source_eq : after.source = before.source
  host_eq : after.host = before.host
  /-- The files of the addons, and no others. -/
  mem_addons : ∀ key, Tree.isAtOrBelow addonsDir key = true →
    (key ∈ after.output.keys ↔
      ∃ addon ∈ settings.addons, ∃ file, key = addonFile addon file ∧ key ∈ before.source.keys)
  other : ∀ addon ∈ settings.addons, ∀ file, addonFile addon file ∈ before.source.keys →
    FileKind.ofPath (addonFile addon file) = .other →
    after.output.get? (addonFile addon file) = before.source.get? (addonFile addon file)
  stylesheet : ∀ addon ∈ settings.addons, ∀ file, addonFile addon file ∈ before.source.keys →
    FileKind.ofPath (addonFile addon file) = .stylesheet →
    ∃ text, textAt before.source (addonFile addon file) = some text ∧
      after.output.get? (addonFile addon file) =
        some (Utf8.encode (License.stamp settings.header text))
  script : ∀ addon ∈ settings.addons, ∀ file, addonFile addon file ∈ before.source.keys →
    FileKind.ofPath (addonFile addon file) = .script →
    ∃ text, textAt before.source (addonFile addon file) = some text ∧
      after.output.get? (addonFile addon file) =
        some (Utf8.encode (License.stamp settings.header
          (linkedText before.source settings.extensions (addonFile addon file) text)))
  /-- The libraries that the scripts refer to, and no others. -/
  mem_libraries : ∀ key, Tree.isAtOrBelow Script.librariesDir key = true →
    (key ∈ after.output.keys ↔
      ∃ addon ∈ settings.addons, ∃ file text,
        scriptAt before.source (addonFile addon file) = some text ∧
        ∃ reference ∈ Script.libraryReferences text, key = libraryPath reference.file)
  library : ∀ key, Tree.isAtOrBelow Script.librariesDir key = true → key ∈ after.output.keys →
    after.output.get? key = before.source.get? key
  /-- The catalogs of the addons in each language, and no others. -/
  mem_catalogs : ∀ key, Tree.isAtOrBelow catalogsDir key = true →
    (key ∈ after.output.keys ↔
      ∃ language ∈ report.languages, ∃ addon ∈ settings.addons,
        key = catalogPath language addon ∧ key ∈ before.source.keys)
  catalog : ∀ language ∈ report.languages, ∀ addon ∈ settings.addons,
    catalogPath language addon ∈ before.source.keys →
    ∃ value bytes, catalogAt before.source (catalogPath language addon) = some value ∧
      Utf8.encodeCode (Json.minimal value) = .ok bytes ∧
      after.output.get? (catalogPath language addon) = some bytes
  mem_languages : ∀ language, language ∈ report.languages ↔ Path.IsSegment language ∧
    ∃ file, catalogsDir ++ '/' :: language ++ '/' :: file ∈ before.source.keys
  pairwise_languages : report.languages.Pairwise (· < ·)
  sheet : after.output.get? sheetFile = some (Utf8.encode report.sheet.text)
  version : readVersion Places.memory.source before = .ok report.version
  record : ∃ bytes, Utf8.encodeCode (versionRecord report.version report.languages) = .ok bytes ∧
    after.output.get? recordFile = some bytes
  unchanged : ∀ key, isStale key = false → key ≠ sheetFile → key ≠ recordFile →
    after.output.get? key = before.output.get? key

variable {settings : Settings} {before : Trees} {report : Report} {s' : Session Trees}

/-- What is in a stale directory is left alone behind the addons, unless it is made there. -/
theorem get?_finished_of_stale {s : Session Trees} {bytes : Bytes} {key : Text}
    (h : isStale key = true) :
    (finished settings s bytes).storage.output.get? key =
      (translated settings s).storage.output.get? key := by
  have hne : key ≠ recordFile := by
    rintro rfl
    rw [isStale_recordFile] at h
    cases h
  rw [get?_finished, if_neg hne]

/-- A run that succeeds completes, from a session that remembers no library that is not there. -/
theorem isComplete_of_exec {s : Session Trees} (hnormal : before.source.Normal)
    (hsegments : ∀ addon ∈ settings.addons, Path.IsSegment addon) (hs : s.storage = before)
    (hsteady : IsSteady before.source (due before.source settings) s)
    (h : exec (bundlingSteps Places.memory settings) s = (.ok report, s')) :
    IsComplete settings before report s' := by
  obtain ⟨languages, version, bytes, hstages, rfl, rfl⟩ := exec_bundlingSteps_ok_iff.mp h
  have hbundled := made_bundled hnormal hsegments hsteady
  have hsheeted := isSteady_sheeted hnormal hsegments hsteady
  have htranslated := made_translated hnormal hsegments hsteady
  have hsheet : (translated settings s).sheet = (bundled settings s).sheet :=
    keepsSheet_writeCatalogs settings.addons (sheeted settings s)
  constructor
  case source_eq => exact htranslated.steady.source_eq
  case host_eq =>
    calc (translated settings s).storage.host
      _ = (bundled settings s).storage.host := htranslated.trees.host_eq
      _ = s.storage.host := hbundled.trees.host_eq
      _ = before.host := congrArg Trees.host hs
  case languages_eq =>
    rw [← hsheeted.source_eq]
    exact exec_writeCatalogs_ok hstages.catalogs
  case version_eq =>
    rw [← readVersion_congr htranslated.steady.source_eq]
    exact hstages.version_eq
  case sheet_eq => rfl
  case sheet =>
    have hnot : sheetFile ∉ catalogFiles before.source (treeLanguages before.source)
        settings.addons := by
      intro hmem
      have hstale := isStale_of_mem_catalogFiles hmem
      rw [isStale_sheetFile] at hstale
      cases hstale
    have hne : sheetFile ≠ recordFile := by decide
    change _ = some (Utf8.encode (translated settings s).sheet.text)
    rw [get?_finished, if_neg hne, htranslated.trees.get?_eq hnot, get?_sheeted, if_pos rfl, hsheet]
  case record => exact ⟨bytes, hstages.record, (get?_finished _ _ _ _).trans (if_pos rfl)⟩
  case made =>
    rintro key (hkey | hkey)
    · obtain ⟨contents, hdue, hget⟩ := hbundled.complete () hstages.addons key hkey
      have hstale := isStale_of_mem_bundleFilesOf hkey
      have hheld : (sheeted settings s).storage.output.Holds (due before.source settings) key :=
        ⟨contents, hdue, (get?_writeBytes_of_stale (by decide) hstale).trans hget⟩
      obtain ⟨contents, hdue, hget⟩ := htranslated.trees.holds hheld
      exact ⟨contents, hdue, (get?_finished_of_stale hstale).trans hget⟩
    · obtain ⟨contents, hdue, hget⟩ := htranslated.complete languages hstages.catalogs key hkey
      have hstale := isStale_of_mem_catalogFiles hkey
      exact ⟨contents, hdue, (get?_finished_of_stale hstale).trans hget⟩
  case unmade =>
    intro key hkey hnotSheet hnotRecord
    rw [Set.mem_union, not_or] at hkey
    calc (finished settings s bytes).storage.output.get? key
      _ = (translated settings s).storage.output.get? key := by
        rw [get?_finished, if_neg hnotRecord]
      _ = (sheeted settings s).storage.output.get? key := htranslated.trees.get?_eq hkey.2
      _ = (bundled settings s).storage.output.get? key := by rw [get?_sheeted, if_neg hnotSheet]
      _ = s.storage.output.get? key := hbundled.trees.get?_eq hkey.1
      _ = before.output.get? key := by rw [hs]

/-- A successful run of a new session completes, from the cleaned trees on. -/
theorem isComplete_of_run (hnormal : before.source.Normal)
    (hsegments : ∀ addon ∈ settings.addons, Path.IsSegment addon)
    (h : run Places.memory settings { storage := before } = (.ok report, s')) :
    IsComplete settings { before with output := cleaned settings before.output } report s' := by
  rw [run, exec_runSteps] at h
  refine isComplete_of_exec (s := cleanedSession settings (fresh { storage := before })) hnormal
    hsegments rfl ⟨rfl, ?_⟩ h
  intro file hfile
  cases hfile

/-- In the stale directories, a clean run leaves what it makes. -/
theorem mem_keys_of_complete
    (hcomplete : IsComplete settings { before with output := cleaned settings before.output }
      report s') (hclean : settings.clean = true) {key : Text} (hstale : isStale key = true) :
    key ∈ s'.storage.output.keys ↔ key ∈ bundleFilesOf before.source settings.addons ∪
      catalogFiles before.source (treeLanguages before.source) settings.addons := by
  constructor
  · intro hmem
    by_contra hnot
    have hne : ∀ file, isStale file = false → key ≠ file := by
      rintro file hfile rfl
      rw [hfile] at hstale
      cases hstale
    have hget := hcomplete.unmade key hnot (hne _ isStale_sheetFile) (hne _ isStale_recordFile)
    rw [get?_cleaned, hclean, hstale] at hget
    obtain ⟨bytes, hbytes⟩ := Tree.exists_get?_of_mem hmem
    rw [hget] at hbytes
    cases hbytes
  · intro hmade
    obtain ⟨bytes, -, hget⟩ := hcomplete.made key hmade
    exact Tree.mem_keys_of_get? hget

theorem mem_bundleFilesOf_file {addons : List Text} {addon file : Text} {source : Tree}
    (haddon : addon ∈ addons) (hfile : addonFile addon file ∈ source.keys) :
    addonFile addon file ∈ bundleFilesOf source addons :=
  ⟨addon, haddon, file, hfile, .inr rfl⟩

theorem mem_keys_of_scriptAt {tree : Tree} {path text : Text} (h : scriptAt tree path = some text) :
    path ∈ tree.keys := by
  unfold scriptAt at h
  split at h
  · obtain ⟨bytes, hbytes, -⟩ := Option.bind_eq_some_iff.mp h
    exact Tree.mem_keys_of_get? hbytes
  · cases h

theorem get?_addonFile
    (hcomplete : IsComplete settings { before with output := cleaned settings before.output }
      report s') {addon file : Text} (haddon : addon ∈ settings.addons)
    (hfile : addonFile addon file ∈ before.source.keys) :
    ∃ bytes, bundledBytes before.source settings (addonFile addon file) = some bytes ∧
      s'.storage.output.get? (addonFile addon file) = some bytes := by
  obtain ⟨bytes, hdue, hget⟩ := hcomplete.made _ (.inl (mem_bundleFilesOf_file haddon hfile))
  rw [due_addonFile] at hdue
  exact ⟨bytes, hdue, hget⟩

/-- The files below a directory that bundling and the catalogs make. -/
theorem mem_made_addons {source : Tree} {languages addons : List Text} {key : Text}
    (hkey : Tree.isAtOrBelow addonsDir key = true) :
    key ∈ bundleFilesOf source addons ∪ catalogFiles source languages addons ↔
      ∃ addon ∈ addons, ∃ file, key = addonFile addon file ∧ key ∈ source.keys := by
  constructor
  · rintro (⟨addon, haddon, file, hfile, ⟨text, -, reference, -, rfl⟩ | rfl⟩ |
      ⟨language, -, addon, -, rfl, -⟩)
    · cases hkey
    · exact ⟨addon, haddon, file, rfl, hfile⟩
    · cases hkey
  · rintro ⟨addon, haddon, file, rfl, hfile⟩
    exact .inl (mem_bundleFilesOf_file haddon hfile)

theorem mem_made_libraries {source : Tree} {languages addons : List Text} {key : Text}
    (hkey : Tree.isAtOrBelow Script.librariesDir key = true) :
    key ∈ bundleFilesOf source addons ∪ catalogFiles source languages addons ↔
      ∃ addon ∈ addons, ∃ file text, scriptAt source (addonFile addon file) = some text ∧
        ∃ reference ∈ Script.libraryReferences text, key = libraryPath reference.file := by
  constructor
  · rintro (⟨addon, haddon, file, -, ⟨text, htext, reference, hreference, rfl⟩ | rfl⟩ |
      ⟨language, -, addon, -, rfl, -⟩)
    · exact ⟨addon, haddon, file, text, htext, reference, hreference, rfl⟩
    · cases hkey
    · cases hkey
  · rintro ⟨addon, haddon, file, text, htext, reference, hreference, rfl⟩
    exact .inl ⟨addon, haddon, file, mem_keys_of_scriptAt htext,
      .inl ⟨text, htext, reference, hreference, rfl⟩⟩

theorem mem_made_catalogs {source : Tree} {languages addons : List Text} {key : Text}
    (hkey : Tree.isAtOrBelow catalogsDir key = true) :
    key ∈ bundleFilesOf source addons ∪ catalogFiles source languages addons ↔
      key ∈ catalogFiles source languages addons := by
  constructor
  · rintro (⟨addon, -, file, -, ⟨text, -, reference, -, rfl⟩ | rfl⟩ | hmem)
    · cases hkey
    · cases hkey
    · exact hmem
  · exact .inr

/-- The output of a clean run that succeeds is determined: by the collection, the settings and, for
the generated stylesheet, the rules collected. -/
theorem run_output (hnormal : before.source.Normal)
    (hsegments : ∀ addon ∈ settings.addons, Path.IsSegment addon) (hclean : settings.clean = true)
    (h : run Places.memory settings { storage := before } = (.ok report, s')) :
    IsBundle settings before report s'.storage := by
  have hcomplete := isComplete_of_run hnormal hsegments h
  have hlanguages : report.languages = treeLanguages before.source := hcomplete.languages_eq
  have hmem : ∀ dir ∈ staleDirs, ∀ key, Tree.isAtOrBelow dir key = true →
      (key ∈ s'.storage.output.keys ↔ key ∈ bundleFilesOf before.source settings.addons ∪
        catalogFiles before.source (treeLanguages before.source) settings.addons) :=
    fun dir hdir key hkey => mem_keys_of_complete hcomplete hclean
      (isStale_of_isAtOrBelow hdir hkey)
  constructor
  case source_eq => exact hcomplete.source_eq
  case host_eq => exact hcomplete.host_eq
  case mem_addons =>
    intro key hkey
    exact (hmem addonsDir (by decide) key hkey).trans (mem_made_addons hkey)
  case other =>
    intro addon haddon file hfile hkind
    obtain ⟨bytes, hbytes, hget⟩ := get?_addonFile hcomplete haddon hfile
    simp only [bundledBytes, hkind] at hbytes
    rw [hget, hbytes]
  case stylesheet =>
    intro addon haddon file hfile hkind
    obtain ⟨bytes, hbytes, hget⟩ := get?_addonFile hcomplete haddon hfile
    simp only [bundledBytes, hkind] at hbytes
    obtain ⟨text, htext, rfl⟩ := Option.map_eq_some_iff.mp hbytes
    exact ⟨text, htext, hget⟩
  case script =>
    intro addon haddon file hfile hkind
    obtain ⟨bytes, hbytes, hget⟩ := get?_addonFile hcomplete haddon hfile
    simp only [bundledBytes, hkind] at hbytes
    obtain ⟨text, htext, rfl⟩ := Option.map_eq_some_iff.mp hbytes
    exact ⟨text, htext, hget⟩
  case mem_libraries =>
    intro key hkey
    exact (hmem Script.librariesDir (by decide) key hkey).trans (mem_made_libraries hkey)
  case library =>
    intro key hkey hkeyOutput
    have hmade := (hmem Script.librariesDir (by decide) key hkey).mp hkeyOutput
    obtain ⟨bytes, hdue, hget⟩ := hcomplete.made key hmade
    obtain ⟨-, -, -, -, -, reference, -, rfl⟩ := (mem_made_libraries hkey).mp hmade
    rw [due_libraryPath] at hdue
    rw [hget, hdue]
  case mem_catalogs =>
    intro key hkey
    rw [hlanguages]
    exact (hmem catalogsDir (by decide) key hkey).trans (mem_made_catalogs hkey)
  case catalog =>
    intro language hlanguage addon haddon hfile
    rw [hlanguages] at hlanguage
    obtain ⟨bytes, hdue, hget⟩ := hcomplete.made _
      (.inr ⟨language, hlanguage, addon, haddon, rfl, hfile⟩)
    rw [due_catalogPath] at hdue
    obtain ⟨value, hvalue, hbytes⟩ := Option.bind_eq_some_iff.mp hdue
    refine ⟨value, bytes, hvalue, ?_, hget⟩
    cases hencode : Utf8.encodeCode (Json.minimal value) with
    | ok encoded =>
        rw [hencode] at hbytes
        cases hbytes
        rfl
    | error e =>
        rw [hencode] at hbytes
        cases hbytes
  case mem_languages =>
    intro language
    rw [hlanguages]
    exact mem_treeLanguages hnormal
  case pairwise_languages =>
    rw [hlanguages]
    exact (Tree.pairwise_lt_listDir before.source catalogsDir).filter _
  case sheet => exact hcomplete.sheet
  case version => exact (readVersion_congr rfl).trans hcomplete.version_eq
  case record => exact hcomplete.record
  case unchanged =>
    intro key hstale hnotSheet hnotRecord
    have hnot : key ∉ bundleFilesOf before.source settings.addons ∪
        catalogFiles before.source (treeLanguages before.source) settings.addons := by
      rintro (hmade | hmade)
      · rw [isStale_of_mem_bundleFilesOf hmade] at hstale
        cases hstale
      · rw [isStale_of_mem_catalogFiles hmade] at hstale
        cases hstale
    rw [hcomplete.unmade key hnot hnotSheet hnotRecord, get?_cleaned, hstale]
    simp

/-- A collection with one addon, whose script loads a library. -/
def smallTrees : Trees where
  source := .ofFiles
    [("addons/a/x.js".toList, Utf8.encode "load(addon.self.lib + \"/l.js\")".toList),
      ("addons-l10n/en/a.json".toList, Utf8.encode "\x7b \"k\": 1 \x7d".toList),
      ("libraries/l.js".toList, [1, 2]),
      ("manifest.json".toList, Utf8.encode "\x7b\"version_name\": \"1\"\x7d".toList)]
  output := .ofFiles [("addons/old".toList, []), ("kept".toList, [])]

/-- Settings by which a script counts as a media file. -/
def smallSettings : Settings where
  addons := [['a']]
  extensions := [".js".toList]

theorem exists_run_small : ∃ report,
    (run Places.memory smallSettings { storage := smallTrees }).1 = .ok report := by
  have hok : (run Places.memory smallSettings { storage := smallTrees }).1.toOption.isSome =
      true := by
    decide +kernel
  cases hrun : (run Places.memory smallSettings { storage := smallTrees }).1 with
  | ok report => exact ⟨report, rfl⟩
  | error failure =>
      rw [hrun] at hok
      cases hok

theorem run_output_small : ∃ report,
    IsBundle smallSettings smallTrees report
      (run Places.memory smallSettings { storage := smallTrees }).2.storage := by
  obtain ⟨report, hreport⟩ := exists_run_small
  exact ⟨report, run_output (Tree.normal_ofFiles _) (by decide) rfl (Prod.ext hreport rfl)⟩

end AddonBundle.Bundle
