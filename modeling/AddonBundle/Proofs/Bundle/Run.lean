import AddonBundle.Proofs.Bundle.Steps
/-!
# What a run makes

A run over trees in memory removes the stale directories if it is to, bundles, and writes the
generated stylesheet, the catalogs and the version record. What a successful run leaves in the
output is determined file by file.
-/

namespace AddonBundle.Bundle

open Build Text

variable {σ : Type} {source : Tree} {settings : Settings}

/-! ## Cleaning -/

/-- The steps of a run behind the cleaning. -/
def bundlingSteps (places : Places σ) (settings : Settings) : Build σ Report := do
  let count := settings.addons.length
  Build.log .info ("Porting ".toList ++ Text.ofNat count ++ " addons".toList)
  bundleAddons places settings settings.addons
  writeFile places.output sheetFile (← get).sheet.text
  Build.startPhase "Localization".toList
  let languages ← writeCatalogs places settings.addons
  modify Build.closePhase
  let version ← Build.ofExcept (readVersion places.source (← Build.storage))
  writeRecord places.output version languages
  let s ← get
  let report : Report :=
    { written := s.written, libraries := s.libraries, languages, version, sheet := s.sheet
      trace := s.trace }
  Build.log .success (summary count report)
  return report

theorem runSteps_eq (places : Places σ) (settings : Settings) :
    runSteps places settings =
      if settings.clean then do
        removeAll places.output staleDirs
        bundlingSteps places settings
      else bundlingSteps places settings := rfl

/-- The output that bundling starts from. -/
def cleaned (settings : Settings) (output : Tree) : Tree :=
  if settings.clean then staleDirs.foldl Tree.remove output else output

theorem exec_removeAll (paths : List Text) (s : Session Trees) :
    exec (removeAll Places.memory.output paths) s =
      (.ok (), { s with storage := { s.storage with
        output := paths.foldl Tree.remove s.storage.output } }) := by
  induction paths generalizing s with
  | nil => rfl
  | cons path rest ih =>
      have hremove : exec (Build.write (Places.memory.output.remove path)) s =
          (.ok (), { s with storage := { s.storage with
            output := s.storage.output.remove path } }) := by
        rw [exec_write]
        rfl
      rw [removeAll, exec_bind, hremove]
      exact ih _

/-- The session that bundling starts from. -/
def cleanedSession (settings : Settings) (s : Session Trees) : Session Trees :=
  { s with storage := { s.storage with output := cleaned settings s.storage.output } }

theorem exec_runSteps (settings : Settings) (s : Session Trees) :
    exec (runSteps Places.memory settings) s =
      exec (bundlingSteps Places.memory settings) (cleanedSession settings s) := by
  rw [runSteps_eq]
  cases hclean : settings.clean with
  | true =>
      rw [if_pos rfl, exec_bind, exec_removeAll]
      simp only [cleanedSession, cleaned, hclean, if_true]
  | false =>
      rw [if_neg (by simp)]
      simp [cleanedSession, cleaned, hclean]

theorem get?_foldl_remove (paths : List Text) (tree : Tree) (key : Text) :
    (paths.foldl Tree.remove tree).get? key =
      if paths.any fun path => Tree.isAtOrBelow (Path.key path) key then none
      else tree.get? key := by
  induction paths generalizing tree with
  | nil => simp
  | cons path rest ih =>
      rw [List.foldl_cons, ih, Tree.get?_remove, List.any_cons]
      cases Tree.isAtOrBelow (Path.key path) key <;> simp

/-- Whether a key is that of a stale directory or lies below one. -/
def isStale (key : Text) : Bool :=
  staleDirs.any fun dir => Tree.isAtOrBelow dir key

theorem get?_cleaned (settings : Settings) (output : Tree) (key : Text) :
    (cleaned settings output).get? key =
      if settings.clean && isStale key then none else output.get? key := by
  have hkeys : (staleDirs.any fun path => Tree.isAtOrBelow (Path.key path) key) = isStale key := by
    have haddons : Path.key addonsDir = addonsDir := by decide
    have hcatalogs : Path.key catalogsDir = catalogsDir := by decide
    have hlibraries : Path.key Script.librariesDir = Script.librariesDir := by decide
    simp [isStale, staleDirs, haddons, hcatalogs, hlibraries]
  unfold cleaned
  cases settings.clean with
  | true => rw [if_pos rfl, get?_foldl_remove, hkeys, Bool.true_and]
  | false => simp

/-! ## The generated stylesheet is not touched once written -/

/-- A step that appends no rules. -/
def KeepsSheet {α : Type} (step : Build Trees α) : Prop :=
  ∀ s, (exec step s).2.sheet = s.sheet

theorem KeepsSheet.bind {α β : Type} {step : Build Trees α} {next : α → Build Trees β}
    (hstep : KeepsSheet step) (hnext : ∀ a, KeepsSheet (next a)) : KeepsSheet (step >>= next) := by
  intro s
  have hs := hstep s
  rw [exec_bind]
  split
  · rename_i a middle hexec
    rw [hexec] at hs
    exact (hnext a middle).trans hs
  · rename_i failure middle hexec
    rwa [hexec] at hs

theorem keepsSheet_ofExcept {α : Type} (outcome : Except Failure α) :
    KeepsSheet (Build.ofExcept outcome) := by
  intro s
  rw [exec_ofExcept]

theorem keepsSheet_write (change : Trees → Except Failure Unit × Trees) :
    KeepsSheet (Build.write change) := by
  intro s
  rw [exec_write]

theorem keepsSheet_writeCatalog (language addon : Text) :
    KeepsSheet (writeCatalog Places.memory language addon) := by
  have hstorage : KeepsSheet (Build.storage : Build Trees Trees) := fun _ => rfl
  apply hstorage.bind
  intro storage
  apply (keepsSheet_ofExcept _).bind
  intro present
  split
  · apply (keepsSheet_ofExcept _).bind
    intro catalog
    refine KeepsSheet.bind (fun _ => rfl) fun _ => ?_
    exact (keepsSheet_write _).bind fun _ _ => rfl
  · exact fun _ => rfl

theorem keepsSheet_writeCatalogs (addons : List Text) :
    KeepsSheet (writeCatalogs Places.memory addons) := by
  have hlanguage : ∀ language, KeepsSheet (writeLanguage Places.memory language addons) := by
    intro language
    induction addons with
    | nil => exact fun _ => rfl
    | cons addon rest ih => exact (keepsSheet_writeCatalog language addon).bind fun _ => ih
  have hlanguages : ∀ languages, KeepsSheet (writeLanguages Places.memory addons languages) := by
    intro languages
    induction languages with
    | nil => exact fun _ => rfl
    | cons language rest ih =>
        rw [writeLanguages]
        refine KeepsSheet.bind (fun _ => rfl) fun _ => ?_
        exact (hlanguage language).bind fun _ => ih
  have hstorage : KeepsSheet (Build.storage : Build Trees Trees) := fun _ => rfl
  apply hstorage.bind
  intro storage
  apply (keepsSheet_ofExcept _).bind
  intro found
  exact (hlanguages found).bind fun _ _ => rfl

/-! ## Successful runs -/

/-- The files that the addons of a run call for. -/
def bundleFilesOf (source : Tree) (addons : List Text) : Set Text :=
  { key | ∃ addon ∈ addons, key ∈ addonFiles source addon }

/-- What a successful run leaves behind, for the trees it started from. -/
structure IsComplete (settings : Settings) (before : Trees) (report : Report)
    (s' : Session Trees) : Prop where
  source_eq : s'.storage.source = before.source
  host_eq : s'.storage.host = before.host
  languages_eq : report.languages = treeLanguages before.source
  version_eq : readVersion Places.memory.source before = .ok report.version
  sheet_eq : report.sheet = s'.sheet
  sheet : s'.storage.output.get? sheetFile = some (Utf8.encode report.sheet.text)
  record : ∃ bytes, Utf8.encodeCode (versionRecord report.version report.languages) = .ok bytes ∧
    s'.storage.output.get? recordFile = some bytes
  made : ∀ key ∈ bundleFilesOf before.source settings.addons ∪
      catalogFiles before.source (treeLanguages before.source) settings.addons,
    s'.storage.output.Holds (due before.source settings) key
  unmade : ∀ key ∉ bundleFilesOf before.source settings.addons ∪
      catalogFiles before.source (treeLanguages before.source) settings.addons,
    key ≠ sheetFile → key ≠ recordFile →
      s'.storage.output.get? key = before.output.get? key

theorem isAtOrBelow_append (dir rest : Text) : Tree.isAtOrBelow dir (dir ++ '/' :: rest) = true := by
  rw [Tree.isAtOrBelow, Bool.or_eq_true, List.isPrefixOf_iff_prefix]
  exact .inr ⟨rest, by simp⟩

theorem isStale_of_isAtOrBelow {dir key : Text} (hdir : dir ∈ staleDirs)
    (h : Tree.isAtOrBelow dir key = true) : isStale key = true :=
  List.any_eq_true.mpr ⟨dir, hdir, h⟩

theorem isAtOrBelow_addonFile (addon file : Text) :
    Tree.isAtOrBelow addonsDir (addonFile addon file) = true := by
  rw [addonFile, List.append_assoc, List.cons_append]
  exact isAtOrBelow_append _ _

theorem isAtOrBelow_libraryPath (file : Text) :
    Tree.isAtOrBelow Script.librariesDir (libraryPath file) = true :=
  isAtOrBelow_append _ _

theorem isAtOrBelow_catalogPath (language addon : Text) :
    Tree.isAtOrBelow catalogsDir (catalogPath language addon) = true := by
  rw [catalogPath, List.append_assoc, List.append_assoc, List.cons_append]
  exact isAtOrBelow_append _ _

theorem isStale_of_mem_bundleFilesOf {addons : List Text} {key : Text}
    (h : key ∈ bundleFilesOf source addons) : isStale key = true := by
  obtain ⟨addon, -, file, -, hkey⟩ := h
  rcases hkey with ⟨text, -, reference, -, rfl⟩ | rfl
  · exact isStale_of_isAtOrBelow (by decide) (isAtOrBelow_libraryPath _)
  · exact isStale_of_isAtOrBelow (by decide) (isAtOrBelow_addonFile addon file)

theorem isStale_of_mem_catalogFiles {languages addons : List Text} {key : Text}
    (h : key ∈ catalogFiles source languages addons) : isStale key = true := by
  obtain ⟨language, -, addon, -, rfl, -⟩ := h
  exact isStale_of_isAtOrBelow (by decide) (isAtOrBelow_catalogPath _ _)

theorem isStale_sheetFile : isStale sheetFile = false := by decide

theorem isStale_recordFile : isStale recordFile = false := by decide

theorem readVersion_congr {trees trees' : Trees} (h : trees.source = trees'.source) :
    readVersion Places.memory.source trees = readVersion Places.memory.source trees' := by
  obtain ⟨source, host, output⟩ := trees
  obtain ⟨source', host', output'⟩ := trees'
  obtain rfl : source = source' := h
  rfl

theorem exec_writeFile (path text : Text) (s : Session Trees) :
    exec (writeFile Places.memory.output path text) s =
      (.ok (), { s with
        storage := { s.storage with
          output := s.storage.output.writeBytes path (Utf8.encode text) }
        written := s.written ++ [path] }) := by
  have hwrite : Places.memory.output.writeText path (CodePoint.ofText text) s.storage =
      (.ok (), { s.storage with
        output := s.storage.output.writeBytes path (Utf8.encode text) }) := by
    simp [Places.memory, View.memory, Utf8.encodeCode_ofText]
  rw [writeFile, exec_bind, exec_write, hwrite]
  rfl

theorem get?_writeBytes_of_stale {tree : Tree} {path key : Text} {bytes : Bytes}
    (hpath : isStale (Path.key path) = false) (h : isStale key = true) :
    (tree.writeBytes path bytes).get? key = tree.get? key := by
  rw [Tree.get?_writeBytes, if_neg]
  rintro rfl
  rw [hpath] at h
  cases h

/-- Writing a file outside the stale directories leaves a session steady. -/
theorem IsSteady.writeBytes {s : Session Trees} (hs : IsSteady source (due source settings) s)
    {path : Text} (bytes : Bytes) (hpath : isStale (Path.key path) = false) :
    IsSteady source (due source settings) { s with storage := { s.storage with
      output := s.storage.output.writeBytes path bytes } } where
  source_eq := hs.source_eq
  libraries := by
    intro file hfile
    obtain ⟨contents, hdue, hget⟩ := hs.libraries file hfile
    refine ⟨contents, hdue, ?_⟩
    have hstale := isStale_of_isAtOrBelow (by decide) (isAtOrBelow_libraryPath file)
    exact (get?_writeBytes_of_stale hpath hstale).trans hget

end AddonBundle.Bundle
