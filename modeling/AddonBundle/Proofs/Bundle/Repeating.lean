import AddonBundle.Proofs.Bundle.Escaping
import AddonBundle.Proofs.Bundle.Parallel
import AddonBundle.Proofs.Climbing
/-!
# Running again

The libraries copied and the rules generated are remembered from one run to the next, while a clean
run removes what they describe. So a further run appends the rules a second time, and leaves out
the libraries; everything else it writes as the first run did. The two runs are compared side by
side.
-/

namespace AddonBundle.Bundle

open Build

variable {before : Trees} {settings : Settings} {α : Type}

/-! ## Successful runs -/

/-- Two sessions that hold the same: they differ in what they tell only. -/
structure SameHoldings (s' s : Session Trees) : Prop where
  storage : s'.storage = s.storage
  libraries : s'.libraries = s.libraries
  sheet : s'.sheet = s.sheet

theorem sameHoldings_finished (settings : Settings) (s : Session Trees) (bytes : Bytes)
    (log : List Log.Entry) :
    SameHoldings { finished settings s bytes with log } (recorded bytes (translated settings s)) :=
  ⟨rfl, rfl, rfl⟩

theorem Succeeds.exec_eq {s : Session Trees} {languages : List Text} {version : CodeText}
    {bytes : Bytes} (h : Succeeds settings s languages version bytes) :
    ∃ report s', exec (bundlingSteps Places.memory settings) s = (.ok report, s') ∧
      SameHoldings s' (recorded bytes (translated settings s)) :=
  ⟨_, _, exec_bundlingSteps_ok_iff.mpr ⟨languages, version, bytes, h, rfl, rfl⟩,
    sameHoldings_finished settings s bytes _⟩

theorem exists_succeeds {s s' : Session Trees} {report : Report}
    (h : exec (bundlingSteps Places.memory settings) s = (.ok report, s')) :
    ∃ languages version bytes, Succeeds settings s languages version bytes ∧
      SameHoldings s' (recorded bytes (translated settings s)) := by
  obtain ⟨languages, version, bytes, hstages, -, rfl⟩ := exec_bundlingSteps_ok_iff.mp h
  exact ⟨languages, version, bytes, hstages, sameHoldings_finished settings s bytes _⟩

/-! ## A run along another -/

/-- A key at which a run leaves the same whether it copies libraries or not. -/
def IsOpen (start first : Session Trees) (key : Text) : Prop :=
  key ≠ sheetFile ∧
    ∀ file ∈ first.libraries, file ∉ start.libraries → key ≠ Path.key (libraryPath file)

/-- A session of a later run, next to one of a first run that copies no more than it does in the
end. -/
structure Follows (start first : Session Trees) (fixed : Text → Option Bytes → Prop)
    (s t : Session Trees) : Prop where
  /-- All libraries have been copied already. -/
  libraries_eq : t.libraries = first.libraries
  /-- What is found is that of the same moment, or that of the end of the first run. -/
  output : ∀ key, IsOpen start first key →
    t.storage.output.get? key = s.storage.output.get? key ∨
      t.storage.output.get? key = first.storage.output.get? key
  fixed : ∀ key value, fixed key value → t.storage.output.get? key = value

/-- Sessions of a first run, which goes from `start` to `first`, and of a later one, which starts
with `earlier` rules. -/
structure Retraces (before : Trees) (start first : Session Trees) (earlier : List Text)
    (fixed : Text → Option Bytes → Prop) (s t : Session Trees) : Prop where
  settled_left : Settled before s
  settled_right : Settled before t
  rules : ∃ added, s.sheet.rules = start.sheet.rules ++ added ∧ t.sheet.rules = earlier ++ added
  old : start.libraries ⊆ s.libraries
  follows : s.libraries ⊆ first.libraries → Follows start first fixed s t

variable {start first : Session Trees} {earlier : List Text} {fixed : Text → Option Bytes → Prop}
  {s t : Session Trees}

theorem Settled.congr {s' : Session Trees} (h : Settled before s) (hsame : SameHoldings s' s) :
    Settled before s' := by
  refine ⟨?_, ?_, ?_⟩
  · rw [hsame.storage, h.source_eq]
  · rw [hsame.storage, h.host_eq]
  · rw [hsame.libraries]
    exact h.libraries

theorem Retraces.congr {s' t' : Session Trees} (h : Retraces before start first earlier fixed s t)
    (hs : SameHoldings s' s) (ht : SameHoldings t' t) :
    Retraces before start first earlier fixed s' t' where
  settled_left := h.settled_left.congr hs
  settled_right := h.settled_right.congr ht
  rules := by
    rw [hs.sheet, ht.sheet]
    exact h.rules
  old := by
    rw [hs.libraries]
    exact h.old
  follows := by
    rw [hs.libraries]
    intro hsub
    obtain ⟨hlibraries, houtput, hfixed⟩ := h.follows hsub
    refine ⟨?_, ?_, ?_⟩
    · rw [ht.libraries, hlibraries]
    · rw [hs.storage, ht.storage]
      exact houtput
    · rw [ht.storage]
      exact hfixed

/-- A file written on both sides, with the same bytes where both sides are to agree. -/
theorem Retraces.write (h : Retraces before start first earlier fixed s t) {path : Text}
    (hpath : ∀ value, ¬ fixed (Path.key path) value) {bytes bytes' : Bytes}
    (hbytes : IsOpen start first (Path.key path) → bytes' = bytes) :
    Retraces before start first earlier fixed
      { s with storage := { s.storage with output := s.storage.output.writeBytes path bytes } }
      { t with
        storage := { t.storage with output := t.storage.output.writeBytes path bytes' } } where
  settled_left := ⟨h.settled_left.source_eq, h.settled_left.host_eq, h.settled_left.libraries⟩
  settled_right := ⟨h.settled_right.source_eq, h.settled_right.host_eq, h.settled_right.libraries⟩
  rules := h.rules
  old := h.old
  follows := by
    intro hsub
    have hfollows := h.follows hsub
    refine ⟨hfollows.libraries_eq, ?_, ?_⟩
    · intro key hopen
      simp only [Tree.get?_writeBytes]
      split
      · rename_i heq
        exact .inl (congrArg some (hbytes (heq ▸ hopen)))
      · exact hfollows.output key hopen
    · intro key value hvalue
      have hne : key ≠ Path.key path := by
        rintro rfl
        exact hpath value hvalue
      simp only [Tree.get?_writeBytes, if_neg hne]
      exact hfollows.fixed key value hvalue

/-- The same file written on both sides. -/
theorem Retraces.writeBytes (h : Retraces before start first earlier fixed s t) {path : Text}
    (hpath : ∀ value, ¬ fixed (Path.key path) value) (bytes : Bytes) :
    Retraces before start first earlier fixed
      { s with storage := { s.storage with output := s.storage.output.writeBytes path bytes } }
      { t with
        storage := { t.storage with output := t.storage.output.writeBytes path bytes } } :=
  h.write hpath fun _ => rfl

/-- A library of the collection copied on both sides. Where the first run copies it, the later one
has it already. -/
theorem Retraces.library (h : Retraces before start first earlier fixed s t)
    {reference : Script.LibraryReference} {bytes : Bytes}
    (hbytes : libraryBytes? before.source reference.file = some bytes) :
    Retraces before start first earlier fixed ((Action.library reference bytes).apply s)
      ((Action.library reference bytes).apply t) where
  settled_left := h.settled_left.apply_library hbytes
  settled_right := h.settled_right.apply_library hbytes
  rules := by
    rw [rules_apply, rules_apply]
    simpa [Action.newRules] using h.rules
  old := fun file hfile => mem_libraries_apply.mpr (.inl (h.old hfile))
  follows := by
    intro hsub
    have hmem : ∀ file, file ∈ s.libraries ∨ file = reference.file → file ∈ first.libraries := by
      intro file hfile
      apply hsub
      rw [mem_libraries_apply]
      exact hfile.imp_right fun heq => ⟨reference, bytes, rfl, heq⟩
    have hfollows := h.follows fun file hfile => hmem file (.inl hfile)
    have hcopied : reference.file ∈ t.libraries :=
      hfollows.libraries_eq ▸ hmem _ (.inr rfl)
    rw [apply_library reference bytes t, if_pos (by simpa using hcopied)]
    refine ⟨hfollows.libraries_eq, fun key hkey => ?_, hfollows.fixed⟩
    rw [apply_library]
    split
    · exact hfollows.output key hkey
    · rename_i hnew
      have hnew : reference.file ∉ start.libraries := fun hold => hnew (by simpa using h.old hold)
      have hne : key ≠ Path.key (libraryPath reference.file) :=
        hkey.2 _ (hmem _ (.inr rfl)) hnew
      simp only [copiedSession, Tree.get?_writeBytes, if_neg hne]
      exact hfollows.output key hkey

theorem agrees_source {a b : Trees} (h : a.source = b.source) :
    Places.memory.source.Agrees a Places.memory.source b := by
  constructor <;> funext path <;> simp only [Places.memory, View.memory, h]

theorem agrees_host {a b : Trees} (h : a.host = b.host) :
    Places.memory.host.Agrees a Places.memory.host b := by
  constructor <;> funext path <;> simp only [Places.memory, View.memory, h]

/-- The two runs stay side by side as long as nothing is written where something is to stay. -/
theorem isKept_retraces :
    IsKept Places.memory Places.memory (fun path => ∀ value, ¬ fixed (Path.key path) value)
      (Retraces before start first earlier fixed) where
  tell := fun _ h => h.congr ⟨rfl, rfl, rfl⟩ ⟨rfl, rfl, rfl⟩
  addRules := by
    intro s t texts h
    obtain ⟨added, hs, ht⟩ := h.rules
    exact
      { settled_left := ⟨h.settled_left.source_eq, h.settled_left.host_eq, h.settled_left.libraries⟩
        settled_right :=
          ⟨h.settled_right.source_eq, h.settled_right.host_eq, h.settled_right.libraries⟩
        rules := ⟨added ++ texts, by simp [addRules, hs], by simp [addRules, ht]⟩
        old := h.old
        follows := fun hsub =>
          have hfollows := h.follows hsub
          ⟨hfollows.libraries_eq, hfollows.output, hfollows.fixed⟩ }
  source := fun h => agrees_source (h.settled_left.source_eq.trans h.settled_right.source_eq.symm)
  host := fun h => agrees_host (h.settled_left.host_eq.trans h.settled_right.host_eq.symm)
  writeText := by
    intro path text hpath s t h
    rw [exec_write, exec_write]
    simp only [Places.memory, View.memory]
    cases Utf8.encodeCode text with
    | error e => exact ⟨rfl, h⟩
    | ok bytes => exact ⟨rfl, h.writeBytes hpath bytes⟩
  writeBytes := by
    intro path bytes hpath s t h
    rw [exec_write, exec_write]
    exact ⟨rfl, h.writeBytes hpath bytes⟩
  copy := by
    intro text reference _ s t h
    rw [exec_copyLibrary_settled h.settled_left, exec_copyLibrary_settled h.settled_right]
    cases hbytes : libraryBytes? before.source reference.file with
    | none => exact ⟨rfl, h⟩
    | some bytes => exact ⟨rfl, h.library hbytes⟩

/-- No file of an addon is bundled at the key. -/
def NoFileAt (before : Trees) (settings : Settings) (key : Text) : Prop :=
  ∀ addon ∈ settings.addons, ∀ file ∈ before.source.walk (addonsDir ++ '/' :: addon),
    Path.key (addonsDir ++ '/' :: addon ++ '/' :: file) ≠ key

/-- No catalog is written at the key. -/
def NoCatalogAt (before : Trees) (settings : Settings) (key : Text) : Prop :=
  ∀ language ∈ treeLanguages before.source, ∀ addon ∈ settings.addons,
    Path.key (catalogPath language addon) ≠ key

theorem filesAt_of_settled (hs : Settled before s)
    (hfixed : ∀ key value, fixed key value → NoFileAt before settings key) :
    FilesAt Places.memory settings.addons (fun path => ∀ value, ¬ fixed (Path.key path) value)
      s.storage := by
  intro addon haddon found hfound file hfile value hvalue
  have hwalk : before.source.walk (addonsDir ++ '/' :: addon) = found := by
    rw [← hs.source_eq]
    exact Except.ok.inj hfound
  exact hfixed _ value hvalue addon haddon file (hwalk ▸ hfile) rfl

theorem catalogsAt_of_settled (hs : Settled before s)
    (hfixed : ∀ key value, fixed key value → NoCatalogAt before settings key) :
    CatalogsAt Places.memory settings.addons (fun path => ∀ value, ¬ fixed (Path.key path) value)
      s.storage := by
  intro found hfound language hlanguage addon haddon value hvalue
  have hlanguages : treeLanguages before.source = found := by
    rw [languages_memory, hs.source_eq] at hfound
    exact Except.ok.inj hfound
  exact hfixed _ value hvalue language (hlanguages ▸ hlanguage) addon haddon rfl

/-! ## The libraries and the generated stylesheet -/

/-- Each library copied is named as libraries are, and is in the output. -/
def HoldsLibraries (trees : Trees) (libraries : List Text) : Prop :=
  ∀ file ∈ libraries, Path.IsSegment file ∧ file.getLast? = some 's' ∧
    (trees.output.get? (libraryPath file)).isSome = true

private theorem HoldsLibraries.writeBytes {trees : Trees} {libraries : List Text}
    (h : HoldsLibraries trees libraries) (path : Text) (bytes : Bytes) :
    HoldsLibraries { trees with output := trees.output.writeBytes path bytes } libraries := by
  intro file hfile
  obtain ⟨hsegment, hlast, hsome⟩ := h file hfile
  refine ⟨hsegment, hlast, ?_⟩
  simp only [Tree.get?_writeBytes]
  split
  · rfl
  · exact hsome

theorem keeps_holdsLibraries : Keeps Places.memory (fun _ => True) HoldsLibraries where
  writeText := by
    intro storage libraries path text _ h
    simp only [Places.memory, View.memory]
    cases Utf8.encodeCode text with
    | ok bytes => exact h.writeBytes path bytes
    | error e => exact h
  writeBytes := fun path bytes _ h => h.writeBytes path bytes
  library := fun _ _ _ => trivial
  copied := by
    intro text reference hreference storage libraries bytes h _ file hfile
    rcases List.mem_append.mp hfile with hfile | hfile
    · exact h.writeBytes _ bytes file hfile
    · rw [List.mem_singleton.mp hfile]
      have hsegment := Script.isSegment_of_mem_libraryReferences hreference
      obtain ⟨name, -, hname⟩ := Script.exists_name_of_mem_libraryReferences hreference
      refine ⟨hsegment, ?_, ?_⟩
      · simp [hname]
      · simp [Places.memory, View.memory, Tree.get?_writeBytes, isKey_libraryPath hsegment]

/-- A catalog is written under a key that ends in `.json`, whatever the addon is called. -/
theorem getLast?_key_catalogPath (language addon : Text) :
    (Path.key (catalogPath language addon)).getLast? = some 'n' :=
  Path.getLast?_key_append (catalogsDir ++ '/' :: language ++ '/' :: addon)
    (show '/' ∉ ".json".toList by decide) (by decide) (by decide)

theorem keeps_sheetFile (value : Option Bytes) :
    Keeps Places.memory (fun path => Path.key path ≠ sheetFile)
      (fun trees _ => trees.output.get? sheetFile = value) where
  writeText := by
    intro storage libraries path text hpath h
    simp only [Places.memory, View.memory]
    cases Utf8.encodeCode text with
    | ok bytes => simpa [Tree.get?_writeBytes, hpath.symm] using h
    | error e => exact h
  writeBytes := by
    intro storage libraries path bytes hpath h
    simpa [Places.memory, View.memory, Tree.get?_writeBytes, hpath.symm] using h
  library := by
    intro text reference hreference hsheet
    have hstale := isStale_of_isAtOrBelow (by decide) (isAtOrBelow_libraryPath reference.file)
    rw [isKey_libraryPath (Script.isSegment_of_mem_libraryReferences hreference)] at hsheet
    rw [hsheet, isStale_sheetFile] at hstale
    cases hstale
  copied := by
    intro text reference hreference storage libraries bytes h _
    have hne : sheetFile ≠ Path.key (libraryPath reference.file) := by
      have hstale := isStale_of_isAtOrBelow (by decide) (isAtOrBelow_libraryPath reference.file)
      rw [isKey_libraryPath (Script.isSegment_of_mem_libraryReferences hreference)]
      intro hsheet
      rw [← hsheet, isStale_sheetFile] at hstale
      cases hstale
    simpa [Places.memory, View.memory, Tree.get?_writeBytes, hne] using h

/-- The generated stylesheet is there at the end as it was written, with all the rules. -/
theorem get?_sheetFile_translated (settings : Settings) (s : Session Trees) :
    (translated settings s).storage.output.get? sheetFile =
      some (Utf8.encode (translated settings s).sheet.text) := by
  have hsheet : (translated settings s).sheet = (bundled settings s).sheet :=
    keepsSheet_writeCatalogs settings.addons (sheeted settings s)
  rw [hsheet]
  refine (keeps_sheetFile _).writeCatalogs ?_ ?_
  · intro storage libraries _ found _ language _ addon _ heq
    have hlast := getLast?_key_catalogPath language addon
    rw [heq] at hlast
    exact absurd hlast (by decide)
  · exact (get?_sheeted settings s sheetFile).trans (if_pos rfl)

theorem get?_sheetFile_of_run {report : Report}
    (h : run Places.memory settings s = (.ok report, first)) :
    first.storage.output.get? sheetFile = some (Utf8.encode first.sheet.text) := by
  rw [run, exec_runSteps] at h
  obtain ⟨_, _, bytes, -, hsame⟩ := exists_succeeds h
  have hrecord : Path.key recordFile = recordFile := by decide
  have hne : sheetFile ≠ recordFile := by decide
  rw [hsame.storage, hsame.sheet]
  simp only [recorded, Tree.get?_writeBytes, hrecord, if_neg hne]
  exact get?_sheetFile_translated settings _

/-! ## Further runs -/

/-- What a further run leaves, next to a run from `start` to `first`. -/
structure Retraced (before : Trees) (settings : Settings) (start first t later : Session Trees) :
    Prop where
  settled : Settled before later
  libraries_eq : later.libraries = first.libraries
  /-- The same rules are added once more. -/
  rules : ∃ added, first.sheet.rules = start.sheet.rules ++ added ∧
    later.sheet.rules = t.sheet.rules ++ added
  sheet : later.storage.output.get? sheetFile = some (Utf8.encode later.sheet.text)
  output : ∀ key, IsOpen start first key →
    later.storage.output.get? key = first.storage.output.get? key
  /-- Where only libraries are copied, there is nothing. -/
  spared : ∀ key, isStale key = true → NoFileAt before settings key →
    NoCatalogAt before settings key → later.storage.output.get? key = none

/-- A file on which both sides need not agree. -/
private theorem Retraces.writeSheet (h : Retraces before start first earlier fixed s t)
    (hfixed : ∀ key value, fixed key value → key ≠ sheetFile) (bytes bytes' : Bytes) :
    Retraces before start first earlier fixed
      { s with storage := { s.storage with output := s.storage.output.writeBytes sheetFile bytes } }
      { t with
        storage := { t.storage with output := t.storage.output.writeBytes sheetFile bytes' } } := by
  have hkey : Path.key sheetFile = sheetFile := by decide
  exact h.write (fun value hvalue => hfixed _ value hvalue hkey) fun hopen => absurd hkey hopen.1

/-- Nothing is at a key in the cleaned directories at which only a library can be written. -/
private def IsSpared (before : Trees) (settings : Settings) (key : Text) (value : Option Bytes) :
    Prop :=
  value = none ∧ isStale key = true ∧ NoFileAt before settings key ∧ NoCatalogAt before settings key

private theorem IsSpared.ne {key : Text} {value : Option Bytes}
    (h : IsSpared before settings key value) : key ≠ sheetFile ∧ key ≠ recordFile := by
  have hstale := h.2.1
  constructor
  · rintro rfl
    cases hstale
  · rintro rfl
    cases hstale

/-- Behind the cleaning the two runs are side by side. -/
private theorem retraces_announced (hclean : settings.clean = true) (hstart : Settled before start)
    (ht : Settled before t) (hlibraries : t.libraries = first.libraries)
    (hopen : ∀ key, IsOpen start first key →
      t.storage.output.get? key = first.storage.output.get? key) :
    Retraces before start first t.sheet.rules (IsSpared before settings)
      (announced settings (cleanedSession settings (fresh start)))
      (announced settings (cleanedSession settings (fresh t))) where
  settled_left := ⟨hstart.source_eq, hstart.host_eq, hstart.libraries⟩
  settled_right := ⟨ht.source_eq, ht.host_eq, ht.libraries⟩
  rules := ⟨[], (List.append_nil _).symm, (List.append_nil _).symm⟩
  old := fun _ hfile => hfile
  follows := by
    refine fun _ => ⟨hlibraries, ?_, ?_⟩
    · intro key hkey
      simp only [announced, cleanedSession, fresh, get?_cleaned, hclean, Bool.true_and]
      split
      · exact .inl rfl
      · exact .inr (hopen key hkey)
    · rintro key value ⟨rfl, hstale, -⟩
      simp only [announced, cleanedSession, fresh, get?_cleaned, hclean, hstale, Bool.and_self,
        if_true]

/-- The addons and the catalogs go the same way on both sides. -/
private theorem Retraces.translated
    (h : Retraces before start first earlier (IsSpared before settings) (announced settings s)
      (announced settings t)) :
    (exec (bundleAddons Places.memory settings settings.addons) (announced settings t)).1 =
        (exec (bundleAddons Places.memory settings settings.addons) (announced settings s)).1 ∧
      (exec (writeCatalogs Places.memory settings.addons) (sheeted settings t)).1 =
        (exec (writeCatalogs Places.memory settings.addons) (sheeted settings s)).1 ∧
      Retraces before start first earlier (IsSpared before settings) (translated settings s)
        (translated settings t) := by
  have hkept : IsKept Places.memory Places.memory
      (fun path => ∀ value, ¬ IsSpared before settings (Path.key path) value)
      (Retraces before start first earlier (IsSpared before settings)) := isKept_retraces
  have hbundles : Parallel (Retraces before start first earlier (IsSpared before settings))
      (bundleAddons Places.memory settings settings.addons)
      (bundleAddons Places.memory settings settings.addons) :=
    hkept.bundleAddons
      (fun _ _ hR => filesAt_of_settled hR.settled_left fun _ _ hvalue => hvalue.2.2.1)
      fun _ haddon => haddon
  obtain ⟨haddons, hbundled⟩ := hbundles _ _ h
  have hsheeted : Retraces before start first earlier (IsSpared before settings)
      (sheeted settings s) (sheeted settings t) :=
    (hbundled.writeSheet (fun key value hvalue => hvalue.ne.1)
      (Utf8.encode (bundled settings s).sheet.text)
      (Utf8.encode (bundled settings t).sheet.text)).congr ⟨rfl, rfl, rfl⟩ ⟨rfl, rfl, rfl⟩
  have hwrites : Parallel (Retraces before start first earlier (IsSpared before settings))
      (writeCatalogs Places.memory settings.addons)
      (writeCatalogs Places.memory settings.addons) :=
    hkept.writeCatalogs fun _ _ hR =>
      catalogsAt_of_settled hR.settled_left fun _ _ hvalue => hvalue.2.2.2
  obtain ⟨hcatalogs, htranslated⟩ := hwrites _ _ hsheeted
  exact ⟨haddons.symm, hcatalogs.symm, htranslated⟩

/-- A clean run from a session that holds what an earlier run has left, outside of what is cleaned
away, succeeds as that one did. -/
theorem exists_retraced {report : Report} (hclean : settings.clean = true)
    (hstart : Settled before start)
    (hfirst : run Places.memory settings start = (.ok report, first)) (ht : Settled before t)
    (hlibraries : t.libraries = first.libraries)
    (hopen : ∀ key, IsOpen start first key →
      t.storage.output.get? key = first.storage.output.get? key) :
    ∃ report' later, run Places.memory settings t = (.ok report', later) ∧
      Retraced before settings start first t later := by
  rw [run, exec_runSteps] at hfirst
  obtain ⟨languages, version, bytes, hsucceeds, hsame⟩ := exists_succeeds hfirst
  obtain ⟨haddons, hcatalogs, htranslated⟩ :=
    (retraces_announced hclean hstart ht hlibraries hopen).translated
  have hversion := readVersion_congr
    (htranslated.settled_right.source_eq.trans htranslated.settled_left.source_eq.symm)
  have hsucceeds' : Succeeds settings (cleanedSession settings (fresh t)) languages version bytes :=
    ⟨haddons.trans hsucceeds.addons, hcatalogs.trans hsucceeds.catalogs,
      hversion.trans hsucceeds.version_eq, hsucceeds.record, hsucceeds.shown⟩
  obtain ⟨report', later, hlater, hsame'⟩ := hsucceeds'.exec_eq
  have hrun : run Places.memory settings t = (.ok report', later) := by
    rw [run, exec_runSteps, hlater]
  have hrecord : Path.key recordFile = recordFile := by decide
  have hretraces : Retraces before start first t.sheet.rules (IsSpared before settings) first
      later :=
    (htranslated.writeBytes (fun value hvalue => hvalue.ne.2 hrecord) bytes).congr hsame hsame'
  have hfollows := hretraces.follows fun _ hfile => hfile
  exact ⟨report', later, hrun,
    { settled := hretraces.settled_right
      libraries_eq := hfollows.libraries_eq
      rules := hretraces.rules
      sheet := get?_sheetFile_of_run hrun
      output := fun key hkey => (hfollows.output key hkey).elim id id
      spared := fun key hstale hfile hcatalog =>
        hfollows.fixed key none ⟨rfl, hstale, hfile, hcatalog⟩ }⟩

/-! ## Runs one after the other -/

/-- The session behind further runs. -/
def rerun (settings : Settings) : Nat → Session Trees → Session Trees
  | 0, s => s
  | n + 1, s => (run Places.memory settings (rerun settings n s)).2

/-- Further runs leave the output as the first run has left it. -/
def Reproduces (settings : Settings) (first : Session Trees) : Prop :=
  ∀ n key, (rerun settings n first).storage.output.get? key = first.storage.output.get? key

/-- What further runs leave, behind a first run that has left `first`. -/
structure IsRerun (before : Trees) (settings : Settings) (first : Session Trees) (n : Nat) :
    Prop where
  /-- One more run succeeds. -/
  succeeds : ∃ report, (run Places.memory settings (rerun settings n first)).1 = .ok report
  settled : Settled before (rerun settings n first)
  libraries_eq : (rerun settings n first).libraries = first.libraries
  /-- Each run has added the rules. -/
  rules : (rerun settings n first).sheet.rules = (List.replicate (n + 1) first.sheet.rules).flatten
  sheet : (rerun settings n first).storage.output.get? sheetFile =
    some (Utf8.encode (FixedSheet.banner ++
      (List.replicate (n + 1) first.sheet.rules.flatten).flatten))
  /-- Everything but the generated stylesheet and the libraries is as the first run left it. -/
  others : ∀ key ≠ sheetFile, (∀ file ∈ first.libraries, key ≠ libraryPath file) →
    (rerun settings n first).storage.output.get? key = first.storage.output.get? key
  /-- The libraries are as the second run left them. -/
  stable : 0 < n → ∀ key ≠ sheetFile,
    (rerun settings n first).storage.output.get? key =
      (rerun settings 1 first).storage.output.get? key
  held : ∀ file ∈ first.libraries,
    (first.storage.output.get? (libraryPath file)).isSome = true
  /-- The second run leaves no library, unless it bundles a file of an addon in its place. -/
  lost : 0 < n → ∀ file ∈ first.libraries, NoFileAt before settings (libraryPath file) →
    (rerun settings n first).storage.output.get? (libraryPath file) = none

variable {report : Report}

theorem holdsLibraries_of_run
    (h : run Places.memory settings { storage := before } = (.ok report, first)) :
    HoldsLibraries first.storage first.libraries := by
  rw [run, exec_runSteps] at h
  obtain ⟨_, _, bytes, -, hsame⟩ := exists_succeeds h
  rw [hsame.storage, hsame.libraries]
  apply HoldsLibraries.writeBytes
  refine keeps_holdsLibraries.writeCatalogs (fun _ _ _ _ _ _ _ _ _ => trivial) ?_
  apply HoldsLibraries.writeBytes
  refine keeps_holdsLibraries.bundleAddons (fun _ _ _ _ _ _ _ _ _ => trivial) ?_
  exact fun file hfile => by cases hfile

theorem settled_of_run (hs : Settled before s)
    (h : run Places.memory settings s = (.ok report, first)) : Settled before first := by
  rw [run, exec_runSteps] at h
  obtain ⟨_, _, bytes, -, hsame⟩ := exists_succeeds h
  have hbundled : Settled before (bundled settings (cleanedSession settings (fresh s))) :=
    (stepEscapes_bundleAddons settings).settled _ ⟨hs.source_eq, hs.host_eq, hs.libraries⟩
  have htranslated : Settled before (translated settings (cleanedSession settings (fresh s))) :=
    (stepEscapes_writeCatalogs settings.addons).settled _
      ⟨hbundled.source_eq, hbundled.host_eq, hbundled.libraries⟩
  have hrecorded : Settled before (recorded bytes (translated settings
      (cleanedSession settings (fresh s)))) :=
    ⟨htranslated.source_eq, htranslated.host_eq, htranslated.libraries⟩
  exact hrecorded.congr hsame

/-- A session in which no run has been made. -/
private def unused (before : Trees) : Session Trees := { storage := before }

private theorem settled_unused (before : Trees) : Settled before (unused before) :=
  ⟨rfl, rfl, fun _ hfile => by cases hfile⟩

/-- What is carried from one run to the next. -/
private structure IsCarried (before : Trees) (first t : Session Trees) (n : Nat) : Prop where
  settled : Settled before t
  libraries_eq : t.libraries = first.libraries
  rules : t.sheet.rules = (List.replicate (n + 1) first.sheet.rules).flatten
  sheet : t.storage.output.get? sheetFile = some (Utf8.encode t.sheet.text)
  output : ∀ key, IsOpen (unused before) first key →
    t.storage.output.get? key = first.storage.output.get? key

section

variable (hclean : settings.clean = true)
  (h : run Places.memory settings (unused before) = (.ok report, first))

include hclean h

private theorem IsCarried.next {n : Nat} (ht : IsCarried before first t n) :
    ∃ report' later, run Places.memory settings t = (.ok report', later) ∧
      Retraced before settings (unused before) first t later ∧
      IsCarried before first later (n + 1) := by
  obtain ⟨report', later, hrun, hlater⟩ := exists_retraced hclean (settled_unused before) h
    ht.settled ht.libraries_eq ht.output
  refine ⟨report', later, hrun, hlater, hlater.settled, hlater.libraries_eq, ?_, hlater.sheet,
    hlater.output⟩
  obtain ⟨added, hfirst, hrules⟩ := hlater.rules
  have hadded : first.sheet.rules = added := by simpa [unused] using hfirst
  have hsplit : List.replicate (n + 1 + 1) first.sheet.rules =
      List.replicate (n + 1) first.sheet.rules ++ [first.sheet.rules] := List.replicate_succ'
  rw [hrules, ht.rules, ← hadded, hsplit, List.flatten_append, List.flatten_singleton]

private theorem isCarried_rerun (n : Nat) :
    IsCarried before first (rerun settings n first) n := by
  induction n with
  | zero =>
      exact ⟨settled_of_run (settled_unused before) h, rfl, by simp [rerun],
        get?_sheetFile_of_run h, fun _ _ => rfl⟩
  | succ n ih =>
      obtain ⟨report', later, hrun, -, hlater⟩ := ih.next hclean h
      rwa [rerun, hrun]

/-- From the second run on, the output stays the same, the generated stylesheet apart: a run that
finds all libraries copied already leaves every other key open. -/
private theorem rerun_stable (n : Nat) : ∀ key ≠ sheetFile,
    (rerun settings (n + 1) first).storage.output.get? key =
      (rerun settings 1 first).storage.output.get? key := by
  induction n with
  | zero => exact fun _ _ => rfl
  | succ n ih =>
      have hfirst := isCarried_rerun hclean h 0
      have hlast := isCarried_rerun hclean h (n + 1)
      obtain ⟨report', second, hsecond, -, hcarried⟩ := hfirst.next hclean h
      have heq : rerun settings 1 first = second := congrArg Prod.snd hsecond
      rw [heq] at ih ⊢
      have hsettled : Settled before first := hfirst.settled
      obtain ⟨_, later, hlater, hretraced⟩ := exists_retraced hclean hsettled hsecond hlast.settled
        (hlast.libraries_eq.trans hcarried.libraries_eq.symm) fun key hopen => ih key hopen.1
      have heq' : rerun settings (n + 1 + 1) first = later := congrArg Prod.snd hlater
      rw [heq']
      intro key hkey
      apply hretraced.output
      refine ⟨hkey, fun file hfile hnew => absurd ?_ hnew⟩
      rwa [← hcarried.libraries_eq]

theorem isRerun (n : Nat) : IsRerun before settings first n := by
  have hlibraries := holdsLibraries_of_run h
  have hcarried := isCarried_rerun hclean h n
  obtain ⟨report', later, hrun, -, -⟩ := hcarried.next hclean h
  have hkeys : ∀ file ∈ first.libraries, Path.key (libraryPath file) = libraryPath file :=
    fun file hfile => isKey_libraryPath (hlibraries file hfile).1
  refine ⟨⟨report', congrArg Prod.fst hrun⟩, hcarried.settled, hcarried.libraries_eq,
    hcarried.rules, ?_, ?_, ?_, fun file hfile => (hlibraries file hfile).2.2, ?_⟩
  · rw [hcarried.sheet, FixedSheet.text, hcarried.rules]
    congr 3
    induction n + 1 with
    | zero => rfl
    | succ n ih => simp [List.replicate_succ, ih]
  · intro key hsheet hother
    refine hcarried.output key ⟨hsheet, fun file hfile _ => ?_⟩
    rw [hkeys file hfile]
    exact hother file hfile
  · intro hn key hkey
    obtain ⟨m, rfl⟩ := Nat.exists_eq_add_one.mpr hn
    exact rerun_stable hclean h m key hkey
  · intro hn file hfile hfree
    obtain ⟨m, rfl⟩ := Nat.exists_eq_add_one.mpr hn
    obtain ⟨_, later, hlater, hretraced, -⟩ := (isCarried_rerun hclean h m).next hclean h
    have heq : rerun settings (m + 1) first = later := congrArg Prod.snd hlater
    rw [heq]
    apply hretraced.spared _ (isStale_of_isAtOrBelow (by decide) (isAtOrBelow_libraryPath file))
      hfree
    intro language _ addon _ hcatalog
    have hjson := getLast?_key_catalogPath language addon
    obtain ⟨-, hjs, -⟩ := hlibraries file hfile
    have hne : file ≠ [] := by
      rintro rfl
      cases hjs
    rw [hcatalog, libraryPath, List.getLast?_append_of_ne_nil _ (by simp),
      List.getLast?_cons_of_ne_nil hne, hjs] at hjson
    exact absurd hjson (by decide)

end

/-! ## When the output is reproduced -/

/-- Addons with plain names bundle no file in the place of a library. -/
theorem noFileAt_libraryPath (hnormal : before.source.Normal)
    (hsegments : ∀ addon ∈ settings.addons, Path.IsSegment addon) (file : Text) :
    NoFileAt before settings (libraryPath file) := by
  intro addon haddon rel hrel heq
  have hmem : addonFile addon rel ∈ before.source.keys := by
    rw [Tree.mem_walk, keyStart_addon (hsegments addon haddon)] at hrel
    simpa [addonFile] using hrel
  have hkey : Path.key (addonFile addon rel) = addonFile addon rel :=
    (hnormal.isKey _ hmem).key_eq
  have heq' : addonFile addon rel = libraryPath file := by
    rw [← hkey, ← heq]
    simp only [addonFile, List.cons_append, List.append_assoc]
  have hdir : addonsDir ≠ [] ∧ addonsDir.head? ≠ Script.librariesDir.head? := by decide
  have hhead := congrArg List.head? heq'
  rw [addonFile, libraryPath, List.append_assoc, List.head?_append_of_ne_nil _ hdir.1,
    List.head?_append_of_ne_nil _ (by decide)] at hhead
  exact hdir.2 hhead

private theorem eq_nil_of_encode {text : Text} (h : (Utf8.encode text).length = 0) : text = [] := by
  cases text with
  | nil => rfl
  | cons c rest =>
      rw [Utf8.encode, List.flatMap_cons, List.length_append, Utf8.encodePoint] at h
      simp only at h
      split at h
      · simp at h
      · split at h
        · simp at h
        · split at h <;> simp at h

/-- After a clean run that succeeds, so does every further run of the same session. It leaves all as
the first run has left it, but for the generated stylesheet, where it appends the rules once more,
and for the libraries, which it takes for copied and leaves out. So the output is reproduced when
there are neither rules nor libraries, and with plain names of addons in no other case. -/
theorem run_repeats (hclean : settings.clean = true)
    (h : run Places.memory settings { storage := before } = (.ok report, first)) :
    (∀ n, IsRerun before settings first n) ∧
      (first.sheet.text = FixedSheet.banner ∧ first.libraries = [] → Reproduces settings first) ∧
      (Reproduces settings first → first.sheet.text = FixedSheet.banner ∧
        ∀ file ∈ first.libraries, ¬ NoFileAt before settings (libraryPath file)) ∧
      (before.source.Normal → (∀ addon ∈ settings.addons, Path.IsSegment addon) →
        (Reproduces settings first ↔
          first.sheet.text = FixedSheet.banner ∧ first.libraries = [])) := by
  have hrerun : ∀ n, IsRerun before settings first n := isRerun hclean h
  have htext : first.sheet.text = FixedSheet.banner ↔ first.sheet.rules.flatten = [] := by
    simp [FixedSheet.text]
  have hsufficient : first.sheet.text = FixedSheet.banner ∧ first.libraries = [] →
      Reproduces settings first := by
    rintro ⟨hbanner, hnone⟩ n key
    by_cases hkey : key = sheetFile
    · rw [hkey, (hrerun n).sheet, htext.mp hbanner, get?_sheetFile_of_run h, hbanner]
      simp
    · exact (hrerun n).others key hkey (by simp [hnone])
  have hnecessary : Reproduces settings first → first.sheet.text = FixedSheet.banner ∧
      ∀ file ∈ first.libraries, ¬ NoFileAt before settings (libraryPath file) := by
    intro hsame
    constructor
    · have hsheet := hsame 1 sheetFile
      rw [(hrerun 1).sheet, get?_sheetFile_of_run h, FixedSheet.text, Option.some.injEq] at hsheet
      have hlength := congrArg List.length hsheet
      simp only [List.replicate_succ, List.replicate_zero, List.flatten_cons, List.flatten_nil,
        List.append_nil, Utf8.encode, List.flatMap_append, List.length_append] at hlength
      exact htext.mpr (eq_nil_of_encode (by rw [Utf8.encode]; omega))
    · intro file hfile hfree
      have hlost := (hrerun 1).lost Nat.one_pos file hfile hfree
      have hheld := (hrerun 1).held file hfile
      rw [hsame 1, ← Option.not_isSome_iff_eq_none] at hlost
      exact hlost hheld
  refine ⟨hrerun, hsufficient, hnecessary, fun hnormal hsegments => ⟨fun hsame => ?_, hsufficient⟩⟩
  obtain ⟨hbanner, hfiles⟩ := hnecessary hsame
  refine ⟨hbanner, List.eq_nil_iff_forall_not_mem.mpr fun file hfile => ?_⟩
  exact hfiles file hfile (noFileAt_libraryPath hnormal hsegments file)

/-- An addon whose script imports a library and has a marker. -/
def markedTrees : Trees where
  source := .ofFiles
    [("addons/a/x.js".toList,
        Utf8.encode "import \"../../libraries/l.js\"; // FIXCLASS: s_c_h".toList),
      ("libraries/l.js".toList, [1, 2]),
      ("manifest.json".toList, Utf8.encode "\x7b\"version_name\": \"1\"\x7d".toList)]
  host := .ofFiles [("components/s/s.css".toList, Utf8.encode ".c \x7b \x7d".toList)]

def markedSettings : Settings where
  addons := [['a']]

private theorem run_marked :
    let first := (run Places.memory markedSettings { storage := markedTrees }).2
    let second := (run Places.memory markedSettings first).2
    (run Places.memory markedSettings { storage := markedTrees }).1.toOption.isSome = true ∧
      (run Places.memory markedSettings first).1.toOption.isSome = true ∧
      first.storage.output.get? "libraries/l.js".toList = some [1, 2] ∧
      second.storage.output.get? "libraries/l.js".toList = none ∧
      second.sheet.rules = first.sheet.rules ++ first.sheet.rules ∧
      second.storage.output.get? sheetFile ≠ first.storage.output.get? sheetFile := by
  decide +kernel

private theorem exists_run_marked : ∃ report,
    (run Places.memory markedSettings { storage := markedTrees }).1 = .ok report := by
  have hok := run_marked.1
  cases hrun : (run Places.memory markedSettings { storage := markedTrees }).1 with
  | ok report => exact ⟨report, rfl⟩
  | error failure =>
      rw [hrun] at hok
      cases hok

theorem run_repeats_marked :
    let first := (run Places.memory markedSettings { storage := markedTrees }).2
    (∀ n, IsRerun markedTrees markedSettings first n) ∧
      (first.sheet.text = FixedSheet.banner ∧ first.libraries = [] →
        Reproduces markedSettings first) ∧
      (Reproduces markedSettings first → first.sheet.text = FixedSheet.banner ∧
        ∀ file ∈ first.libraries, ¬ NoFileAt markedTrees markedSettings (libraryPath file)) ∧
      (markedTrees.source.Normal → (∀ addon ∈ markedSettings.addons, Path.IsSegment addon) →
        (Reproduces markedSettings first ↔
          first.sheet.text = FixedSheet.banner ∧ first.libraries = [])) := by
  obtain ⟨report, hreport⟩ := exists_run_marked
  exact run_repeats rfl (Prod.ext hreport rfl)

/-- A clean run succeeds, and the next one leaves a different output: without the library, and with
the rule twice. -/
theorem run_repeats_lost :
    let first := (run Places.memory markedSettings { storage := markedTrees }).2
    let second := (run Places.memory markedSettings first).2
    markedSettings.clean = true ∧
      (run Places.memory markedSettings { storage := markedTrees }).1.toOption.isSome = true ∧
      (run Places.memory markedSettings first).1.toOption.isSome = true ∧
      first.storage.output.get? "libraries/l.js".toList = some [1, 2] ∧
      second.storage.output.get? "libraries/l.js".toList = none ∧
      second.sheet.rules = first.sheet.rules ++ first.sheet.rules ∧
      second.storage.output.get? sheetFile ≠ first.storage.output.get? sheetFile ∧
      ¬ Reproduces markedSettings first := by
  intro first second
  obtain ⟨hfirst, hsecond, hcopied, hlost, hrules, hsheet⟩ := run_marked
  refine ⟨rfl, hfirst, hsecond, hcopied, hlost, hrules, hsheet, fun hsame => ?_⟩
  have hkept : second.storage.output.get? "libraries/l.js".toList = some [1, 2] :=
    (hsame 1 _).trans hcopied
  rw [hlost] at hkept
  cases hkept

end AddonBundle.Bundle
