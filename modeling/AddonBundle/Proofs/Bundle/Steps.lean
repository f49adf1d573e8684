import AddonBundle.Proofs.Bundle.Contents
import AddonBundle.Proofs.Bundle.Making
/-!
# What the steps of a run make

Each step of a run over trees in memory makes the files that it is there for: the libraries of a
script, the files of an addon, the catalogs.
-/

namespace AddonBundle.Bundle

open Build Text

variable {source : Tree} {settings : Settings}

/-! ## Libraries -/

/-- The bytes of a shared library that is a file and no directory. -/
def libraryBytes? (tree : Tree) (file : Text) : Option Bytes :=
  if tree.isDir (libraryPath file) then none else tree.get? (Path.key (libraryPath file))

/-- The session behind the copying of a library. -/
def copiedSession (reference : Script.LibraryReference) (bytes : Bytes) (s : Session Trees) :
    Session Trees :=
  { s with
    storage := { s.storage with
      output := s.storage.output.writeBytes (libraryPath reference.file) bytes }
    libraries := s.libraries ++ [reference.file]
    trace := s.trace.record (.libraryCopy reference.file reference.kind.name) }

private theorem isFile_source (trees : Trees) (path : Text) :
    Places.memory.source.isFile trees path =
      .ok (trees.source.isFile path && !trees.source.isDir path) := by
  simp only [Places.memory, View.isFile_memory]

theorem exec_copyLibrary (reference : Script.LibraryReference) (s : Session Trees) :
    exec (copyLibrary Places.memory reference) s =
      if s.libraries.contains reference.file then (.ok false, s)
      else
        match libraryBytes? s.storage.source reference.file with
        | some bytes => (.ok true, copiedSession reference bytes s)
        | none =>
          (.error (.fault (.libraryMissing reference.file (libraryPath reference.file))), s) := by
  rw [copyLibrary, exec_bind]
  simp only [exec_get]
  split
  · rfl
  · simp only [exec_bind, exec_storage, exec_ofExcept, isFile_source, libraryBytes?]
    cases hdir : s.storage.source.isDir (libraryPath reference.file) with
    | true => simp
    | false =>
        cases hget : s.storage.source.get? (Path.key (libraryPath reference.file)) with
        | none => simp [Tree.isFile, hget]
        | some bytes =>
            have hread : Places.memory.source.readBytes s.storage (libraryPath reference.file) =
                .ok bytes := by
              simp [Places.memory, View.memory, Tree.readBytes, hget]
            simp [Tree.isFile, hget, exec_bind, hread, copiedSession]
            rfl

theorem isKey_libraryPath {file : Text} (h : Path.IsSegment file) :
    Path.key (libraryPath file) = libraryPath file := by
  have hdir : Path.IsSegment Script.librariesDir := by decide
  exact (hdir.isKey.child (by decide) h).key_eq

theorem makes_copyLibrary {reference : Script.LibraryReference}
    (h : Path.IsSegment reference.file) :
    Makes source (due source settings) {libraryPath reference.file}
      (copyLibrary Places.memory reference) := by
  intro s hs
  have hkey := isKey_libraryPath h
  rw [exec_copyLibrary]
  split
  · rename_i hcopied
    refine ⟨.refl _, hs, ?_⟩
    rintro - - key rfl
    exact hs.libraries _ (by simpa using hcopied)
  · cases hbytes : libraryBytes? s.storage.source reference.file with
    | none => exact ⟨.refl _, hs, fun _ hok => by cases hok⟩
    | some bytes =>
        have hget : source.get? (libraryPath reference.file) = some bytes := by
          unfold libraryBytes? at hbytes
          split at hbytes
          · cases hbytes
          · rw [← hs.source_eq, ← hkey]
            exact hbytes
        have hdue : due source settings (libraryPath reference.file) = some bytes := by
          rw [due_libraryPath, hget]
        have htrees : s.storage.Extends (due source settings) {Path.key (libraryPath reference.file)}
            (copiedSession reference bytes s).storage :=
          .write s.storage (by rw [hkey, hdue])
        have hheld : (copiedSession reference bytes s).storage.output.Holds (due source settings)
            (libraryPath reference.file) := by
          refine ⟨bytes, hdue, ?_⟩
          simp [copiedSession, Tree.get?_writeBytes, hkey]
        rw [hkey] at htrees
        refine ⟨htrees, ⟨hs.source_eq, ?_⟩, ?_⟩
        · intro file hfile
          rcases List.mem_append.mp hfile with hfile | hfile
          · exact htrees.holds (hs.libraries file hfile)
          · rw [List.mem_singleton.mp hfile]
            exact hheld
        · rintro - - key rfl
          exact hheld

theorem makes_copyLibraries {references : List Script.LibraryReference}
    (h : ∀ reference ∈ references, Path.IsSegment reference.file) :
    Makes source (due source settings)
      { key | ∃ reference ∈ references, key = libraryPath reference.file }
      (copyLibraries Places.memory references) := by
  induction references with
  | nil =>
      have hnone : { key | ∃ reference ∈ ([] : List Script.LibraryReference),
          key = libraryPath reference.file } = ∅ := by
        ext key
        simp
      rw [hnone]
      exact (isQuiet_pure 0).makes
  | cons reference rest ih =>
      have hsplit : { key | ∃ r ∈ reference :: rest, key = libraryPath r.file } =
          {libraryPath reference.file} ∪ { key | ∃ r ∈ rest, key = libraryPath r.file } := by
        ext key
        simp
      have hrest := ih fun r hr => h r (List.mem_cons_of_mem _ hr)
      rw [hsplit]
      apply (makes_copyLibrary (h reference List.mem_cons_self)).bind
      intro _ copied _ _
      exact hrest.bind_quiet fun others => isQuiet_pure _

/-! ## Files of addons -/

theorem isQuiet_readable {α : Type} (path : Text) (outcome : Except Failure α) :
    IsQuiet (readable path outcome) := by
  unfold readable
  cases outcome with
  | ok a => exact isQuiet_pure a
  | error failure =>
      dsimp only
      split
      · exact isQuiet_throw _
      · exact isQuiet_throw _

theorem exec_readable_ok {α : Type} {path : Text} {outcome : Except Failure α} {a : α}
    {s : Session Trees} (h : (exec (readable path outcome) s).1 = .ok a) : outcome = .ok a := by
  unfold readable at h
  cases outcome with
  | ok b => exact h
  | error failure =>
      dsimp only at h
      split at h <;> cases h

theorem readText_ok {trees : Trees} {path text : Text}
    (h : Places.memory.source.readText trees path = .ok text) :
    textAt trees.source (Path.key path) = some text := by
  have hread : Places.memory.source.readBytes trees path = trees.source.readBytes path := rfl
  unfold View.readText at h
  rw [hread, Tree.readBytes] at h
  cases hget : trees.source.get? (Path.key path) with
  | none =>
      rw [hget] at h
      cases h
  | some bytes =>
      rw [hget] at h
      dsimp only at h
      split at h
      · rename_i found hdecode
        cases h
        simp [textAt, hget, hdecode, Except.toOption]
      · cases h

theorem isQuiet_stamp (header path text : Text) :
    IsQuiet (stamp header path text : Build Trees Text) := by
  unfold stamp
  split
  · exact isQuiet_pure _
  · exact (isQuiet_record _).bind fun _ => isQuiet_pure _

theorem exec_stamp (header path text : Text) (s : Session Trees) :
    (exec (stamp header path text) s).1 = .ok (License.stamp header text) := by
  unfold stamp License.stamp
  split
  · rfl
  · rfl

theorem isQuiet_linkScript (extensions : List Text) (path text : Text) :
    IsQuiet (linkScript Places.memory.source extensions path text) := by
  intro s
  rw [Places.memory, exec_linkScript]
  split
  · exact ⟨rfl, rfl⟩
  · exact ⟨rfl, rfl⟩

theorem exec_linkScript_ok {extensions : List Text} {path text linked : Text}
    {table : Option Script.AssetTable} {s : Session Trees}
    (h : (exec (linkScript Places.memory.source extensions path text) s).1 = .ok (linked, table)) :
    linked = linkedText s.storage.source extensions path text := by
  rw [Places.memory, exec_linkScript] at h
  split at h
  · rename_i hroot
    cases h
    rw [linkedText, if_pos hroot]
  · rename_i hroot
    cases h
    rw [linkedText, if_neg hroot]

theorem isQuiet_markersOf (path text : Text) :
    IsQuiet (markersOf path text : Build Trees (List Script.ClassMarker)) := by
  unfold markersOf
  split
  · exact isQuiet_pure _
  · exact isQuiet_throw _

/-- Writing a text makes its file, or fails and makes nothing. -/
theorem makes_writeText {path : Text} {text : CodeText} (hkey : Path.key path = path)
    (hdue : due source settings path = (Utf8.encodeCode text).toOption) :
    Makes source (due source settings) {path}
      (Build.write (Places.memory.output.writeText path text)) := by
  cases hencode : Utf8.encodeCode text with
  | ok bytes =>
      have hwrite : Places.memory.output.writeText path text =
          Places.memory.output.writeBytes path bytes := by
        funext trees
        simp [Places.memory, View.memory, hencode]
      rw [hwrite]
      apply makes_write hkey
      rw [hdue, hencode]
      rfl
  | error e =>
      intro s hs
      have hwrite : Places.memory.output.writeText path text s.storage =
          (.error (.unencodable e), s.storage) := by
        simp [Places.memory, View.memory, hencode]
      rw [exec_write, hwrite]
      exact ⟨.refl _, hs, fun _ hok => by cases hok⟩

theorem makes_writeFile {path text : Text} (hkey : Path.key path = path)
    (hdue : due source settings path = some (Utf8.encode text)) :
    Makes source (due source settings) {path} (writeFile Places.memory.output path text) := by
  have htext : due source settings path =
      (Utf8.encodeCode (CodePoint.ofText text)).toOption := by
    rw [hdue, Utf8.encodeCode_ofText]
    rfl
  exact (makes_writeText hkey htext).bind_quiet fun _ =>
    isQuiet_modify (fun _ => rfl) fun _ => rfl

/-- Reading a text: what follows may rely on the text being that of the collection. -/
theorem makes_readText {α : Type} {files : Set Text} {path : Text} {next : Text → Build Trees α}
    (hkey : Path.key path = path)
    (hnext : ∀ text, textAt source path = some text →
      Makes source (due source settings) files (next text)) :
    Makes source (due source settings) files
      (do next (← readable path (Places.memory.source.readText (← Build.storage) path))) := by
  apply isQuiet_storage.bind_makes
  intro s storage hs hstorage
  apply (isQuiet_readable _ _).bind_makes
  intro s' text _ hread
  apply hnext
  have htext := readText_ok (exec_readable_ok hread)
  have hsource : storage.source = source := by
    cases hstorage
    exact hs.source_eq
  rwa [hsource, hkey] at htext

theorem makes_bundleScript {path : Text} (hkey : Path.key path = path)
    (hdue : due source settings path = bundledBytes source settings path)
    (hkind : FileKind.ofPath path = .script) :
    Makes source (due source settings) (filesFor source path)
      (bundleScript Places.memory settings path) := by
  apply makes_readText hkey
  intro text htext
  have hlibraries : librariesFor source path =
      { key | ∃ reference ∈ Script.libraryReferences text, key = libraryPath reference.file } := by
    ext key
    simp [librariesFor, scriptAt, hkind, htext]
  rw [filesFor, hlibraries]
  apply (makes_copyLibraries fun _ h => Script.isSegment_of_mem_libraryReferences h).bind
  intro _ _ _ _
  apply (isQuiet_markersOf path text).bind_makes
  intro _ markers _ _
  apply (isQuiet_linkScript settings.extensions path text).bind_makes
  rintro s ⟨linked, table⟩ hs hlink
  apply (isQuiet_stamp settings.header path linked).bind_makes
  intro s' stamped _ hstamp
  have hlinked := exec_linkScript_ok hlink
  have hstamped : stamped = License.stamp settings.header linked := by
    rw [exec_stamp] at hstamp
    cases hstamp
    rfl
  refine (makes_writeFile hkey ?_).bind_quiet fun _ => isQuiet_pure _
  rw [hdue, bundledBytes, hkind, htext, hstamped, hlinked, hs.source_eq]
  rfl

theorem librariesFor_eq_empty {path : Text} (hkind : FileKind.ofPath path ≠ .script) :
    librariesFor source path = ∅ := by
  ext key
  simp [librariesFor, scriptAt, hkind]

theorem makes_bundleStylesheet {path : Text} (hkey : Path.key path = path)
    (hdue : due source settings path = bundledBytes source settings path)
    (hkind : FileKind.ofPath path = .stylesheet) :
    Makes source (due source settings) {path} (bundleStylesheet Places.memory settings path) := by
  apply makes_readText hkey
  intro text htext
  apply (isQuiet_stamp settings.header path text).bind_makes
  intro s stamped _ hstamp
  have hstamped : stamped = License.stamp settings.header text := by
    rw [exec_stamp] at hstamp
    cases hstamp
    rfl
  apply makes_writeFile hkey
  rw [hdue, bundledBytes, hkind, htext, hstamped]
  rfl

theorem makes_copyFile {path : Text} (hkey : Path.key path = path)
    (hdue : due source settings path = bundledBytes source settings path)
    (hkind : FileKind.ofPath path = .other) :
    Makes source (due source settings) {path} (copyFile Places.memory path) := by
  apply isQuiet_storage.bind_makes
  intro s storage hs hstorage
  apply (isQuiet_readable _ _).bind_makes
  intro s' bytes _ hread
  have hget : source.get? path = some bytes := by
    have hbytes : storage.source.readBytes path = .ok bytes := exec_readable_ok hread
    cases hstorage
    rw [hs.source_eq, Tree.readBytes, hkey] at hbytes
    split at hbytes
    · rename_i found hfound
      cases hbytes
      exact hfound
    · cases hbytes
  have hbytes : due source settings path = some bytes := by
    rw [hdue, bundledBytes, hkind, hget]
  exact (makes_write hkey hbytes).bind_quiet fun _ => isQuiet_modify (fun _ => rfl) fun _ => rfl

theorem makes_bundleFile {path : Text} (hkey : Path.key path = path)
    (hdue : due source settings path = bundledBytes source settings path) :
    Makes source (due source settings) (filesFor source path)
      (bundleFile Places.memory settings path) := by
  unfold bundleFile
  cases hkind : FileKind.ofPath path with
  | script => exact makes_bundleScript hkey hdue hkind
  | stylesheet =>
      rw [filesFor, librariesFor_eq_empty (by simp [hkind]), Set.empty_union]
      exact (makes_bundleStylesheet hkey hdue hkind).bind_quiet fun _ => isQuiet_pure _
  | other =>
      rw [filesFor, librariesFor_eq_empty (by simp [hkind]), Set.empty_union]
      exact (makes_copyFile hkey hdue hkind).bind_quiet fun _ => isQuiet_pure _

/-! ## Addons -/

theorem makes_bundleFiles (hnormal : source.Normal) {addon : Text} {files : List Text}
    (h : ∀ file ∈ files, addonFile addon file ∈ source.keys) :
    Makes source (due source settings)
      { key | ∃ file ∈ files, key ∈ filesFor source (addonFile addon file) }
      (bundleFiles Places.memory settings (addonsDir ++ '/' :: addon) files) := by
  induction files with
  | nil =>
      have hnone : { key | ∃ file ∈ ([] : List Text),
          key ∈ filesFor source (addonFile addon file) } = ∅ := by
        ext key
        simp
      rw [hnone]
      exact (isQuiet_pure []).makes
  | cons file rest ih =>
      have hsplit : { key | ∃ f ∈ file :: rest, key ∈ filesFor source (addonFile addon f) } =
          filesFor source (addonFile addon file) ∪
            { key | ∃ f ∈ rest, key ∈ filesFor source (addonFile addon f) } := by
        ext key
        simp
      have hkey : Path.key (addonFile addon file) = addonFile addon file :=
        (hnormal.isKey _ (h file List.mem_cons_self)).key_eq
      have hrest := ih fun f hf => h f (List.mem_cons_of_mem _ hf)
      rw [hsplit]
      apply (makes_bundleFile hkey (due_addonFile source settings addon file)).bind
      intro _ markers _ _
      exact hrest.bind_quiet fun others => isQuiet_pure _

theorem isQuiet_recordRules (sheet : Text) (rules : List Stylesheet.RestyledRule) :
    IsQuiet (recordRules sheet rules : Build Trees Unit) := by
  induction rules with
  | nil => exact isQuiet_pure ()
  | cons rule rest ih => exact (isQuiet_record _).bind fun _ => ih

theorem isQuiet_restyle (host : View Trees) (directory : Text)
    (mappings : List Stylesheet.ClassMapping) : IsQuiet (restyle host directory mappings) := by
  induction mappings with
  | nil => exact isQuiet_pure 0
  | cons mapping rest ih =>
      have hone : IsQuiet (restyleOne host directory mapping) := by
        apply isQuiet_storage.bind
        intro storage
        apply (isQuiet_ofExcept _).bind
        intro rules
        apply (isQuiet_recordRules _ _).bind
        intro _
        refine IsQuiet.bind ?_ fun _ => isQuiet_pure _
        exact isQuiet_modify (fun _ => rfl) fun _ => rfl
      exact hone.bind fun _ => ih.bind fun _ => isQuiet_pure _

theorem keyStart_addon {addon : Text} (h : Path.IsSegment addon) :
    Tree.keyStart (addonsDir ++ '/' :: addon) = addonsDir ++ '/' :: addon ++ ['/'] := by
  have hdir : Path.IsSegment addonsDir := by decide
  exact Tree.keyStart_of_key (hdir.isKey.child (by decide) h).key_eq (by simp)

theorem makes_bundleAddon (hnormal : source.Normal) {addon : Text} (h : Path.IsSegment addon) :
    Makes source (due source settings) (addonFiles source addon)
      (bundleAddon Places.memory settings addon) := by
  apply isQuiet_storage.bind_makes
  intro s storage hs hstorage
  have hsource : storage.source = source := by
    cases hstorage
    exact hs.source_eq
  apply (isQuiet_ofExcept _).bind_makes
  intro _ isDir _ _
  split
  · apply (isQuiet_ofExcept _).bind_makes
    intro s' files _ hwalk
    have hfiles : files = source.walk (addonsDir ++ '/' :: addon) := by
      rw [exec_ofExcept] at hwalk
      cases hwalk
      rw [← hsource]
    have hmem : ∀ file, file ∈ files ↔ addonFile addon file ∈ source.keys := by
      intro file
      rw [hfiles, Tree.mem_walk, keyStart_addon h]
      simp [addonFile]
    have hset : addonFiles source addon =
        { key | ∃ file ∈ files, key ∈ filesFor source (addonFile addon file) } := by
      ext key
      simp [addonFiles, hmem]
    rw [hset]
    apply (makes_bundleFiles hnormal fun file hfile => (hmem file).mp hfile).bind_quiet
    intro markers
    exact (isQuiet_restyle _ _ _).bind fun _ => isQuiet_pure _
  · exact makes_throw _

theorem makes_bundleAddons (hnormal : source.Normal) {addons : List Text}
    (h : ∀ addon ∈ addons, Path.IsSegment addon) :
    Makes source (due source settings) { key | ∃ addon ∈ addons, key ∈ addonFiles source addon }
      (bundleAddons Places.memory settings addons) := by
  induction addons with
  | nil =>
      have hnone : { key | ∃ addon ∈ ([] : List Text), key ∈ addonFiles source addon } = ∅ := by
        ext key
        simp
      rw [hnone]
      exact (isQuiet_pure ()).makes
  | cons addon rest ih =>
      have hsplit : { key | ∃ a ∈ addon :: rest, key ∈ addonFiles source a } =
          addonFiles source addon ∪ { key | ∃ a ∈ rest, key ∈ addonFiles source a } := by
        ext key
        simp
      have hrest := ih fun a ha => h a (List.mem_cons_of_mem _ ha)
      rw [hsplit]
      apply (isQuiet_startPhase _).bind_makes
      intro _ _ _ _
      have haddon : Makes source (due source settings) (addonFiles source addon)
          (bundleAddon Places.memory settings addon) :=
        makes_bundleAddon hnormal (h addon List.mem_cons_self)
      exact (haddon.mapFailure _).closePhase.bind fun _ _ _ _ => hrest

/-! ## Catalogs -/

/-- The languages of a tree, in order. -/
def treeLanguages (tree : Tree) : List Text :=
  (tree.listDir catalogsDir).filter fun name => tree.isDir (catalogsDir ++ '/' :: name)

theorem languages_memory (trees : Trees) :
    languages Places.memory.source trees = .ok (treeLanguages trees.source) := by
  have hkeep : ∀ name, Places.memory.source.isDir trees (catalogsDir ++ '/' :: name) =
      .ok (trees.source.isDir (catalogsDir ++ '/' :: name)) := fun _ => rfl
  exact Script.filterM_ok hkeep (trees.source.listDir catalogsDir)

private theorem isSegment_of_mem_listDir (hnormal : source.Normal) {language : Text}
    (h : language ∈ source.listDir catalogsDir) : Path.IsSegment language := by
  obtain ⟨rest, hkey, rfl⟩ := Tree.mem_listDir.mp h
  have hdir : Path.IsSegment catalogsDir := by decide
  rw [Tree.keyStart_of_key hdir.isKey.key_eq (by decide), List.append_assoc,
    List.singleton_append] at hkey
  have hparts := (hnormal.isKey _ hkey).segments_below hdir
  exact hparts _ (List.mem_of_mem_head? (head?_split '/' rest))

/-- The languages are the names of directories with something in them. -/
theorem mem_treeLanguages (hnormal : source.Normal) {language : Text} :
    language ∈ treeLanguages source ↔ Path.IsSegment language ∧
      ∃ file, catalogsDir ++ '/' :: language ++ '/' :: file ∈ source.keys := by
  have hdir : Path.IsSegment catalogsDir := by decide
  have hbelow : Path.IsSegment language → (source.isDir (catalogsDir ++ '/' :: language) = true ↔
      ∃ file, catalogsDir ++ '/' :: language ++ '/' :: file ∈ source.keys) := by
    intro h
    rw [Tree.isDir, (hdir.isKey.child (by decide) h).key_eq, Bool.or_eq_true, Tree.hasBelow_iff]
    simp
  rw [treeLanguages, List.mem_filter]
  constructor
  · rintro ⟨hlist, hisDir⟩
    have hsegment := isSegment_of_mem_listDir hnormal hlist
    exact ⟨hsegment, (hbelow hsegment).mp hisDir⟩
  · rintro ⟨hsegment, file, hfile⟩
    refine ⟨Tree.mem_listDir.mpr ⟨language ++ '/' :: file, ?_, ?_⟩, (hbelow hsegment).mpr ⟨file, hfile⟩⟩
    · rw [Tree.keyStart_of_key hdir.isKey.key_eq (by decide)]
      simpa using hfile
    · symm
      rw [List.takeWhile_append_of_pos]
      · simp
      · intro c hc
        simpa using fun heq : c = '/' => hsegment.slash_not_mem (heq ▸ hc)

theorem isKey_catalogPath {language addon : Text} (hlanguage : Path.IsSegment language)
    (haddon : Path.IsSegment addon) :
    Path.key (catalogPath language addon) = catalogPath language addon := by
  have hdir : Path.IsSegment catalogsDir := by decide
  have hlanguageDir := hdir.isKey.child (by decide) hlanguage
  have hfile : Path.IsSegment (addon ++ ".json".toList) := haddon.append_json
  have hchild := hlanguageDir.child (by simp) hfile
  have heq : catalogPath language addon =
      catalogsDir ++ '/' :: language ++ '/' :: (addon ++ ".json".toList) := by
    simp [catalogPath]
  rw [heq]
  exact hchild.key_eq

theorem readJson_ok {trees : Trees} {path : Text} {invalid : Text → Fault} {catalog : Json.Value}
    (h : readJson Places.memory.source trees path invalid = .ok catalog) :
    catalogAt trees.source (Path.key path) = some catalog := by
  unfold readJson at h
  split at h
  · cases h
  · cases h
  · rename_i text hread
    rw [catalogAt, readText_ok hread]
    split at h
    · rename_i value hvalue
      cases h
      simp [hvalue, Except.toOption]
    · cases h
    · cases h

theorem mem_keys_of_catalogAt {tree : Tree} {key : Text} {catalog : Json.Value}
    (h : catalogAt tree key = some catalog) : key ∈ tree.keys := by
  obtain ⟨text, htext, -⟩ := Option.bind_eq_some_iff.mp h
  obtain ⟨bytes, hbytes, -⟩ := Option.bind_eq_some_iff.mp htext
  exact Tree.mem_keys_of_get? hbytes

theorem makes_writeCatalog {language addon : Text}
    (hkey : Path.key (catalogPath language addon) = catalogPath language addon) :
    Makes source (due source settings)
      { key | key = catalogPath language addon ∧ key ∈ source.keys }
      (writeCatalog Places.memory language addon) := by
  apply isQuiet_storage.bind_makes
  intro s storage hs hstorage
  have hsource : storage.source = source := by
    cases hstorage
    exact hs.source_eq
  apply (isQuiet_ofExcept _).bind_makes
  intro _ present _ hpresent
  rw [exec_ofExcept] at hpresent
  split
  · apply (isQuiet_ofExcept _).bind_makes
    intro _ catalog _ hread
    have hcatalog := readJson_ok (exec_ofExcept_ok hread)
    rw [hsource, hkey] at hcatalog
    have hfiles : { key | key = catalogPath language addon ∧ key ∈ source.keys } =
        {catalogPath language addon} := by
      ext key
      constructor
      · exact fun h => h.1
      · rintro rfl
        exact ⟨rfl, mem_keys_of_catalogAt hcatalog⟩
    have hdue : due source settings (catalogPath language addon) =
        (Utf8.encodeCode (Json.minimal catalog)).toOption := by
      rw [due_catalogPath, catalogBytes, hcatalog]
      rfl
    rw [hfiles]
    refine IsQuiet.bind_makes ?_ fun _ _ _ _ => ?_
    · exact isQuiet_modify (fun _ => rfl) fun _ => rfl
    · exact (makes_writeText hkey hdue).bind_quiet fun _ => isQuiet_record _
  · rename_i habsent
    have hfiles : { key | key = catalogPath language addon ∧ key ∈ source.keys } = ∅ := by
      rw [Set.eq_empty_iff_forall_notMem]
      rintro key ⟨rfl, hmem⟩
      apply habsent
      have hpresent' : storage.source.present (catalogPath language addon) = present := by
        cases hpresent
        rfl
      rw [← hpresent', hsource, Tree.present, Tree.isFile, hkey,
        (Tree.isSome_get? source _).mpr hmem, Bool.true_or]
    rw [hfiles]
    exact (isQuiet_pure _).makes

theorem makes_writeLanguage {language : Text} {addons : List Text}
    (hlanguage : Path.IsSegment language) (haddons : ∀ addon ∈ addons, Path.IsSegment addon) :
    Makes source (due source settings) (catalogFiles source [language] addons)
      (writeLanguage Places.memory language addons) := by
  induction addons with
  | nil =>
      have hnone : catalogFiles source [language] [] = ∅ := by
        ext key
        simp [catalogFiles]
      rw [hnone]
      exact (isQuiet_pure ()).makes
  | cons addon rest ih =>
      have hsplit : catalogFiles source [language] (addon :: rest) =
          { key | key = catalogPath language addon ∧ key ∈ source.keys } ∪
            catalogFiles source [language] rest := by
        ext key
        simp [catalogFiles]
      have hkey := isKey_catalogPath hlanguage (haddons addon List.mem_cons_self)
      have hrest := ih fun a ha => haddons a (List.mem_cons_of_mem _ ha)
      rw [hsplit]
      exact (makes_writeCatalog hkey).bind fun _ _ _ _ => hrest

theorem makes_writeLanguages {languages addons : List Text}
    (hlanguages : ∀ language ∈ languages, Path.IsSegment language)
    (haddons : ∀ addon ∈ addons, Path.IsSegment addon) :
    Makes source (due source settings) (catalogFiles source languages addons)
      (writeLanguages Places.memory addons languages) := by
  induction languages with
  | nil =>
      have hnone : catalogFiles source [] addons = ∅ := by
        ext key
        simp [catalogFiles]
      rw [hnone]
      exact (isQuiet_pure ()).makes
  | cons language rest ih =>
      have hsplit : catalogFiles source (language :: rest) addons =
          catalogFiles source [language] addons ∪ catalogFiles source rest addons := by
        ext key
        simp [catalogFiles]
      have hfirst : Makes source (due source settings) (catalogFiles source [language] addons)
          (writeLanguage Places.memory language addons) :=
        makes_writeLanguage (hlanguages language List.mem_cons_self) haddons
      have hrest := ih fun l hl => hlanguages l (List.mem_cons_of_mem _ hl)
      rw [hsplit, writeLanguages]
      refine IsQuiet.bind_makes ?_ fun _ _ _ _ => ?_
      · exact isQuiet_modify (fun _ => rfl) fun _ => rfl
      · exact hfirst.bind fun _ _ _ _ => hrest

theorem makes_writeCatalogs (hnormal : source.Normal) {addons : List Text}
    (h : ∀ addon ∈ addons, Path.IsSegment addon) :
    Makes source (due source settings) (catalogFiles source (treeLanguages source) addons)
      (writeCatalogs Places.memory addons) := by
  apply isQuiet_storage.bind_makes
  intro s storage hs hstorage
  apply (isQuiet_ofExcept _).bind_makes
  intro _ found _ hfound
  have hlanguages : found = treeLanguages source := by
    rw [exec_ofExcept, languages_memory] at hfound
    cases hfound
    cases hstorage
    rw [hs.source_eq]
  rw [hlanguages]
  have hsegments : ∀ language ∈ treeLanguages source, Path.IsSegment language :=
    fun _ hlanguage => ((mem_treeLanguages hnormal).mp hlanguage).1
  exact (makes_writeLanguages hsegments h).bind_quiet fun _ => isQuiet_pure _

theorem exec_writeCatalogs_ok {addons languages : List Text} {s : Session Trees}
    (h : (exec (writeCatalogs Places.memory addons) s).1 = .ok languages) :
    languages = treeLanguages s.storage.source := by
  simp only [writeCatalogs, exec_bind, exec_storage, exec_ofExcept, languages_memory] at h
  split at h
  · cases h
    rfl
  · cases h

end AddonBundle.Bundle
