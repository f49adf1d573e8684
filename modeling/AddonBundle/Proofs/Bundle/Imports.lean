import AddonBundle.Proofs.Bundle.Output
/-!
# Imports of linked scripts

The header of a linked script imports media files beside the script and shared libraries. A
successful run leaves every one of these files in the output, where the import leads.
-/

namespace AddonBundle.Bundle

open Build Text

variable {settings : Settings} {before : Trees} {report : Report} {s' : Session Trees}

/-! ## The directory of a script -/

theorem join_child (addon : Text) (names : List Text) (name : Text) :
    join ['/'] (addonsDir :: addon :: names) ++ '/' :: name =
      addonFile addon (join ['/'] (names ++ [name])) := by
  have happend : join ['/'] ((addonsDir :: addon :: names) ++ [name]) =
      join ['/'] (addonsDir :: addon :: names) ++ '/' :: name := by
    rw [join_append (by simp) (by simp)]
    simp
  rw [← happend, List.cons_append, List.cons_append, join_cons_cons, join_cons (by simp), addonFile]
  simp

/-- The directory of a file of an addon: the addon's, or one below it. -/
theorem exists_directory {addon file : Text} (haddon : Path.IsSegment addon)
    (hkey : Path.IsKey (addonFile addon file)) :
    ∃ names, (∀ name ∈ names, Path.IsSegment name) ∧
      Path.parent (addonFile addon file) = join ['/'] (addonsDir :: addon :: names) := by
  have hdir : Path.IsSegment addonsDir := by decide
  have hrest : ∀ part ∈ addon :: split '/' file, Path.IsSegment part := by
    have heq : addonFile addon file = addonsDir ++ '/' :: (addon ++ '/' :: file) := by
      simp [addonFile]
    rw [heq] at hkey
    have hparts := hkey.segments_below hdir
    rwa [split_append_cons file haddon.slash_not_mem] at hparts
  obtain ⟨names, last, hsplit⟩ : ∃ names last, split '/' file = names ++ [last] :=
    ⟨_, _, (List.dropLast_append_getLast (split_ne_nil '/' file)).symm⟩
  rw [hsplit] at hrest
  have hlast : Path.IsSegment last := hrest last (by simp)
  have hnames : ∀ name ∈ names, Path.IsSegment name := fun name hname => hrest name (by simp [hname])
  have hall : ∀ name ∈ addonsDir :: addon :: names, Path.IsSegment name := by
    intro name hname
    rcases List.mem_cons.mp hname with rfl | hname
    · exact hdir
    · rcases List.mem_cons.mp hname with rfl | hname
      · exact haddon
      · exact hnames name hname
  have hfile : addonFile addon file =
      join ['/'] (addonsDir :: addon :: names) ++ '/' :: last := by
    rw [join_child, ← hsplit, join_split]
  refine ⟨names, hnames, ?_⟩
  have hdirectory : Path.IsKey (join ['/'] (addonsDir :: addon :: names)) :=
    ⟨_, Path.isNormal_of_segments hall, rfl⟩
  rw [hfile]
  refine hdirectory.parent_child ?_ hlast.slash_not_mem
  rw [join_cons_cons]
  simp

/-- From the directory of a script, the way to the libraries leads to the libraries. -/
theorem normalize_librariesPath {addon library : Text} {names : List Text}
    (h : ∀ name ∈ addon :: names, Path.IsSegment name) (hlibrary : Path.IsSegment library) :
    Path.normalize (join ['/'] (addonsDir :: addon :: names) ++ '/' ::
      Script.librariesPath (join ['/'] (addonsDir :: addon :: names)) ++ '/' :: library) =
      libraryPath library := by
  have hdir : Path.IsSegment addonsDir := by decide
  have hlibraries : Path.IsSegment Script.librariesDir := by decide
  have hnames : ∀ name ∈ addonsDir :: addon :: names, Path.IsSegment name := by
    intro name hname
    rcases List.mem_cons.mp hname with rfl | hname
    · exact hdir
    · exact h name hname
  have htargets : ∀ name ∈ [Script.librariesDir, library], Path.IsSegment name := by
    simp [hlibraries, hlibrary]
  have hne : join ['/'] (addonsDir :: addon :: names) ≠ [] := by
    rw [join_cons_cons]
    simp
  have hrelative := Path.relative_root hlibraries hnames (by decide)
  have hback := Path.normalize_back (by simp) hnames htargets
  rw [Script.librariesPath, if_neg (by simpa using hne), hrelative]
  rw [show libraryPath library = join ['/'] [Script.librariesDir, library] by
    simp [libraryPath, join_cons_cons], ← hback]
  congr 1
  rw [List.length_cons, join_append (by simp) (by simp), join_append (by simp) (by simp),
    join_append (by simp) (by simp)]
  simp [join_cons_cons]

/-! ## Imports -/

/-- A script that is linked, in whatever session, is linked with the media files of the tree. -/
theorem exec_linkScript_some {extensions : List Text} {path text linked : Text}
    {table : Script.AssetTable} {s : Session Trees}
    (h : (exec (linkScript Places.memory.source extensions path text) s).1 =
      .ok (linked, some table)) :
    let media := Script.treeMedia s.storage.source extensions (Path.parent path)
    linked = (Script.link media path text).text ∧ table = (Script.link media path text).table := by
  rw [Places.memory, exec_linkScript] at h
  split at h
  · cases h
    exact ⟨rfl, rfl⟩
  · cases h

/-- A media file beside a script of an addon is a file of the addon. -/
theorem mem_keys_of_mem_treeMedia {source : Tree} (hnormal : source.Normal)
    {extensions names : List Text} {addon name : Text}
    (hnames : ∀ part ∈ addon :: names, Path.IsSegment part)
    (h : name ∈ Script.treeMedia source extensions (join ['/'] (addonsDir :: addon :: names))) :
    addonFile addon (join ['/'] (names ++ [name])) ∈ source.keys := by
  have hdir : Path.IsSegment addonsDir := by decide
  have hall : ∀ part ∈ addonsDir :: addon :: names, Path.IsSegment part := by
    intro part hpart
    rcases List.mem_cons.mp hpart with rfl | hpart
    · exact hdir
    · exact hnames part hpart
  have hne : join ['/'] (addonsDir :: addon :: names) ≠ [] := by
    rw [join_cons_cons]
    simp
  obtain ⟨-, hkey, -, -⟩ := (Script.mem_treeMedia hnormal).mp h
  rw [Tree.keyStart_of_key (Path.key_join (Path.isNormal_of_segments hall)) hne,
    List.append_assoc, List.singleton_append, join_child] at hkey
  exact hkey

theorem get?_library
    (hcomplete : IsComplete settings { before with output := cleaned settings before.output }
      report s') {addon file text : Text} (haddon : addon ∈ settings.addons)
    (hscript : scriptAt before.source (addonFile addon file) = some text)
    {reference : Script.LibraryReference} (h : reference ∈ Script.libraryReferences text) :
    ∃ bytes, before.source.get? (libraryPath reference.file) = some bytes ∧
      s'.storage.output.get? (libraryPath reference.file) = some bytes := by
  have hmade : libraryPath reference.file ∈ bundleFilesOf before.source settings.addons :=
    ⟨addon, haddon, file, mem_keys_of_scriptAt hscript, .inl ⟨text, hscript, reference, h, rfl⟩⟩
  obtain ⟨bytes, hdue, hget⟩ := hcomplete.made _ (.inl hmade)
  rw [due_libraryPath] at hdue
  exact ⟨bytes, hdue, hget⟩

/-- No import of a linked script leads nowhere. Whatever session links the script of an addon,
the output holds the linked script; each asset of its table lies beside it, and each library of
its table where the import in its header leads. -/
theorem run_imports (hnormal : before.source.Normal)
    (hsegments : ∀ addon ∈ settings.addons, Path.IsSegment addon)
    (h : run Places.memory settings { storage := before } = (.ok report, s'))
    {addon file text linked : Text} {table : Script.AssetTable} {s : Session Trees}
    (haddon : addon ∈ settings.addons)
    (hscript : scriptAt before.source (addonFile addon file) = some text)
    (hs : s.storage.source = before.source)
    (hlink : (exec (linkScript Places.memory.source settings.extensions (addonFile addon file)
      text) s).1 = .ok (linked, some table)) :
    let directory := Path.parent (addonFile addon file)
    let output := s'.storage.output
    linked = table.header (Script.librariesPath directory) ++ Script.linkSites text ∧
    output.get? (addonFile addon file) =
      some (Utf8.encode (License.stamp settings.header linked)) ∧
    (∀ name ∈ table.assets, directory ++ '/' :: name ∈ output.keys ∧
      (FileKind.ofPath (directory ++ '/' :: name) = .other →
        output.get? (directory ++ '/' :: name) =
          before.source.get? (directory ++ '/' :: name))) ∧
    ∀ library ∈ table.libraries,
      Path.normalize (directory ++ '/' :: Script.librariesPath directory ++ '/' :: library) =
        libraryPath library ∧
      libraryPath library ∈ output.keys ∧
      output.get? (libraryPath library) = before.source.get? (libraryPath library) := by
  intro directory output
  have hcomplete := isComplete_of_run hnormal hsegments h
  have hfile := mem_keys_of_scriptAt hscript
  obtain ⟨names, hnames, hdirectory⟩ :=
    exists_directory (hsegments addon haddon) (hnormal.isKey _ hfile)
  have hparts : ∀ part ∈ addon :: names, Path.IsSegment part := by
    intro part hpart
    rcases List.mem_cons.mp hpart with rfl | hpart
    · exact hsegments part haddon
    · exact hnames part hpart
  have hlinked := exec_linkScript_ok hlink
  obtain ⟨hlinkedText, htable⟩ := exec_linkScript_some hlink
  rw [hs] at hlinked hlinkedText htable
  refine ⟨by rw [hlinkedText, htable]; rfl, ?_, ?_, ?_⟩
  · obtain ⟨bytes, hbytes, hget⟩ := get?_addonFile hcomplete haddon hfile
    obtain ⟨hkind, htext⟩ : FileKind.ofPath (addonFile addon file) = .script ∧
        textAt before.source (addonFile addon file) = some text := by
      unfold scriptAt at hscript
      split at hscript
      · exact ⟨‹_›, hscript⟩
      · cases hscript
    simp only [bundledBytes, hkind, htext, Option.map_some] at hbytes
    rw [hlinked]
    exact hget.trans hbytes.symm
  · intro name hname
    rw [htable] at hname
    have hasset : name ∈ Script.treeMedia before.source settings.extensions directory := hname
    rw [show directory = _ from hdirectory] at hasset ⊢
    have hkey := mem_keys_of_mem_treeMedia hnormal hparts hasset
    rw [join_child]
    obtain ⟨bytes, hbytes, hget⟩ := get?_addonFile hcomplete haddon hkey
    refine ⟨Tree.mem_keys_of_get? hget, ?_⟩
    intro hkind
    simp only [bundledBytes, hkind] at hbytes
    exact hget.trans hbytes.symm
  · intro library hlibrary
    rw [htable] at hlibrary
    obtain ⟨load, hload, rfl⟩ := List.mem_map.mp (mem_distinct.mp hlibrary)
    have hreference : ⟨load.value, .dynamicLoad⟩ ∈ Script.libraryReferences text :=
      List.mem_append_right _ (List.mem_map.mpr ⟨load, hload, rfl⟩)
    obtain ⟨bytes, hsource, hget⟩ := get?_library hcomplete haddon hscript hreference
    refine ⟨?_, Tree.mem_keys_of_get? hget, hget.trans hsource.symm⟩
    rw [show directory = _ from hdirectory]
    exact normalize_librariesPath hparts (Script.isSegment_of_mem_libraryReferences hreference)

theorem run_imports_small :
    let output := (run Places.memory smallSettings { storage := smallTrees }).2.storage.output
    "addons/a/x.js".toList ∈ output.keys ∧ "libraries/l.js".toList ∈ output.keys := by
  obtain ⟨report, hreport⟩ := exists_run_small
  have hscript : scriptAt smallTrees.source (addonFile ['a'] "x.js".toList) =
      some "load(addon.self.lib + \"/l.js\")".toList := by
    decide +kernel
  have hlink : (exec (linkScript Places.memory.source smallSettings.extensions
      (addonFile ['a'] "x.js".toList) "load(addon.self.lib + \"/l.js\")".toList)
      { storage := smallTrees }).1.toOption.map (fun linked => linked.2) =
      some (some ⟨["x.js".toList], ["l.js".toList]⟩) := by
    decide +kernel
  cases hexec : (exec (linkScript Places.memory.source smallSettings.extensions
      (addonFile ['a'] "x.js".toList) "load(addon.self.lib + \"/l.js\")".toList)
      { storage := smallTrees }).1 with
  | error failure =>
      rw [hexec] at hlink
      cases hlink
  | ok linked =>
      rw [hexec] at hlink
      obtain ⟨linkedText, table⟩ := linked
      obtain rfl : table = some ⟨["x.js".toList], ["l.js".toList]⟩ := Option.some.inj hlink
      obtain ⟨-, -, hassets, hlibraries⟩ := run_imports (Tree.normal_ofFiles _) (by decide)
        (Prod.ext hreport rfl) (by decide) hscript rfl hexec
      exact ⟨(hassets _ List.mem_cons_self).1, (hlibraries _ List.mem_cons_self).2.1⟩

end AddonBundle.Bundle
