import AddonBundle.Bundle.Libraries
import AddonBundle.Proofs.Bundle.Linking
import AddonBundle.Proofs.Script.Binding
/-!
# What a linked path denotes

A linked script asks for a file by a path alone: the root that stood before the path is gone. So a
path that is written out denotes the media file of its name beside the script, if there is one, and
otherwise the shared library, whatever its root was. Root and file agree exactly when the path of
the script's own directory names a media file there, and the path of the libraries does not.
-/

namespace AddonBundle

open Text

namespace Bundle

variable {σ : Type}

/-- A file directly in a directory of a tree that has one of the extensions and is no directory. -/
def IsMediaFile (tree : Tree) (extensions : List Text) (directory name : Text) : Prop :=
  '/' ∉ name ∧ Tree.keyStart directory ++ name ∈ tree.keys ∧
    tree.isDir (Path.child directory name) = false ∧
    ∃ extension ∈ extensions, lower extension <:+ lower name

theorem mem_treeMedia_iff {tree : Tree} (hnormal : tree.Normal) {extensions : List Text}
    {directory name : Text} :
    name ∈ Script.treeMedia tree extensions directory ↔
      IsMediaFile tree extensions directory name := by
  refine (Script.mem_treeMedia hnormal).trans ?_
  simp [IsMediaFile, Script.isMedia]

/-- The way to the libraries leads from a directory of the tree to the libraries. -/
theorem normalize_way {names : List Text} {file : Text}
    (hnames : ∀ part ∈ names, Path.IsSegment part) (hfile : Path.IsSegment file) :
    Path.normalize (Path.append (join ['/'] names)
      (Script.librariesPath (join ['/'] names) ++ '/' :: file)) = libraryPath file := by
  have hlibraries : ∀ part ∈ [Script.librariesDir], Path.IsSegment part := by decide
  have hway : Script.librariesPath (join ['/'] names) =
      Path.relative (join ['/'] [Script.librariesDir]) (join ['/'] names) := by
    unfold Script.librariesPath
    split
    · rename_i hempty
      rw [List.isEmpty_iff.mp hempty]
      rfl
    · rfl
  rw [hway, Path.normalize_relative hnames hlibraries hfile]
  rfl

/-- What a path written out denotes once its script is linked. The table answers with the media
file of that name beside the script, if there is one, and otherwise with the shared library; so
the answer is the file that the root of the path says exactly when a path of the script's own
directory names a media file and a path of the libraries names none. -/
theorem linkScript_denotes (get : σ → Tree) (set : Tree → σ → σ) (extensions : List Text)
    (path text : Text) (s : Session σ) (hnormal : (get s.storage).Normal) {newText : Text}
    {table : Script.AssetTable}
    (h : (Build.exec (linkScript (.memory get set) extensions path text) s).1 =
      .ok (newText, some table)) :
    let directory := Path.parent path
    let way := Script.librariesPath directory
    newText = table.header way ++ Script.linkSites text ∧
    ∀ site ∈ Script.pathSites text, ∀ name binding,
      Script.literalPath site.value.operand = some ('/' :: name) →
      table.get? ('/' :: name) = some binding →
      (IsMediaFile (get s.storage) extensions directory name →
        table.Imports way binding (Script.PathRoot.dir.address way name)) ∧
      (¬ IsMediaFile (get s.storage) extensions directory name →
        table.Imports way binding (Script.PathRoot.lib.address way name) ∧
        ∀ names, (∀ part ∈ names, Path.IsSegment part) → directory = join ['/'] names →
          Path.normalize (Path.append directory (way ++ '/' :: name)) = libraryPath name) ∧
      (table.Imports way binding (site.value.root.address way name) ↔
        (site.value.root = .dir ↔ IsMediaFile (get s.storage) extensions directory name)) := by
  intro directory way
  rw [exec_linkScript] at h
  split at h
  · cases h
    refine ⟨rfl, ?_⟩
    intro site _ name binding _ hget
    set media := Script.treeMedia (get s.storage) extensions directory
    have hmedia : name ∈ media ↔ IsMediaFile (get s.storage) extensions directory name :=
      mem_treeMedia_iff hnormal
    have hdir := Script.AssetTable.root_eq_dir_iff hget
    have hiff := Script.AssetTable.imports_iff way hget
    rw [← hmedia]
    refine ⟨fun hasset => (hiff .dir).mpr (hdir.mpr hasset), ?_, ?_⟩
    · intro hasset
      obtain ⟨hroot, hlibrary⟩ := Script.AssetTable.mem_libraries_of_get? hget hasset
      refine ⟨(hiff .lib).mpr hroot, ?_⟩
      intro names hnames hdirectory
      obtain ⟨load, hload, rfl⟩ := List.mem_map.mp (mem_distinct.mp hlibrary)
      have hreference : ⟨load.value, .dynamicLoad⟩ ∈ Script.libraryReferences text :=
        List.mem_append_right _ (List.mem_map.mpr ⟨load, hload, rfl⟩)
      have hsegment := Script.isSegment_of_mem_libraryReferences hreference
      rw [show way = Script.librariesPath directory from rfl, hdirectory]
      exact normalize_way hnames hsegment
    · have hmem : binding.root = .dir ↔ name ∈ media := hdir
      rw [hiff, ← hmem]
      cases binding.root <;> cases site.value.root <;> simp
  · cases h

/-- A script that asks the libraries for an icon, which lies beside it, and its own directory for a
library, which it also loads. -/
def mixedScript : Text :=
  "addon.self.lib + \"/icon.svg\"; addon.self.dir + \"/l.js\"; addon.self.lib + \"/l.js\"".toList

def mixedTree : Tree :=
  .ofFiles [("a/icon.svg".toList, [])]

/-- The outcome of linking the script in the directory of the icon. -/
def mixedOutcome : Except Failure (Text × Option Script.AssetTable) :=
  (Build.exec (linkScript (.memory id fun tree _ => tree) [".svg".toList] "a/x.js".toList
    mixedScript) { storage := mixedTree }).1

private theorem mixedOutcome_eq : ∃ newText,
    mixedOutcome = .ok (newText, some ⟨["icon.svg".toList], ["l.js".toList]⟩) := by
  have htable : mixedOutcome.toOption.map (·.2) =
      some (some ⟨["icon.svg".toList], ["l.js".toList]⟩) := by
    decide +kernel
  cases hout : mixedOutcome with
  | error failure =>
      rw [hout] at htable
      cases htable
  | ok linked =>
      obtain ⟨newText, table⟩ := linked
      rw [hout] at htable
      exact ⟨newText, by rw [← Option.some.inj htable]⟩

private theorem exists_site_mixed {root : Script.PathRoot} {path : Text}
    (h : (root, some path) ∈ [(Script.PathRoot.lib, some "/icon.svg".toList),
      (.dir, some "/l.js".toList), (.lib, some "/l.js".toList)]) :
    ∃ site ∈ Script.pathSites mixedScript, site.value.root = root ∧
      Script.literalPath site.value.operand = some path := by
  have hsites : (Script.pathSites mixedScript).map
      (fun site => (site.value.root, Script.literalPath site.value.operand)) =
      [(.lib, some "/icon.svg".toList), (.dir, some "/l.js".toList),
        (.lib, some "/l.js".toList)] := by
    decide +kernel
  rw [← hsites] at h
  obtain ⟨site, hsite, heq⟩ := List.mem_map.mp h
  exact ⟨site, hsite, Prod.mk.inj heq⟩

theorem linkScript_denotes_mixed : ∃ newText table, ∃ site ∈ Script.pathSites mixedScript,
    ∃ binding, mixedOutcome = .ok (newText, some table) ∧ site.value.root = .lib ∧
      table.get? "/icon.svg".toList = some binding ∧
      table.Imports (Script.librariesPath ['a']) binding "./icon.svg".toList := by
  obtain ⟨newText, hout⟩ := mixedOutcome_eq
  obtain ⟨site, hsite, hroot, hliteral⟩ := exists_site_mixed List.mem_cons_self
  have hicon : IsMediaFile mixedTree [".svg".toList] ['a'] "icon.svg".toList :=
    (mem_treeMedia_iff (Tree.normal_ofFiles _)).mp (by decide +kernel)
  have hdenotes := (linkScript_denotes id (fun tree _ => tree) [".svg".toList] "a/x.js".toList
    mixedScript { storage := mixedTree } (Tree.normal_ofFiles _) hout).2 site hsite
    "icon.svg".toList (.asset 0) hliteral (by decide)
  exact ⟨newText, _, site, hsite, .asset 0, hout, hroot, by decide, hdenotes.1 hicon⟩

/-- The file that a linked path denotes is not always the one that its root says, for neither root:
here the icon is imported from beside the script, and the library from the libraries. -/
theorem linkScript_mixes : ∃ newText table, mixedOutcome = .ok (newText, some table) ∧
    ∀ root, ¬ ∀ site ∈ Script.pathSites mixedScript, site.value.root = root →
      ∀ name binding, Script.literalPath site.value.operand = some ('/' :: name) →
        table.get? ('/' :: name) = some binding →
        table.Imports (Script.librariesPath ['a']) binding
          (root.address (Script.librariesPath ['a']) name) := by
  obtain ⟨newText, hout⟩ := mixedOutcome_eq
  refine ⟨newText, _, hout, ?_⟩
  intro root hall
  cases root with
  | dir =>
      obtain ⟨site, hsite, hroot, hliteral⟩ := exists_site_mixed
        (List.mem_cons_of_mem _ List.mem_cons_self)
      have himports := hall site hsite hroot "l.js".toList (.library 0) hliteral (by decide)
      rw [Script.AssetTable.imports_iff _ (by decide)] at himports
      cases himports
  | lib =>
      obtain ⟨site, hsite, hroot, hliteral⟩ := exists_site_mixed List.mem_cons_self
      have himports := hall site hsite hroot "icon.svg".toList (.asset 0) hliteral (by decide)
      rw [Script.AssetTable.imports_iff _ (by decide)] at himports
      cases himports

end Bundle

end AddonBundle
