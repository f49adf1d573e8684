import AddonBundle.Proofs.Disk.Simulation
/-!
# Coherent trees

A tree in memory has no directories of its own: that a path is a directory, what it lists and what
is below it are all read off the keys of the files. After any changes at paths inside the root these
answers agree with one another and with the files that can be read.
-/

namespace AddonBundle

open Text

/-! ## Paths below a directory -/

namespace Path

/-- A normalized path to an entry below the place it is seen from. -/
def IsRelative (path : Text) : Prop :=
  key path = path ∧ IsInner path

instance (path : Text) : Decidable (IsRelative path) := by
  unfold IsRelative
  infer_instance

/-- A relative path is made of names. -/
theorem isRelative_iff {path : Text} :
    IsRelative path ↔ ∀ name ∈ split '/' path, IsSegment name := by
  constructor
  · rintro ⟨hkey, hinner⟩
    have hsegments := hinner.segments
    rwa [names, hkey] at hsegments
  · intro h
    have hkey : key path = path := by
      have hjoin := key_join (isNormal_of_segments h)
      rwa [join_split] at hjoin
    refine ⟨hkey, fun hnil => ?_, fun houter => ?_⟩
    · rw [hkey] at hnil
      subst hnil
      exact (h [] (by simp [split])).ne_nil rfl
    · rw [names, hkey] at houter
      exact (h outer houter).2.2.2.2 rfl

theorem IsRelative.key_eq {path : Text} (h : IsRelative path) : key path = path := h.1

theorem IsSegment.isRelative {name : Text} (h : IsSegment name) : IsRelative name := by
  rw [isRelative_iff, split_of_not_mem h.slash_not_mem]
  simpa using h

theorem isRelative_key {path : Text} (h : IsInner path) : IsRelative (key path) :=
  ⟨key_key path, by rw [IsInner, names, key_key]; exact h⟩

/-- The parts of a path that goes on with names. -/
theorem parts_append_names (path : Text) {names : List Text} (hne : names ≠ [])
    (h : ∀ name ∈ names, IsSegment name) :
    parts (path ++ '/' :: join ['/'] names) = parts path ++ names := by
  by_cases hpath : path = []
  · -- the slash that the empty path goes on with has no part before it
    subst hpath
    rw [parts, split_append, split_join_segments hne h, List.foldl_append,
      foldl_pushPart_segments h, List.reverse_append, List.reverse_reverse]
    rfl
  · rw [parts_append _ hpath, split_join_segments hne h, foldl_pushPart_segments h,
      List.reverse_append, List.reverse_reverse, List.reverse_reverse]

/-- A relative path below a directory has the key of the directory before it. -/
theorem IsRelative.key_below {path : Text} (h : IsRelative path) (dir : Text) :
    key (dir ++ '/' :: path) = Tree.keyStart dir ++ path := by
  have hsegments := isRelative_iff.mp h
  have hne : split '/' path ≠ [] := split_ne_nil '/' path
  have hback : '\\' ∉ path := by
    rw [← join_split '/' path]
    exact backslash_not_mem_join fun name hname => (hsegments name hname).backslash_not_mem
  have hunify : unifySlashes (dir ++ '/' :: path) =
      unifySlashes dir ++ '/' :: join ['/'] (split '/' path) := by
    rw [join_split, unifySlashes, List.map_append, List.map_cons]
    exact congrArg (unifySlashes dir ++ '/' :: ·) (unifySlashes_eq_self hback)
  rw [key_eq_join, hunify, parts_append_names _ hne hsegments, Tree.keyStart, key_eq_join dir]
  by_cases hnil : parts (unifySlashes dir) = []
  · simp [hnil, join_split]
  · have hnormal := isNormal_parts (backslash_not_mem_unifySlashes dir)
    rw [join_append hnil hne, join_split]
    simp [join_ne_nil_of_isNormal hnil hnormal]

end Path

/-! ## Trees changed inside the root -/

namespace Tree

variable {tree : Tree}

/-- A normal tree with no file at the root or outside of it. -/
structure Enclosed (tree : Tree) : Prop where
  normal : tree.Normal
  inner : ∀ key ∈ tree.keys, Path.IsInner key

theorem enclosed_empty : Enclosed {} where
  normal := normal_empty
  inner := by simp [keys]

theorem Enclosed.writeBytes (h : tree.Enclosed) {path : Text} (hpath : Path.IsInner path)
    (bytes : Bytes) : (tree.writeBytes path bytes).Enclosed where
  normal := h.normal.writeBytes path bytes
  inner := by
    intro key hkey
    rcases Assoc.mem_keys_put.mp hkey with rfl | hkey
    · exact (Path.isRelative_key hpath).2
    · exact h.inner key hkey

theorem keys_remove_subset (tree : Tree) (path : Text) :
    (tree.remove path).keys ⊆ tree.keys :=
  (List.filter_sublist.map _).subset

theorem Enclosed.remove (h : tree.Enclosed) (path : Text) : (tree.remove path).Enclosed where
  normal := h.normal.remove path
  inner := fun key hkey => h.inner key (tree.keys_remove_subset path hkey)

theorem Enclosed.isRelative (h : tree.Enclosed) {key : Text} (hkey : key ∈ tree.keys) :
    Path.IsRelative key :=
  ⟨(h.normal.isKey key hkey).key_eq, h.inner key hkey⟩

end Tree

/-- One operation leaves a tree enclosed; a text without a code is not written. -/
theorem Operation.enclosed_apply {tree : Tree} (h : tree.Enclosed) {operation : Operation}
    (hinner : Path.IsInner operation.path) : (operation.apply View.tree tree).2.Enclosed := by
  cases operation with
  | writeBytes path bytes => exact h.writeBytes hinner bytes
  | writeText path text =>
      simp only [Operation.apply, View.tree, View.memory]
      cases Utf8.encodeCode text with
      | error e => exact h
      | ok bytes => exact h.writeBytes hinner bytes
  | remove path => exact h.remove path

/-- The tree after operations one after the other on an empty tree. -/
def Operation.treeAfter (operations : List Operation) : Tree :=
  operations.foldl (fun tree operation => (operation.apply View.tree tree).2) {}

theorem Operation.enclosed_treeAfter {operations : List Operation}
    (h : ∀ operation ∈ operations, Path.IsInner operation.path) :
    (treeAfter operations).Enclosed := by
  have hfold : ∀ tree : Tree, tree.Enclosed →
      (operations.foldl (fun tree operation => (operation.apply View.tree tree).2)
        tree).Enclosed := by
    induction operations with
    | nil => exact fun _ htree => htree
    | cons operation operations ih =>
        intro tree htree
        exact ih (fun other hother => h other (List.mem_cons_of_mem _ hother)) _
          (enclosed_apply htree (h operation List.mem_cons_self))
  exact hfold {} Tree.enclosed_empty

/-! ## What a tree shows -/

namespace Tree

variable {tree : Tree}

/-- What a tree answers about a path below a directory is what it holds under the key. -/
theorem isFile_below (tree : Tree) (dir : Text) {rel : Text} (h : Path.IsRelative rel) :
    tree.isFile (dir ++ '/' :: rel) = true ↔ keyStart dir ++ rel ∈ tree.keys := by
  rw [isFile, h.key_below dir, isSome_get?]

/-- What stands behind a directory in the key of a file is relative. -/
theorem Enclosed.isRelative_below (h : tree.Enclosed) {dir rel : Text}
    (hmem : keyStart dir ++ rel ∈ tree.keys) : Path.IsRelative rel := by
  have hkey := Path.isRelative_iff.mp (h.isRelative hmem)
  rw [Path.isRelative_iff]
  by_cases hroot : Path.key dir = []
  · rwa [keyStart, hroot] at hkey
  · rw [keyStart_of_key rfl hroot, List.append_assoc, List.singleton_append, split_append] at hkey
    exact fun name hname => hkey name (List.mem_append_right _ hname)

theorem Enclosed.mem_walk_iff (h : tree.Enclosed) {dir rel : Text} :
    rel ∈ tree.walk dir ↔ Path.IsRelative rel ∧ tree.isFile (dir ++ '/' :: rel) = true := by
  rw [mem_walk]
  constructor
  · intro hmem
    have hrel := h.isRelative_below hmem
    exact ⟨hrel, (tree.isFile_below dir hrel).mpr hmem⟩
  · rintro ⟨hrel, hfile⟩
    exact (tree.isFile_below dir hrel).mp hfile

theorem nodup_keysBelow (h : tree.keys.Nodup) (dir : Text) : (tree.keysBelow dir).Nodup := by
  apply h.filterMap
  intro key other rel hkey hother
  rw [Text.after?_eq_some.mp hkey, Text.after?_eq_some.mp hother]

theorem isDir_iff (tree : Tree) (dir : Text) :
    tree.isDir dir = true ↔ Path.key dir = [] ∨ tree.walk dir ≠ [] := by
  rw [isDir, Bool.or_eq_true, List.isEmpty_iff]
  by_cases hroot : Path.key dir = []
  · simp [hroot]
  · rw [hasBelow_iff]
    refine or_congr_right ⟨?_, fun hwalk => ?_⟩
    · rintro ⟨rel, hrel⟩
      have hmem : rel ∈ tree.walk dir := by
        rw [mem_walk, keyStart_of_key rfl hroot]
        simpa using hrel
      exact List.ne_nil_of_mem hmem
    · obtain ⟨rel, hrel⟩ := List.exists_mem_of_ne_nil _ hwalk
      rw [mem_walk, keyStart_of_key rfl hroot] at hrel
      exact ⟨rel, by simpa using hrel⟩

/-- A name is listed when a file has it, or is somewhere below it. -/
theorem mem_listDir_iff {dir name : Text} (hname : '/' ∉ name) :
    name ∈ tree.listDir dir ↔ keyStart dir ++ name ∈ tree.keys ∨
      ∃ rest, keyStart dir ++ name ++ '/' :: rest ∈ tree.keys := by
  have hkeep : ∀ c ∈ name, decide (c ≠ '/') = true := fun c hc =>
    decide_eq_true (ne_of_mem_of_not_mem hc hname)
  rw [mem_listDir]
  constructor
  · rintro ⟨rel, hrel, rfl⟩
    obtain ⟨front, back, rfl, hfront, -, -, hback⟩ := exists_takeWhile (· ≠ '/') rel
    rw [hfront]
    rw [← List.append_assoc] at hrel
    cases back with
    | nil => exact .inl (by simpa using hrel)
    | cons c rest =>
        obtain rfl : c = '/' := by simpa using hback c rfl
        exact .inr ⟨rest, hrel⟩
  · rintro (hmem | ⟨rest, hmem⟩)
    · exact ⟨name, hmem, (List.takeWhile_eq_self_iff.mpr hkeep).symm⟩
    · rw [List.append_assoc] at hmem
      exact ⟨_, hmem, (takeWhile_append_stop rest hkeep (by simp)).symm⟩

theorem present_below (tree : Tree) (dir : Text) {rel : Text} (h : Path.IsRelative rel) :
    tree.present (dir ++ '/' :: rel) = true ↔ keyStart dir ++ rel ∈ tree.keys ∨
      ∃ rest, keyStart dir ++ rel ++ '/' :: rest ∈ tree.keys := by
  have hne : keyStart dir ++ rel ≠ [] := by
    rw [← h.key_eq]
    exact List.append_ne_nil_of_right_ne_nil _ h.2.key_ne_nil
  rw [present, Bool.or_eq_true, tree.isFile_below dir h, isDir, Bool.or_eq_true, List.isEmpty_iff,
    h.key_below dir, hasBelow_iff]
  simp only [hne, false_or]

/-! ## Removing -/

theorem isAtOrBelow_iff {dir key : Text} :
    isAtOrBelow dir key = true ↔ key = dir ∨ ∃ rest, key = dir ++ '/' :: rest := by
  rw [isAtOrBelow, Bool.or_eq_true, decide_eq_true_eq, List.isPrefixOf_iff_prefix]
  refine or_congr_right ⟨?_, ?_⟩
  · rintro ⟨rest, hrest⟩
    exact ⟨rest, by simpa using hrest.symm⟩
  · rintro ⟨rest, rfl⟩
    exact ⟨rest, by simp⟩

theorem isAtOrBelow_trans {dir key other : Text} (h : isAtOrBelow dir key = true)
    (hother : isAtOrBelow key other = true) : isAtOrBelow dir other = true := by
  rw [isAtOrBelow_iff] at h hother ⊢
  rcases h with rfl | ⟨rest, rfl⟩
  · exact hother
  · rcases hother with rfl | ⟨more, rfl⟩
    · exact .inr ⟨rest, rfl⟩
    · exact .inr ⟨rest ++ '/' :: more, by simp⟩

/-- The files that stay are those that are not at the path or below it. -/
theorem mem_keys_remove {path key : Text} :
    key ∈ (tree.remove path).keys ↔
      key ∈ tree.keys ∧ isAtOrBelow (Path.key path) key = false := by
  rw [← isSome_get?, ← isSome_get?, get?_remove]
  cases isAtOrBelow (Path.key path) key <;> simp

theorem present_remove {path below : Text} (hpath : Path.key path ≠ [])
    (h : isAtOrBelow (Path.key path) (Path.key below) = true) :
    (tree.remove path).present below = false := by
  have hgone : ∀ key, isAtOrBelow (Path.key below) key = true → key ∉ (tree.remove path).keys := by
    intro key hkey hmem
    rw [mem_keys_remove, isAtOrBelow_trans h hkey] at hmem
    cases hmem.2
  have hne : Path.key below ≠ [] := by
    rcases isAtOrBelow_iff.mp h with heq | ⟨rest, heq⟩ <;> rw [heq]
    · exact hpath
    · simp
  rw [Bool.eq_false_iff, ne_eq, present, Bool.or_eq_true, isFile, isSome_get?, isDir,
    Bool.or_eq_true, List.isEmpty_iff, hasBelow_iff]
  rintro (hfile | hroot | ⟨rest, hrest⟩)
  · exact hgone _ (isAtOrBelow_iff.mpr (.inl rfl)) hfile
  · exact hne hroot
  · exact hgone _ (isAtOrBelow_iff.mpr (.inr ⟨rest, rfl⟩)) hrest

theorem readBytes_remove {path other : Text}
    (h : isAtOrBelow (Path.key path) (Path.key other) = false) :
    (tree.remove path).readBytes other = tree.readBytes other := by
  rw [readBytes, readBytes, get?_remove, h]
  rfl

/-! ## Coherence -/

/-- The answers of a tree agree with one another and with the files that can be read. -/
structure Coherent (tree : Tree) : Prop where
  key_eq : ∀ key ∈ tree.keys, Path.key key = key
  walk_sorted : ∀ dir, (tree.walk dir).Pairwise (· < ·)
  walk_iff : ∀ dir rel, rel ∈ tree.walk dir ↔
    Path.IsRelative rel ∧ tree.isFile (dir ++ '/' :: rel) = true
  readable : ∀ dir, ∀ rel ∈ tree.walk dir, ∃ bytes, tree.readBytes (dir ++ '/' :: rel) = .ok bytes
  isDir_iff : ∀ dir, tree.isDir dir = true ↔ Path.key dir = [] ∨ tree.walk dir ≠ []
  listDir_sorted : ∀ dir, (tree.listDir dir).Pairwise (· < ·)
  listDir_iff : ∀ dir name, Path.IsSegment name →
    (name ∈ tree.listDir dir ↔ tree.present (dir ++ '/' :: name) = true)
  removed : ∀ path below, Path.IsInner path →
    isAtOrBelow (Path.key path) (Path.key below) = true → (tree.remove path).present below = false
  kept : ∀ path other, isAtOrBelow (Path.key path) (Path.key other) = false →
    (tree.remove path).readBytes other = tree.readBytes other

theorem Enclosed.coherent (h : tree.Enclosed) : tree.Coherent where
  key_eq := fun key hkey => (h.normal.isKey key hkey).key_eq
  walk_sorted := fun dir => pairwise_lt_sort (nodup_keysBelow h.normal.nodup dir)
  walk_iff := fun dir rel => h.mem_walk_iff
  readable := by
    intro dir rel hrel
    have hfile := (h.mem_walk_iff.mp hrel).2
    obtain ⟨bytes, hbytes⟩ := Option.isSome_iff_exists.mp hfile
    exact ⟨bytes, by rw [readBytes, hbytes]⟩
  isDir_iff := tree.isDir_iff
  listDir_sorted := tree.pairwise_lt_listDir
  listDir_iff := by
    intro dir name hname
    rw [mem_listDir_iff hname.slash_not_mem, tree.present_below dir hname.isRelative]
  removed := fun path below hpath => present_remove hpath.key_ne_nil
  kept := fun path other => readBytes_remove

end Tree

/-- After any changes at paths inside the root a tree is coherent. -/
theorem coherent_treeAfter {operations : List Operation}
    (h : ∀ operation ∈ operations, Path.IsInner operation.path) :
    (∀ path, Path.key (Path.key path) = Path.key path) ∧
      (Operation.treeAfter operations).Coherent :=
  ⟨Path.key_key, (Operation.enclosed_treeAfter h).coherent⟩

/-- A removed path takes what is below it along and leaves the file whose name only goes on. -/
theorem coherent_treeAfter_alike :
    let operations := [.writeBytes "a//b".toList [1], .writeText "\\\\a\\bc/../b/d".toList [104],
      .writeBytes "a/bc".toList [2], .remove "./a/c/../b".toList]
    (∀ operation ∈ operations, Path.IsInner operation.path) ∧
      (Operation.treeAfter operations).keys = ["a/bc".toList] ∧
      (∀ path, Path.key (Path.key path) = Path.key path) ∧
      (Operation.treeAfter operations).Coherent := by
  have hinner : ∀ operation ∈ [Operation.writeBytes "a//b".toList [1],
      .writeText "\\\\a\\bc/../b/d".toList [104], .writeBytes "a/bc".toList [2],
      .remove "./a/c/../b".toList], Path.IsInner operation.path := by
    decide
  refine ⟨hinner, ?_, coherent_treeAfter hinner⟩
  decide +kernel

end AddonBundle
