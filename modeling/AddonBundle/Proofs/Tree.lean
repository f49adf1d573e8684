import AddonBundle.Proofs.Assoc
import AddonBundle.Proofs.Path
import AddonBundle.Storage
/-!
# Trees in memory

What each operation on a tree does to the view `get?` of its files, and what listing and walking
find. A tree is normal when every file is held once, under a key; every tree that is built by
writing and removing files is.
-/

namespace AddonBundle

namespace Tree

/-! ## The files of a tree -/

theorem isSome_get? (tree : Tree) (key : Text) :
    (tree.get? key).isSome = true ↔ key ∈ tree.keys :=
  Assoc.isSome_get? key tree.files

theorem mem_keys_of_get? {tree : Tree} {key : Text} {bytes : Bytes}
    (h : tree.get? key = some bytes) : key ∈ tree.keys := by
  rw [← isSome_get?, h]
  rfl

theorem exists_get?_of_mem {tree : Tree} {key : Text} (h : key ∈ tree.keys) :
    ∃ bytes, tree.get? key = some bytes :=
  Option.isSome_iff_exists.mp ((tree.isSome_get? key).mpr h)

theorem get?_writeBytes (tree : Tree) (path : Text) (bytes : Bytes) (key : Text) :
    (tree.writeBytes path bytes).get? key =
      if key = Path.key path then some bytes else tree.get? key :=
  Assoc.get?_put _ _ _ _

/-- Whether a key is another key or lies below it. -/
def isAtOrBelow (dir key : Text) : Bool :=
  key = dir || (dir ++ ['/']).isPrefixOf key

theorem get?_remove (tree : Tree) (path key : Text) :
    (tree.remove path).get? key =
      if isAtOrBelow (Path.key path) key then none else tree.get? key := by
  have hfilter := Assoc.get?_filter
    (fun k => decide (k ≠ Path.key path) && !(Path.key path ++ ['/']).isPrefixOf k) key tree.files
  rw [get?, remove]
  simp only [get?] at hfilter ⊢
  rw [hfilter]
  by_cases hkey : key = Path.key path
  · simp [isAtOrBelow, hkey]
  · cases hprefix : (Path.key path ++ ['/']).isPrefixOf key <;> simp [isAtOrBelow, hkey, hprefix]

/-! ## Normal trees -/

/-- Each file is held once, under a key. -/
structure Normal (tree : Tree) : Prop where
  isKey : ∀ key ∈ tree.keys, Path.IsKey key
  nodup : tree.keys.Nodup

theorem normal_empty : Normal {} where
  isKey := by simp [keys]
  nodup := by simp [keys]

theorem Normal.writeBytes {tree : Tree} (h : tree.Normal) (path : Text) (bytes : Bytes) :
    (tree.writeBytes path bytes).Normal where
  isKey := by
    intro key hkey
    rcases Assoc.mem_keys_put.mp hkey with rfl | hkey
    · exact Path.isKey_key path
    · exact h.isKey key hkey
  nodup := Assoc.nodup_keys_put h.nodup

theorem Normal.remove {tree : Tree} (h : tree.Normal) (path : Text) : (tree.remove path).Normal where
  isKey := by
    intro key hkey
    apply h.isKey
    rw [← isSome_get?, get?_remove] at hkey
    rw [← isSome_get?]
    split at hkey
    · simp at hkey
    · exact hkey
  nodup := h.nodup.sublist (List.filter_sublist.map _)

theorem normal_ofFiles (files : List (Text × Bytes)) : (ofFiles files).Normal := by
  have hfold : ∀ tree : Tree, tree.Normal →
      (files.foldl (fun tree f => tree.writeBytes f.1 f.2) tree).Normal := by
    induction files with
    | nil => exact fun _ h => h
    | cons file files ih => exact fun tree h => ih _ (h.writeBytes file.1 file.2)
  exact hfold {} normal_empty

/-! ## Listing and walking -/

theorem mem_keysBelow {tree : Tree} {path rel : Text} :
    rel ∈ tree.keysBelow path ↔ keyStart path ++ rel ∈ tree.keys := by
  simp only [keysBelow, List.mem_filterMap, Text.after?_eq_some]
  constructor
  · rintro ⟨key, hkey, rfl⟩
    exact hkey
  · intro h
    exact ⟨_, h, rfl⟩

theorem mem_walk {tree : Tree} {path rel : Text} :
    rel ∈ tree.walk path ↔ keyStart path ++ rel ∈ tree.keys := by
  rw [walk, Text.mem_sort, mem_keysBelow]

theorem mem_listDir {tree : Tree} {path name : Text} :
    name ∈ tree.listDir path ↔
      ∃ rel, keyStart path ++ rel ∈ tree.keys ∧ name = rel.takeWhile (· ≠ '/') := by
  rw [listDir, Text.mem_sort, Text.mem_distinct, List.mem_map]
  constructor
  · rintro ⟨rel, hrel, rfl⟩
    exact ⟨rel, mem_keysBelow.mp hrel, rfl⟩
  · rintro ⟨rel, hrel, rfl⟩
    exact ⟨rel, mem_keysBelow.mpr hrel, rfl⟩

theorem pairwise_lt_listDir (tree : Tree) (path : Text) :
    (tree.listDir path).Pairwise (· < ·) :=
  Text.pairwise_lt_sort (Text.nodup_distinct _)

theorem keyStart_of_key {path key : Text} (h : Path.key path = key) (hne : key ≠ []) :
    keyStart path = key ++ ['/'] := by
  simp [keyStart, h, hne]

theorem hasBelow_iff {tree : Tree} {key : Text} :
    tree.hasBelow key = true ↔ ∃ rel, key ++ '/' :: rel ∈ tree.keys := by
  simp only [hasBelow, List.any_eq_true, List.isPrefixOf_iff_prefix]
  constructor
  · rintro ⟨k, hk, rel, rfl⟩
    exact ⟨rel, by simpa using hk⟩
  · rintro ⟨rel, hrel⟩
    exact ⟨_, hrel, rel, by simp⟩

end Tree

/-! ## Trees as storage -/

/-- A file is no directory, also when there are files below its key. -/
theorem View.isFile_memory {σ : Type} (get : σ → Tree) (set : Tree → σ → σ) (s : σ) (path : Text) :
    (View.memory get set).isFile s path = .ok ((get s).isFile path && !(get s).isDir path) := by
  have hpresent : (View.memory get set).isFile s path =
      (if (get s).present path then .ok (!(get s).isDir path) else .ok false) := rfl
  rw [hpresent, Tree.present]
  cases (get s).isFile path <;> cases (get s).isDir path <;> rfl

theorem View.readText_memory {σ : Type} (get : σ → Tree) (set : Tree → σ → σ) (s : σ)
    (path : Text) :
    (View.memory get set).readText s path =
      match (get s).get? (Path.key path) with
      | none => .error (.absent path)
      | some bytes => (Utf8.decode bytes).mapError .undecodable := by
  have hread : (View.memory get set).readBytes s path = (get s).readBytes path := rfl
  unfold View.readText
  rw [hread, Tree.readBytes]
  cases (get s).get? (Path.key path) with
  | none => rfl
  | some bytes => cases hdecode : Utf8.decode bytes <;> simp [hdecode, Except.mapError]

end AddonBundle
