import AddonBundle.Proofs.Tree
import AddonBundle.Script.AssetTable
import Mathlib.Data.List.Induction
/-!
# Keys of asset tables

The paths that a table answers are those of its assets and its libraries, in this order, each
once.
-/

namespace AddonBundle

namespace Script.AssetTable

open Text

private theorem map_fst_mapIdx (names : List Text) (bind : Nat → Binding) :
    (names.mapIdx fun index name => (name, bind index)).map (·.1) = names := by
  apply List.ext_getElem?
  intro i
  cases hi : names[i]? <;> simp [hi]

@[simp] theorem map_fst_imports (table : AssetTable) :
    table.imports.map (·.1) = table.assets ++ table.libraries := by
  rw [imports, List.map_append, map_fst_mapIdx, map_fst_mapIdx]

private theorem keys_foldl_putNew (files : List (Text × Binding)) :
    (files.foldl (fun map file => Assoc.putNew (pathOf file.1) file.2 map) []).map (·.1) =
      distinct (files.map fun file => pathOf file.1) := by
  induction files using List.reverseRecOn with
  | nil => rfl
  | append_singleton files file ih =>
      rw [List.foldl_append, List.foldl_cons, List.foldl_nil, Assoc.keys_putNew, ih,
        List.map_append, List.map_cons, List.map_nil, distinct_concat]
      simp only [mem_distinct]

/-- The paths of a table. -/
theorem keys_entries (table : AssetTable) :
    table.entries.map (·.1) = distinct ((table.assets ++ table.libraries).map pathOf) := by
  rw [entries, keys_foldl_putNew, ← map_fst_imports, List.map_map]
  rfl

theorem isSome_get? (table : AssetTable) (path : Text) :
    (table.get? path).isSome = true ↔ path ∈ table.entries.map (·.1) :=
  Assoc.isSome_get? path table.entries

/-- A path is answered exactly when it is that of an asset or a library. -/
theorem isSome_get?_pathOf (table : AssetTable) (name : Text) :
    (table.get? (pathOf name)).isSome = true ↔ name ∈ table.assets ∨ name ∈ table.libraries := by
  rw [isSome_get?, keys_entries, mem_distinct, List.mem_map_of_injective, List.mem_append]
  intro a b hab
  exact (List.cons.inj hab).2

end Script.AssetTable

end AddonBundle
