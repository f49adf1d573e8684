import AddonBundle.Proofs.Script.AssetTable
import AddonBundle.Script.PathSite
/-!
# Bindings

A header imports each file under a binding of its own, and the table answers a path with the binding
of the first file that has it. Under that binding the header imports the file, and no other one.
-/

namespace AddonBundle

open Text

namespace Script

/-! ## Bindings and addresses -/

theorem Binding.text_injective : Function.Injective Binding.text := by
  intro a b hab
  cases a with
  | asset i =>
      cases b with
      | asset j => rw [Text.ofNat_injective (List.append_cancel_left hab)]
      | library j => cases hab
  | library i =>
      cases b with
      | asset j => cases hab
      | library j => rw [Text.ofNat_injective (List.append_cancel_left hab)]

/-- A binding is written with the letters of its kind and digits. -/
theorem Binding.not_mem_text (binding : Binding) {c : Char} (hdigit : c.isDigit = false)
    (hasset : c ∉ "_twAsset".toList) (hlibrary : c ∉ "_twScript".toList) : c ∉ binding.text := by
  have hdigits : ∀ n, c ∉ Text.ofNat n := by
    intro n hmem
    have hc := Nat.isDigit_of_mem_toDigits (by decide) (by decide) hmem
    rw [hdigit] at hc
    cases hc
  cases binding with
  | asset i => exact fun hmem => (List.mem_append.mp hmem).elim hasset (hdigits i)
  | library i => exact fun hmem => (List.mem_append.mp hmem).elim hlibrary (hdigits i)

/-- The import of an address under a binding. -/
def importOf (binding : Binding) (address : Text) : Text :=
  "import ".toList ++ binding.text ++ " from \"".toList ++ address ++ "\";".toList

theorem importOf_eq (binding : Binding) (address : Text) :
    importOf binding address =
      "import ".toList ++
        (binding.text ++ ' ' :: ("from \"".toList ++ address ++ "\";".toList)) := by
  have hfrom : " from \"".toList = ' ' :: "from \"".toList := rfl
  unfold importOf
  rw [hfrom]
  generalize "import ".toList = front
  generalize "from \"".toList = mark
  simp

theorem importOf_inj {a b : Binding} {address address' : Text}
    (h : importOf a address = importOf b address') : a = b ∧ address = address' := by
  rw [importOf_eq, importOf_eq] at h
  have hrest := List.append_cancel_left h
  -- a binding ends at the first blank
  have hsplit := congrArg (split ' ') hrest
  have hblank : ∀ binding : Binding, ' ' ∉ binding.text :=
    fun binding => binding.not_mem_text (by decide) (by decide) (by decide)
  rw [split_append_cons _ (hblank a), split_append_cons _ (hblank b)] at hsplit
  obtain rfl := Binding.text_injective (List.cons.inj hsplit).1
  have hbehind := (List.cons.inj (List.append_cancel_left hrest)).2
  exact ⟨rfl, List.append_cancel_left (List.append_cancel_right hbehind)⟩

/-- The address of a file of a root, given the way to the libraries. -/
def PathRoot.address (way : Text) : PathRoot → Text → Text
  | .dir, name => "./".toList ++ name
  | .lib, name => "!file-loader!".toList ++ way ++ '/' :: name

/-- The root that a binding takes its file from. -/
def Binding.root : Binding → PathRoot
  | .asset _ => .dir
  | .library _ => .lib

namespace AssetTable

/-- The header imports an address under a binding, and no other one. -/
def Imports (table : AssetTable) (way : Text) (binding : Binding) (address : Text) : Prop :=
  ∀ other, importOf binding other ∈ table.headerLines way ↔ other = address

theorem importLine_eq (way name : Text) (binding : Binding) :
    importLine way name binding = importOf binding (binding.root.address way name) := by
  cases binding <;> rfl

theorem mem_headerLines {table : AssetTable} {way address : Text} {binding : Binding} :
    importOf binding address ∈ table.headerLines way ↔
      ∃ name, (name, binding) ∈ table.imports ∧ address = binding.root.address way name := by
  have hhead : (importOf binding address).head? = some 'i' := rfl
  -- only imports start like an import
  have hother : ∀ line : Text, line.head? ≠ some 'i' → importOf binding address ≠ line := by
    rintro line hline rfl
    exact hline hhead
  constructor
  · intro h
    simp only [headerLines, List.mem_append, List.mem_map] at h
    rcases h with (((h | ⟨⟨name, b⟩, hmem, h⟩) | h) | ⟨⟨name, b⟩, -, h⟩) | h
    · exact absurd (List.mem_singleton.mp h) (hother _ (by decide))
    · rw [importLine_eq] at h
      obtain ⟨rfl, rfl⟩ := importOf_inj h
      exact ⟨name, hmem, rfl⟩
    · exact absurd (List.mem_singleton.mp h) (hother _ (by decide))
    · have hcase : (caseLine name b).head? = some ' ' := rfl
      exact absurd h.symm (hother _ (by simp [hcase]))
    · rcases List.mem_pair.mp h with h | h
      · exact absurd h (hother _ (by decide))
      · exact absurd h (hother _ (by decide))
  · rintro ⟨name, hmem, rfl⟩
    simp only [headerLines, List.mem_append, List.mem_map]
    exact .inl (.inl (.inl (.inr ⟨(name, binding), hmem, importLine_eq way name binding⟩)))

/-- A table answers with the first import whose path it is. -/
theorem get?_eq (table : AssetTable) (path : Text) :
    table.get? path = Assoc.get? path (table.imports.map fun file => (pathOf file.1, file.2)) := by
  have hfold : ∀ (files : List (Text × Binding)) (map : List (Text × Binding)),
      Assoc.get? path
        (files.foldl (fun map file => Assoc.putNew (pathOf file.1) file.2 map) map) =
      (Assoc.get? path map).or
        (Assoc.get? path (files.map fun file => (pathOf file.1, file.2))) := by
    intro files
    induction files with
    | nil => simp [Assoc.get?]
    | cons file files ih =>
        intro map
        rw [List.foldl_cons, ih, Assoc.get?_putNew, Option.or_assoc]
        by_cases hpath : pathOf file.1 = path <;> simp [Assoc.get?, hpath]
  exact (hfold table.imports []).trans (by simp [Assoc.get?])

/-- A table answers with the first import of a name. -/
theorem get?_pathOf (table : AssetTable) (name : Text) :
    table.get? (pathOf name) = Assoc.get? name table.imports := by
  rw [get?_eq]
  induction table.imports with
  | nil => rfl
  | cons file files ih =>
      have hpath : pathOf file.1 = pathOf name ↔ file.1 = name := by simp [pathOf]
      simp only [List.map_cons, Assoc.get?, hpath, ih]

private theorem mem_bindings {names : List Text} {bind : Nat → Binding} {name : Text}
    {binding : Binding} :
    (name, binding) ∈ names.mapIdx (fun index name => (name, bind index)) ↔
      ∃ i, names[i]? = some name ∧ binding = bind i := by
  simp only [List.mem_mapIdx, Prod.mk.injEq, List.getElem?_eq_some_iff]
  constructor
  · rintro ⟨i, hi, rfl, rfl⟩
    exact ⟨i, ⟨hi, rfl⟩, rfl⟩
  · rintro ⟨i, ⟨hi, rfl⟩, rfl⟩
    exact ⟨i, hi, rfl, rfl⟩

theorem mem_imports {table : AssetTable} {name : Text} {binding : Binding} :
    (name, binding) ∈ table.imports ↔
      (∃ i, table.assets[i]? = some name ∧ binding = .asset i) ∨
        ∃ i, table.libraries[i]? = some name ∧ binding = .library i := by
  rw [imports, List.mem_append, mem_bindings, mem_bindings]

/-- One file stands under a binding. -/
theorem name_unique {table : AssetTable} {name name' : Text} {binding : Binding}
    (h : (name, binding) ∈ table.imports) (h' : (name', binding) ∈ table.imports) :
    name = name' := by
  rw [mem_imports] at h h'
  rcases h with ⟨i, hi, rfl⟩ | ⟨i, hi, rfl⟩
  · rcases h' with ⟨j, hj, hij⟩ | ⟨j, hj, hij⟩
    · cases hij
      exact Option.some.inj (hi.symm.trans hj)
    · cases hij
  · rcases h' with ⟨j, hj, hij⟩ | ⟨j, hj, hij⟩
    · cases hij
    · cases hij
      exact Option.some.inj (hi.symm.trans hj)

/-- Under the binding that answers a name, the header imports the file of that name. -/
theorem imports_of_get? {table : AssetTable} {name : Text} {binding : Binding} (way : Text)
    (h : table.get? (pathOf name) = some binding) :
    table.Imports way binding (binding.root.address way name) := by
  rw [get?_pathOf] at h
  have hmem := Assoc.mem_of_get? h
  intro other
  rw [mem_headerLines]
  constructor
  · rintro ⟨name', hmem', rfl⟩
    rw [name_unique hmem hmem']
  · rintro rfl
    exact ⟨name, hmem, rfl⟩

/-- The path of an asset is answered by the asset, any other one by a library. -/
theorem root_eq_dir_iff {table : AssetTable} {name : Text} {binding : Binding}
    (h : table.get? (pathOf name) = some binding) :
    binding.root = .dir ↔ name ∈ table.assets := by
  rw [get?_pathOf] at h
  constructor
  · intro hroot
    rcases mem_imports.mp (Assoc.mem_of_get? h) with ⟨i, hi, rfl⟩ | ⟨i, hi, rfl⟩
    · exact List.mem_of_getElem? hi
    · cases hroot
  · intro hname
    -- the assets come first, so the name is found among them
    obtain ⟨i, hi⟩ := List.mem_iff_getElem?.mp hname
    have hkey : name ∈ (table.assets.mapIdx fun index name => (name, Binding.asset index)).map
        (·.1) :=
      List.mem_map.mpr ⟨(name, .asset i), mem_bindings.mpr ⟨i, hi, rfl⟩, rfl⟩
    obtain ⟨first, hfirst⟩ := Option.isSome_iff_exists.mp ((Assoc.isSome_get? _ _).mpr hkey)
    rw [imports, Assoc.get?_append, hfirst, Option.some_or, Option.some.injEq] at h
    obtain ⟨j, -, hj⟩ := mem_bindings.mp (Assoc.mem_of_get? hfirst)
    rw [← h, hj]
    rfl

theorem mem_libraries_of_get? {table : AssetTable} {name : Text} {binding : Binding}
    (h : table.get? (pathOf name) = some binding) (hname : name ∉ table.assets) :
    binding.root = .lib ∧ name ∈ table.libraries := by
  rw [get?_pathOf] at h
  rcases mem_imports.mp (Assoc.mem_of_get? h) with ⟨i, hi, rfl⟩ | ⟨i, hi, rfl⟩
  · exact absurd (List.mem_of_getElem? hi) hname
  · exact ⟨rfl, List.mem_of_getElem? hi⟩

theorem address_dir_ne_lib (way name name' : Text) :
    PathRoot.dir.address way name ≠ PathRoot.lib.address way name' := by
  intro h
  have hhead : some '.' = some '!' := congrArg List.head? h
  cases hhead

/-- The header imports the file of a root under the binding of a name exactly when the binding
takes its file from that root. -/
theorem imports_iff {table : AssetTable} {name : Text} {binding : Binding} (way : Text)
    (h : table.get? (pathOf name) = some binding) (root : PathRoot) :
    table.Imports way binding (root.address way name) ↔ binding.root = root := by
  have hown := imports_of_get? way h
  constructor
  · intro himports
    have heq : binding.root.address way name = root.address way name :=
      (himports _).mp ((hown _).mpr rfl)
    cases hroot : binding.root with
    | dir =>
        cases root with
        | dir => rfl
        | lib =>
            rw [hroot] at heq
            exact absurd heq (address_dir_ne_lib way name name)
    | lib =>
        cases root with
        | dir =>
            rw [hroot] at heq
            exact absurd heq.symm (address_dir_ne_lib way name name)
        | lib => rfl
  · rintro rfl
    exact hown

end AssetTable

end Script

end AddonBundle
