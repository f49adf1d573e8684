import AddonBundle.Proofs.Disk
import AddonBundle.Proofs.Tree
/-!
# The tree below a place

The files below a place of a disk make a tree, whose keys are the names that lead from the place to
the files. What is done to the files of the disk is done to this tree.
-/

namespace AddonBundle

open Text

/-! ## Paths of entries -/

namespace Path

/-- The names that lead to the entry of a path. -/
def names (path : Text) : List Text :=
  split '/' (key path)

/-- A path that leads neither to the root nor out of it. -/
def IsInner (path : Text) : Prop :=
  key path ≠ [] ∧ outer ∉ names path

instance (path : Text) : Decidable (IsInner path) :=
  decidable_of_iff (key path ≠ [] ∧ ∀ name ∈ names path, outer ≠ name)
    (and_congr_right' List.forall_mem_ne)

theorem IsInner.key_ne_nil {path : Text} (h : IsInner path) : key path ≠ [] := h.1

theorem IsInner.segments {path : Text} (h : IsInner path) : ∀ name ∈ names path, IsSegment name :=
  fun _ hname => ((isKey_key path).isNormal_split h.1).isSegment hname
    fun heq => h.2 (heq ▸ hname)

theorem join_names (path : Text) : join ['/'] (names path) = key path :=
  join_split '/' (key path)

theorem names_ne_nil (path : Text) : names path ≠ [] :=
  split_ne_nil '/' (key path)

/-- The names of a path below an inner one. -/
theorem IsInner.names_child {path name : Text} (h : IsInner path) (hname : IsSegment name) :
    names (key path ++ '/' :: name) = names path ++ [name] := by
  rw [names, ((isKey_key path).child h.key_ne_nil hname).key_eq, split_append,
    split_of_not_mem hname.slash_not_mem]
  rfl

theorem IsInner.child {path name : Text} (h : IsInner path) (hname : IsSegment name) :
    IsInner (key path ++ '/' :: name) := by
  have hne : key (key path ++ '/' :: name) ≠ [] := by
    rw [((isKey_key path).child h.key_ne_nil hname).key_eq]
    exact List.append_ne_nil_of_right_ne_nil _ (List.cons_ne_nil _ _)
  refine ⟨hne, fun houter => ?_⟩
  rw [h.names_child hname, List.mem_append, List.mem_singleton] at houter
  rcases houter with houter | rfl
  · exact h.2 houter
  · exact hname.2.2.2.2 rfl

theorem split_join_segments {names : List Text} (hne : names ≠ [])
    (h : ∀ name ∈ names, IsSegment name) : split '/' (join ['/'] names) = names :=
  split_join hne fun name hname => (h name hname).slash_not_mem

theorem join_injective {names others : List Text} (hnames : names ≠ []) (hothers : others ≠ [])
    (hn : ∀ name ∈ names, IsSegment name) (ho : ∀ name ∈ others, IsSegment name)
    (h : join ['/'] names = join ['/'] others) : names = others := by
  rw [← split_join_segments hnames hn, h, split_join_segments hothers ho]

/-- A key lies below another if its names go on from those of the other. -/
theorem join_eq_append {names others : List Text} {rest : Text} (hnames : names ≠ [])
    (hothers : others ≠ []) (hn : ∀ name ∈ names, IsSegment name)
    (ho : ∀ name ∈ others, IsSegment name)
    (h : join ['/'] others = join ['/'] names ++ '/' :: rest) :
    others = names ++ split '/' rest := by
  rw [← split_join_segments hothers ho, h, split_append, split_join_segments hnames hn]

theorem isAtOrBelow_join {names others : List Text} (hnames : names ≠ []) (hothers : others ≠ [])
    (hn : ∀ name ∈ names, IsSegment name) (ho : ∀ name ∈ others, IsSegment name) :
    Tree.isAtOrBelow (join ['/'] names) (join ['/'] others) = true ↔ names <+: others := by
  rw [Tree.isAtOrBelow, Bool.or_eq_true, decide_eq_true_eq, List.isPrefixOf_iff_prefix]
  constructor
  · rintro (heq | ⟨rest, hrest⟩)
    · exact join_injective hothers hnames ho hn heq ▸ List.prefix_rfl
    · rw [List.append_assoc] at hrest
      exact ⟨_, (join_eq_append hnames hothers hn ho hrest.symm).symm⟩
  · rintro ⟨back, rfl⟩
    by_cases hback : back = []
    · exact .inl (by rw [hback, List.append_nil])
    · exact .inr ⟨join ['/'] back, (join_append hnames hback).symm⟩

end Path

namespace Disk

variable {disk : Disk} {base names : List Text}

theorem isNone_below? {place : List Text} :
    (below? base place).isNone = true ↔ ¬ base <+: place := by
  rw [Option.isNone_iff_eq_none, Option.eq_none_iff_forall_ne_some]
  constructor
  · rintro h ⟨rest, rfl⟩
    exact h rest (below?_eq_some.mpr rfl)
  · exact fun h rest hrest => h ⟨rest, (below?_eq_some.mp hrest).symm⟩

/-- The bytes of the file at a place. -/
def file? (disk : Disk) (place : List Text) : Option Bytes :=
  (disk.files.find? fun f => f.1 == place).map (·.2)

/-- The places of the directories and files. -/
def entries (disk : Disk) : List (List Text) :=
  disk.dirs ++ disk.files.map (·.1)

theorem node?_eq_directory {place : List Text} :
    disk.node? place = some .directory ↔
      place = [] ∨ isRemoved place = true ∨ place ∈ disk.dirs := by
  unfold node?
  split
  · rename_i h
    simpa [or_assoc] using h
  · rename_i h
    simp only [Bool.or_eq_true, List.isEmpty_iff, List.contains_iff_mem, not_or] at h
    simp [h.1.1, h.1.2, h.2]

theorem node?_of_not_directory {place : List Text} (h : disk.node? place ≠ some .directory) :
    disk.node? place = (disk.file? place).map .file := by
  unfold node? at h ⊢
  split
  · rename_i hdir
    exact absurd (if_pos hdir) h
  · rw [file?, Option.map_map]
    rfl

theorem isSome_file? {place : List Text} :
    (disk.file? place).isSome = true ↔ place ∈ disk.files.map (·.1) := by
  rw [file?, Option.isSome_map, List.find?_isSome, List.mem_map]
  simp only [beq_iff_eq]

theorem isRemoved_append (hbase : isRemoved base = false)
    (h : ∀ name ∈ names, Path.IsSegment name) : isRemoved (base ++ names) = false := by
  rcases List.eq_nil_or_concat names with rfl | ⟨front, last, rfl⟩
  · rwa [List.append_nil]
  · have hlast : last ≠ [] := (h last (by simp)).ne_nil
    simp [isRemoved, hlast]

/-! ## The tree below a place -/

/-- A file below a place, as the tree there holds it. -/
def entryBelow (base : List Text) (file : List Text × Bytes) : Option (Text × Bytes) :=
  (below? base file.1).map fun names => (join ['/'] names, file.2)

/-- The files below a place as a tree. -/
def treeBelow (disk : Disk) (base : List Text) : Tree :=
  ⟨disk.files.filterMap (entryBelow base)⟩

/-- Files whose places below the base are given by names. -/
def AreNamed (base : List Text) (files : List (List Text × Bytes)) : Prop :=
  ∀ names, base ++ names ∈ files.map (·.1) → names ≠ [] ∧ ∀ name ∈ names, Path.IsSegment name

theorem AreNamed.tail {file : List Text × Bytes} {files : List (List Text × Bytes)}
    (h : AreNamed base (file :: files)) : AreNamed base files :=
  fun names hnames => h names (List.mem_cons_of_mem _ hnames)

section

variable {files : List (List Text × Bytes)} (hne : names ≠ [])
  (hnames : ∀ name ∈ names, Path.IsSegment name)

include hne hnames

/-- A file below a place has the key of names only when it is at the place of these names. -/
private theorem key_eq_iff {file : List Text × Bytes} (h : AreNamed base (file :: files))
    {entry : Text × Bytes} (hentry : entryBelow base file = some entry) :
    entry.1 = join ['/'] names ↔ file.1 = base ++ names := by
  obtain ⟨others, hbelow, rfl⟩ := Option.map_eq_some_iff.mp hentry
  have hplace := below?_eq_some.mp hbelow
  obtain ⟨hothers, ho⟩ := h others (by simp [← hplace])
  constructor
  · intro heq
    rw [hplace, Path.join_injective hothers hne ho hnames heq]
  · intro heq
    rw [hplace, List.append_cancel_left_eq] at heq
    rw [heq]

theorem get?_entriesBelow (h : AreNamed base files) :
    Assoc.get? (join ['/'] names) (files.filterMap (entryBelow base)) =
      (files.find? fun f => f.1 == base ++ names).map (·.2) := by
  induction files with
  | nil => rfl
  | cons file files ih =>
      have hrest := ih h.tail
      cases hentry : entryBelow base file with
      | none =>
          have hother : file.1 ≠ base ++ names := by
            intro heq
            rw [entryBelow, heq, below?_eq_some.mpr rfl] at hentry
            cases hentry
          rw [List.filterMap_cons_none hentry, hrest,
            List.find?_cons_of_neg (by simpa using hother)]
      | some entry =>
          have hkey := key_eq_iff hne hnames h hentry
          have hbytes : entry.2 = file.2 := by
            obtain ⟨others, -, rfl⟩ := Option.map_eq_some_iff.mp hentry
            rfl
          rw [List.filterMap_cons_some hentry, Assoc.get?]
          by_cases heq : file.1 = base ++ names
          · rw [if_pos (hkey.mpr heq), List.find?_cons_of_pos (by simpa using heq), Option.map_some,
              hbytes]
          · rw [if_neg (mt hkey.mp heq), hrest, List.find?_cons_of_neg (by simpa using heq)]

theorem put_entriesBelow (h : AreNamed base files)
    (hnodup : ((files.filterMap (entryBelow base)).map (·.1)).Nodup)
    (hmem : base ++ names ∈ files.map (·.1)) (bytes : Bytes) :
    (files.map fun f => if f.1 = base ++ names then (base ++ names, bytes) else f).filterMap
        (entryBelow base) =
      Assoc.put (join ['/'] names) bytes (files.filterMap (entryBelow base)) := by
  have hentry : ∀ bytes : Bytes, entryBelow base (base ++ names, bytes) =
      some (join ['/'] names, bytes) := by
    intro bytes
    rw [entryBelow, below?_eq_some.mpr rfl]
    rfl
  induction files with
  | nil => cases hmem
  | cons file files ih =>
      rw [List.map_cons]
      by_cases heq : file.1 = base ++ names
      · obtain ⟨place, old⟩ := file
        obtain rfl : place = base ++ names := heq
        rw [List.filterMap_cons_some (hentry old), List.map_cons, List.nodup_cons] at hnodup
        -- no other file has this place
        have hothers : ∀ f ∈ files, f.1 ≠ base ++ names := by
          rintro ⟨place, other⟩ hf rfl
          exact hnodup.1 (List.mem_map.mpr ⟨_, List.mem_filterMap.mpr ⟨_, hf, hentry other⟩, rfl⟩)
        have hsame : (files.map fun f =>
            if f.1 = base ++ names then (base ++ names, bytes) else f) = files := by
          conv_rhs => rw [← List.map_id files]
          exact List.map_congr_left fun f hf => if_neg (hothers f hf)
        rw [if_pos rfl, hsame, List.filterMap_cons_some (hentry bytes),
          List.filterMap_cons_some (hentry old), Assoc.put, if_pos rfl]
      · have hmem' : base ++ names ∈ files.map (·.1) :=
          (List.mem_cons.mp hmem).resolve_left fun hplace => heq hplace.symm
        rw [if_neg heq]
        cases hfile : entryBelow base file with
        | none =>
            rw [List.filterMap_cons_none hfile] at hnodup
            rw [List.filterMap_cons_none hfile, List.filterMap_cons_none hfile,
              ih h.tail hnodup hmem']
        | some entry =>
            rw [List.filterMap_cons_some hfile, List.map_cons, List.nodup_cons] at hnodup
            rw [List.filterMap_cons_some hfile, List.filterMap_cons_some hfile, Assoc.put,
              if_neg (mt (key_eq_iff hne hnames h hfile).mp heq), ih h.tail hnodup.2 hmem']

theorem remove_entriesBelow (h : AreNamed base files) :
    (files.filter fun f => (below? (base ++ names) f.1).isNone).filterMap (entryBelow base) =
      (files.filterMap (entryBelow base)).filter fun f =>
        !Tree.isAtOrBelow (join ['/'] names) f.1 := by
  induction files with
  | nil => rfl
  | cons file files ih =>
      have hrest := ih h.tail
      cases hentry : entryBelow base file with
      | none =>
          have hnone : below? base file.1 = none := Option.map_eq_none_iff.mp hentry
          have hkeep : (below? (base ++ names) file.1).isNone = true := by
            rw [isNone_below?]
            intro hpre
            exact isNone_below?.mp (by rw [hnone]; rfl)
              ((List.prefix_append base names).trans hpre)
          rw [List.filterMap_cons_none hentry, List.filter_cons, if_pos hkeep,
            List.filterMap_cons_none hentry, hrest]
      | some entry =>
          obtain ⟨others, hbelow, rfl⟩ := Option.map_eq_some_iff.mp hentry
          have hplace := below?_eq_some.mp hbelow
          obtain ⟨hothers, ho⟩ := h others (by simp [← hplace])
          have hiff : (below? (base ++ names) file.1).isNone =
              !Tree.isAtOrBelow (join ['/'] names) (join ['/'] others) := by
            rw [Bool.eq_iff_iff, isNone_below?, hplace, List.prefix_append_right_inj,
              Bool.not_eq_true', Bool.eq_false_iff, ne_eq,
              Path.isAtOrBelow_join hne hothers hnames ho]
          rw [List.filterMap_cons_some hentry, List.filter_cons, List.filter_cons, hiff]
          split
          · rw [List.filterMap_cons_some hentry, hrest]
          · exact hrest

end

end Disk

end AddonBundle
