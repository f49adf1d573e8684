import AddonBundle.Proofs.Disk.Writable
import Mathlib.Data.List.Sort
/-!
# A disk and a tree in memory

The tree below a root of a disk and a tree in memory are changed in the same way. Both then hold
the same files: the tree in memory is the tree below the root. A disk has directories of its own
besides, which stay when their files are gone, and it refuses to look for names that are too long;
with that, looking at the disk shows what the tree shows.
-/

namespace AddonBundle

open Text

/-! ## Operations -/

theorem View.locate_of_isInner {path : Text} (root : Location) (h : Path.IsInner path) :
    View.locate root path = root.append ⟨0, Path.names path⟩ := by
  have hfilter : (Path.names path).filter (fun p => !p.isEmpty) = Path.names path := by
    rw [List.filter_eq_self]
    intro name hname
    simpa using (h.segments name hname).ne_nil
  rw [View.locate]
  exact congrArg (fun parts => root.append ⟨0, parts⟩) hfilter

theorem Tree.remove_eq (tree : Tree) (path : Text) :
    tree.remove path = ⟨tree.files.filter fun f => !isAtOrBelow (Path.key path) f.1⟩ := by
  rw [remove]
  congr 1
  apply List.filter_congr
  intro f _
  simp [isAtOrBelow]

/-- A tree in memory by itself. -/
def View.tree : View Tree :=
  .memory id fun tree _ => tree

/-- A change to a tree of files. -/
inductive Operation where
  | writeBytes (path : Text) (bytes : Bytes)
  | writeText (path : Text) (text : CodeText)
  | remove (path : Text)
deriving Repr, DecidableEq

namespace Operation

/-- The path at which a tree is changed. -/
def path : Operation → Text
  | .writeBytes path _ | .writeText path _ | .remove path => path

/-- The operation on a tree inside a state. -/
def apply {σ : Type} (view : View σ) : Operation → σ → Except Failure Unit × σ
  | .writeBytes path bytes => view.writeBytes path bytes
  | .writeText path text => view.writeText path text
  | .remove path => view.remove path

/-- The operation on a disk and on a tree in memory, if it succeeds on both. -/
def applyBoth (cwd : List Text) (root : Location) (operation : Operation) (s : Disk × Tree) :
    Disk × Tree :=
  match operation.apply (View.disk cwd root) s.1, operation.apply View.tree s.2 with
  | (.ok _, disk), (.ok _, tree) => (disk, tree)
  | _, _ => s

/-- Operations one after the other, each kept if it succeeds on both. -/
def applyAll (cwd : List Text) (root : Location) (operations : List Operation) (s : Disk × Tree) :
    Disk × Tree :=
  operations.foldl (fun s operation => operation.applyBoth cwd root s) s

end Operation

namespace View

variable {cwd : List Text} {root : Location} {disk after : Disk} {path : Text}

theorem writeFile_of_writeBytes {bytes : Bytes}
    (h : (View.disk cwd root).writeBytes path bytes disk = (.ok (), after)) :
    Disk.writeFile cwd disk (locate root path) bytes = (.ok (), after) := by
  simp only [View.disk] at h
  cases hwrite : Disk.writeFile cwd disk (locate root path) bytes with
  | mk outcome written =>
      rw [hwrite] at h
      cases outcome with
      | error refused => cases h
      | ok _ =>
          obtain rfl : written = after := congrArg Prod.snd h
          rfl

/-- A text that is written has a code, and its file is opened first. -/
theorem writeFile_of_writeText {text : CodeText}
    (h : (View.disk cwd root).writeText path text disk = (.ok (), after)) :
    ∃ bytes opened, Utf8.encodeCode text = .ok bytes ∧
      Disk.writeFile cwd disk (locate root path) [] = (.ok (), opened) ∧
      Disk.writeFile cwd opened (locate root path) bytes = (.ok (), after) := by
  simp only [View.disk] at h
  cases hopen : Disk.writeFile cwd disk (locate root path) [] with
  | mk outcome opened =>
      rw [hopen] at h
      cases outcome with
      | error refused => cases h
      | ok _ =>
          dsimp only at h
          cases hencode : Utf8.encodeCode text with
          | error e =>
              rw [hencode] at h
              cases h
          | ok bytes =>
              rw [hencode] at h
              exact ⟨bytes, opened, rfl, rfl, writeFile_of_writeBytes h⟩

theorem remove_of_remove (h : (View.disk cwd root).remove path disk = (.ok (), after)) :
    disk.remove cwd (locate root path) = .ok after := by
  simp only [View.disk] at h
  cases hremove : disk.remove cwd (locate root path) with
  | error refused =>
      rw [hremove] at h
      cases h
  | ok removed =>
      rw [hremove] at h
      obtain rfl : removed = after := congrArg Prod.snd h
      rfl

end View

section

variable {cwd : List Text} {root : Location} {base : List Text} {disk : Disk}

/-- An operation that succeeds on the disk does the same to the tree below the root. -/
theorem Disk.IsRooted.apply (h : Disk.IsRooted cwd root base disk) {operation : Operation}
    {after : Disk} (hinner : Path.IsInner operation.path)
    (hok : operation.apply (View.disk cwd root) disk = (.ok (), after)) :
    Disk.IsRooted cwd root base after ∧
      operation.apply View.tree (disk.treeBelow base) = (.ok (), after.treeBelow base) := by
  cases operation with
  | writeBytes path bytes =>
      have hinner : Path.IsInner path := hinner
      have hwrite := View.writeFile_of_writeBytes hok
      rw [View.locate_of_isInner root hinner] at hwrite
      obtain ⟨hafter, htree⟩ := h.writeFile (Path.names_ne_nil path) hinner.segments hwrite
      rw [Path.join_names] at htree
      exact ⟨hafter, Prod.ext rfl (congrArg Tree.mk htree.symm)⟩
  | writeText path text =>
      have hinner : Path.IsInner path := hinner
      obtain ⟨bytes, opened, hencode, hopen, hwrite⟩ := View.writeFile_of_writeText hok
      rw [View.locate_of_isInner root hinner] at hopen hwrite
      obtain ⟨hopened, hempty⟩ := h.writeFile (Path.names_ne_nil path) hinner.segments hopen
      obtain ⟨hafter, htree⟩ := hopened.writeFile (Path.names_ne_nil path) hinner.segments hwrite
      rw [hempty, Assoc.put_put, Path.join_names] at htree
      refine ⟨hafter, ?_⟩
      simp only [Operation.apply, View.tree, View.memory, hencode]
      exact Prod.ext rfl (congrArg Tree.mk htree.symm)
  | remove path =>
      have hinner : Path.IsInner path := hinner
      have hremove := View.remove_of_remove hok
      rw [View.locate_of_isInner root hinner] at hremove
      obtain ⟨hafter, htree⟩ := h.remove (Path.names_ne_nil path) hinner.segments hremove
      rw [Path.join_names] at htree
      refine ⟨hafter, Prod.ext rfl ?_⟩
      change Tree.remove _ _ = _
      rw [Tree.remove_eq]
      exact congrArg Tree.mk htree.symm

/-- After all operations the tree in memory is the tree below the root. -/
theorem Operation.applyAll_eq (h : Disk.IsRooted cwd root base disk) {operations : List Operation}
    (hinner : ∀ operation ∈ operations, Path.IsInner operation.path) :
    Disk.IsRooted cwd root base (applyAll cwd root operations (disk, disk.treeBelow base)).1 ∧
      (applyAll cwd root operations (disk, disk.treeBelow base)).2 =
        (applyAll cwd root operations (disk, disk.treeBelow base)).1.treeBelow base := by
  induction operations generalizing disk with
  | nil => exact ⟨h, rfl⟩
  | cons operation operations ih =>
      have hrest := fun op hop => hinner op (List.mem_cons_of_mem _ hop)
      rw [applyAll, List.foldl_cons, ← applyAll, applyBoth]
      cases hdisk : operation.apply (View.disk cwd root) disk with
      | mk outcome after =>
          cases outcome with
          | error failure => exact ih h hrest
          | ok _ =>
              obtain ⟨hafter, hmemory⟩ := h.apply (hinner operation List.mem_cons_self) hdisk
              dsimp only
              rw [hmemory]
              exact ih hafter hrest

end

/-! ## What is shown -/

/-- A directory in which there is no file, also not further down. -/
def View.isHollow {σ : Type} (view : View σ) (s : σ) (path : Text) : Bool :=
  match view.isDir s path, view.walk s path with
  | .ok true, .ok [] => true
  | _, _ => false

/-- Asking a disk about a path is refused, since the path is too long. -/
def IsRefused (cwd : List Text) (root : Location) (path : Text) {α : Type}
    (outcome : Except Failure α) : Prop :=
  Disk.IsTooLong cwd (View.locate root path) ∧
    outcome = .error (.refused (Disk.refusal (View.locate root path) .nameTooLong))

/-- What a disk shows at a path below a root, next to what a tree in memory shows there. -/
structure ShowsSame (cwd : List Text) (root : Location) (disk : Disk) (tree : Tree)
    (path : Text) : Prop where
  readBytes : ((View.disk cwd root).readBytes disk path).toOption =
    (View.tree.readBytes tree path).toOption
  walk : (View.disk cwd root).walk disk path = .ok (tree.walk path) ∨
    (tree.walk path = [] ∧ IsRefused cwd root path ((View.disk cwd root).walk disk path))
  present : tree.present path = true → (View.disk cwd root).present disk path = .ok true
  isDir : tree.isDir path = true → (View.disk cwd root).isDir disk path = .ok true
  listDir : (∃ names, (View.disk cwd root).listDir disk path = .ok names ∧
      tree.listDir path = names.filter fun name =>
        !(View.disk cwd root).isHollow disk (Path.key path ++ '/' :: name)) ∨
    (tree.listDir path = [] ∧ IsRefused cwd root path ((View.disk cwd root).listDir disk path))

namespace Disk

variable {cwd : List Text} {root : Location} {disk : Disk} {base names : List Text}

theorem mem_keys_treeBelow {key : Text} :
    key ∈ (disk.treeBelow base).keys ↔
      ∃ names, base ++ names ∈ disk.files.map (·.1) ∧ key = join ['/'] names := by
  simp only [treeBelow, Tree.keys, List.mem_map, List.mem_filterMap, entryBelow]
  constructor
  · rintro ⟨entry, ⟨file, hfile, hentry⟩, rfl⟩
    obtain ⟨names, hbelow, rfl⟩ := Option.map_eq_some_iff.mp hentry
    exact ⟨names, ⟨file, hfile, below?_eq_some.mp hbelow⟩, rfl⟩
  · rintro ⟨names, ⟨file, hfile, hplace⟩, rfl⟩
    exact ⟨_, ⟨file, hfile, by rw [below?_eq_some.mpr hplace]; rfl⟩, rfl⟩

section

variable (h : IsRooted cwd root base disk)

include h

/-- The keys below a path are those of the files with more names. -/
theorem IsRooted.mem_keys_below {path rel : Text} (hinner : Path.IsInner path) :
    Path.key path ++ ['/'] ++ rel ∈ (disk.treeBelow base).keys ↔
      base ++ (Path.names path ++ split '/' rel) ∈ disk.files.map (·.1) := by
  have hne := Path.names_ne_nil path
  rw [mem_keys_treeBelow, ← Path.join_names]
  constructor
  · rintro ⟨others, hmem, heq⟩
    obtain ⟨hothers, ho⟩ := h.areNamed others hmem
    rw [List.append_assoc, List.singleton_append] at heq
    rwa [← Path.join_eq_append hne hothers hinner.segments ho heq.symm]
  · intro hmem
    refine ⟨_, hmem, ?_⟩
    rw [join_append hne (split_ne_nil '/' rel), join_split]

theorem IsRooted.get?_key {path : Text} (hinner : Path.IsInner path) :
    (disk.treeBelow base).get? (Path.key path) =
      match disk.node? (base ++ Path.names path) with
      | some (.file bytes) => some bytes
      | _ => none := by
  have hget := h.get?_treeBelow h.there (Path.names_ne_nil path) hinner.segments
  rwa [Path.join_names] at hget

/-- Where there is no directory, there are no files below. -/
theorem IsRooted.keysBelow_of_not_directory {path : Text} (hinner : Path.IsInner path)
    (hnode : disk.node? (base ++ Path.names path) ≠ some .directory) :
    (disk.treeBelow base).keysBelow path = [] := by
  rw [List.eq_nil_iff_forall_not_mem]
  intro rel hrel
  rw [Tree.mem_keysBelow, Tree.keyStart_of_key rfl hinner.key_ne_nil,
    h.mem_keys_below hinner] at hrel
  exact hnode (h.node?_above h.there (split_ne_nil '/' rel) (List.mem_append_right _ hrel))

/-- The files below a directory of the disk are those below it in the tree. -/
theorem IsRooted.keysBelow_treeBelow {path : Text} (hinner : Path.IsInner path)
    (hnot : base ++ Path.names path ∉ disk.files.map (·.1)) :
    (disk.treeBelow base).keysBelow path =
      (disk.filesBelow (base ++ Path.names path)).map (join ['/']) := by
  have hne := Path.names_ne_nil path
  rw [Tree.keysBelow, Tree.keys, treeBelow, filesBelow, List.map_filterMap, List.map_filterMap,
    List.filterMap_filterMap, Tree.keyStart_of_key rfl hinner.key_ne_nil, ← Path.join_names]
  apply List.filterMap_congr
  intro file hfile
  have hplaces : file.1 ∈ disk.files.map (·.1) := List.mem_map_of_mem hfile
  cases hbelow : below? base file.1 with
  | none =>
      have hnone : below? (base ++ Path.names path) file.1 = none := by
        rw [← Option.isNone_iff_eq_none, isNone_below?]
        intro hpre
        exact isNone_below?.mp (by rw [hbelow]; rfl) ((List.prefix_append _ _).trans hpre)
      rw [entryBelow, hbelow, hnone]
      rfl
  | some others =>
      have hplace := below?_eq_some.mp hbelow
      rw [hplace] at hplaces
      obtain ⟨hothers, ho⟩ := h.areNamed others hplaces
      rw [entryBelow, hbelow, hplace]
      change after? (join ['/'] (Path.names path) ++ ['/']) (join ['/'] others) = _
      by_cases hpre : Path.names path <+: others
      · obtain ⟨back, rfl⟩ := hpre
        have hback : back ≠ [] := by
          rintro rfl
          rw [List.append_nil] at hplaces
          exact hnot hplaces
        rw [join_append hne hback, after?_append, ← List.append_assoc, below?_eq_some.mpr rfl]
        rfl
      · have hnone : below? (base ++ Path.names path) (base ++ others) = none := by
          rwa [← Option.isNone_iff_eq_none, isNone_below?, List.prefix_append_right_inj]
        rw [hnone]
        rw [Option.map_none, Option.eq_none_iff_forall_ne_some]
        intro rest hrest
        rw [after?_eq_some, List.append_assoc, List.singleton_append] at hrest
        exact hpre ⟨_, (Path.join_eq_append hne hothers hinner.segments ho hrest).symm⟩

/-- A path leads to a directory of the disk, or to none, or is refused. -/
theorem IsRooted.dir?_locate {path : Text} (hinner : Path.IsInner path) :
    (disk.node? (base ++ Path.names path) = some .directory ∧
        disk.dir? cwd (View.locate root path) = .ok (some (base ++ Path.names path))) ∨
      (disk.node? (base ++ Path.names path) ≠ some .directory ∧
        disk.dir? cwd (View.locate root path) = .ok none) ∨
      (disk.node? (base ++ Path.names path) = none ∧ IsTooLong cwd (View.locate root path) ∧
        disk.dir? cwd (View.locate root path) =
          .error (refusal (View.locate root path) .nameTooLong)) := by
  rw [dir?, View.locate_of_isInner root hinner]
  rcases h.find?_append (Path.names_ne_nil path) hinner.segments with hfind | ⟨hnode, hlong, hfind⟩
  · rw [hfind]
    cases hnode : disk.node? (base ++ Path.names path) with
    | none => exact .inr (.inl ⟨by simp, rfl⟩)
    | some node =>
        cases node with
        | directory => exact .inl ⟨rfl, rfl⟩
        | file bytes => exact .inr (.inl ⟨by simp, rfl⟩)
  · rw [hfind]
    exact .inr (.inr ⟨hnode, hlong, rfl⟩)

/-- Walking the disk finds what walking the tree finds. -/
theorem IsRooted.walk_locate {path : Text} (hinner : Path.IsInner path) :
    (View.disk cwd root).walk disk path = .ok ((disk.treeBelow base).walk path) ∨
      ((disk.treeBelow base).walk path = [] ∧ disk.node? (base ++ Path.names path) = none ∧
        IsRefused cwd root path ((View.disk cwd root).walk disk path)) := by
  have hempty : disk.node? (base ++ Path.names path) ≠ some .directory →
      (disk.treeBelow base).walk path = [] := by
    intro hnode
    rw [Tree.walk, h.keysBelow_of_not_directory hinner hnode, sort, List.mergeSort_nil]
  simp only [View.disk, Disk.walk]
  rcases h.dir?_locate hinner with ⟨hnode, hdir⟩ | ⟨hnode, hdir⟩ | ⟨hnode, hlong, hdir⟩
  · have hnot := h.not_mem_files h.there (Path.names_ne_nil path) hinner.segments hnode
    rw [hdir, Tree.walk, h.keysBelow_treeBelow hinner hnot]
    exact .inl rfl
  · rw [hdir, hempty hnode]
    exact .inl rfl
  · rw [hdir]
    exact .inr ⟨hempty (by simp [hnode]), hnode, hlong, rfl⟩

/-- Reading a file of the disk gives what reading it in the tree gives. -/
theorem IsRooted.readBytes_locate {path : Text} (hinner : Path.IsInner path) :
    ((View.disk cwd root).readBytes disk path).toOption =
      ((disk.treeBelow base).readBytes path).toOption := by
  rw [Tree.readBytes, h.get?_key hinner]
  simp only [View.disk, Disk.readBytes, View.locate_of_isInner root hinner]
  rcases h.lookup_append (Path.names_ne_nil path) hinner.segments with
    ⟨node, hnode, hlookup⟩ | ⟨hnode, kind, hlookup⟩
  · rw [hlookup, hnode]
    cases node <;> rfl
  · rw [hlookup, hnode]
    rfl

/-- A directory of the tree is one of the disk. -/
theorem IsRooted.isDir_locate {path : Text} (hinner : Path.IsInner path)
    (hdir : (disk.treeBelow base).isDir path = true) :
    disk.node? (base ++ Path.names path) = some .directory := by
  rw [Tree.isDir, Bool.or_eq_true, List.isEmpty_iff, Tree.hasBelow_iff] at hdir
  obtain ⟨rel, hrel⟩ := hdir.resolve_left hinner.key_ne_nil
  have hmem := (h.mem_keys_below hinner).mp (by simpa using hrel)
  exact h.node?_above h.there (split_ne_nil '/' rel) (List.mem_append_right _ hmem)

/-- What is in the tree is on the disk. -/
theorem IsRooted.present_locate {path : Text} (hinner : Path.IsInner path)
    (hpresent : (disk.treeBelow base).present path = true) :
    (disk.node? (base ++ Path.names path)).isSome = true := by
  rw [Tree.present, Bool.or_eq_true] at hpresent
  rcases hpresent with hfile | hdir
  · rw [Tree.isFile, h.get?_key hinner] at hfile
    cases hnode : disk.node? (base ++ Path.names path) with
    | none =>
        rw [hnode] at hfile
        cases hfile
    | some node => rfl
  · rw [h.isDir_locate hinner hdir]
    rfl

theorem IsRooted.mem_listDir_treeBelow {path name : Text} (hinner : Path.IsInner path) :
    name ∈ (disk.treeBelow base).listDir path ↔
      ∃ back, base ++ (Path.names path ++ name :: back) ∈ disk.files.map (·.1) := by
  rw [Tree.mem_listDir, Tree.keyStart_of_key rfl hinner.key_ne_nil]
  constructor
  · rintro ⟨rel, hrel, rfl⟩
    rw [h.mem_keys_below hinner] at hrel
    obtain ⟨back, hback⟩ := List.head?_eq_some_iff.mp (head?_split '/' rel)
    exact ⟨back, hback ▸ hrel⟩
  · rintro ⟨back, hmem⟩
    have hsegments := (h.areNamed _ hmem).2
    have hslash : ∀ part ∈ name :: back, '/' ∉ part := fun part hpart =>
      (hsegments part (List.mem_append_right _ hpart)).slash_not_mem
    have hsplit := split_join (by simp) hslash
    refine ⟨join ['/'] (name :: back), ?_, ?_⟩
    · rwa [h.mem_keys_below hinner, hsplit]
    · have hhead := head?_split '/' (join ['/'] (name :: back))
      rw [hsplit, List.head?_cons] at hhead
      exact Option.some.inj hhead

/-- Walking below a name of a directory finds the files with more names. -/
private theorem IsRooted.walk_child_ne_nil {path name : Text} (hinner : Path.IsInner path)
    (hname : Path.IsSegment name)
    (hnode : disk.node? (base ++ (Path.names path ++ [name])) = some .directory) :
    (disk.treeBelow base).walk (Path.key path ++ '/' :: name) ≠ [] ↔
      ∃ back, base ++ (Path.names path ++ name :: back) ∈ disk.files.map (·.1) := by
  have hinner' := hinner.child hname
  have hmem : ∀ rel, rel ∈ (disk.treeBelow base).walk (Path.key path ++ '/' :: name) ↔
      base ++ (Path.names path ++ name :: split '/' rel) ∈ disk.files.map (·.1) := by
    intro rel
    rw [Tree.mem_walk, Tree.keyStart_of_key rfl hinner'.key_ne_nil, h.mem_keys_below hinner',
      hinner.names_child hname, List.append_assoc]
    rfl
  constructor
  · intro hwalk
    obtain ⟨rel, hrel⟩ := List.exists_mem_of_ne_nil _ hwalk
    exact ⟨_, (hmem rel).mp hrel⟩
  · rintro ⟨back, hfile⟩
    have hback : back ≠ [] := by
      rintro rfl
      rw [← hinner.names_child hname] at hnode hfile
      exact h.not_mem_files h.there (Path.names_ne_nil _) hinner'.segments hnode hfile
    have hslash : ∀ part ∈ back, '/' ∉ part := fun part hpart =>
      ((h.areNamed _ hfile).2 part (by simp [hpart])).slash_not_mem
    rw [← split_join hback hslash] at hfile
    exact List.ne_nil_of_mem ((hmem _).mpr hfile)

/-- A name in a directory of the disk is missing in the tree just when no file is below it. -/
theorem IsRooted.mem_listDir_iff {path name : Text} (hinner : Path.IsInner path)
    (hname : name ∈ disk.namesIn (base ++ Path.names path)) :
    name ∈ (disk.treeBelow base).listDir path ↔
      (View.disk cwd root).isHollow disk (Path.key path ++ '/' :: name) = false := by
  obtain ⟨entry, hentry, rest, rfl⟩ := mem_namesIn.mp hname
  rw [List.append_assoc] at hentry
  have hsegment : Path.IsSegment name := (h.nameable _ (by simp) hentry).segments name (by simp)
  have hinner' := hinner.child hsegment
  have hnames := hinner.names_child hsegment
  have hsplit : Path.names path ++ name :: rest = Path.names path ++ [name] ++ rest := by simp
  have hsome : (disk.node? (base ++ (Path.names path ++ [name]))).isSome = true := by
    by_cases hrest : rest = []
    · rw [hrest] at hentry
      have hsegments := (h.nameable _ (by simp) hentry).segments
      rwa [isSome_node?_append h.there (by simp) hsegments]
    · rw [hsplit] at hentry
      rw [h.node?_above h.there hrest hentry]
      rfl
  have hisDir : (View.disk cwd root).isDir disk (Path.key path ++ '/' :: name) =
      (Option.isSome <$> disk.dir? cwd (View.locate root (Path.key path ++ '/' :: name))).mapError
        .refused := rfl
  rw [View.isHollow, hisDir]
  rcases h.dir?_locate hinner' with ⟨hnode, hdir⟩ | ⟨hnode, hdir⟩ | ⟨hnode, -, -⟩
  · rw [hnames] at hnode
    have hwalk : (View.disk cwd root).walk disk (Path.key path ++ '/' :: name) =
        .ok ((disk.treeBelow base).walk (Path.key path ++ '/' :: name)) := by
      refine (h.walk_locate hinner').resolve_right fun hrefused => ?_
      rw [hnames, hnode] at hrefused
      cases hrefused.2.1
    rw [h.mem_listDir_treeBelow hinner, ← h.walk_child_ne_nil hinner hsegment hnode, hdir,
      hwalk]
    cases (disk.treeBelow base).walk (Path.key path ++ '/' :: name) <;> simp [Except.mapError]
  · rw [hnames] at hnode
    have hfile : base ++ (Path.names path ++ [name]) ∈ disk.files.map (·.1) := by
      rw [node?_of_not_directory hnode, Option.isSome_map, isSome_file?] at hsome
      exact hsome
    rw [h.mem_listDir_treeBelow hinner, hdir]
    exact ⟨fun _ => rfl, fun _ => ⟨[], hfile⟩⟩
  · rw [hnames] at hnode
    rw [hnode] at hsome
    cases hsome

/-- Listing a directory of the disk finds the names of hollow directories besides. -/
theorem IsRooted.listDir_locate {path : Text} (hinner : Path.IsInner path) :
    (∃ names, (View.disk cwd root).listDir disk path = .ok names ∧
        (disk.treeBelow base).listDir path = names.filter fun name =>
          !(View.disk cwd root).isHollow disk (Path.key path ++ '/' :: name)) ∨
      ((disk.treeBelow base).listDir path = [] ∧
        IsRefused cwd root path ((View.disk cwd root).listDir disk path)) := by
  have hempty : disk.node? (base ++ Path.names path) ≠ some .directory →
      (disk.treeBelow base).listDir path = [] := by
    intro hnode
    rw [Tree.listDir, h.keysBelow_of_not_directory hinner hnode, List.map_nil, distinct,
      List.eraseDups_nil, sort, List.mergeSort_nil]
  simp only [View.disk, Disk.listDir]
  rcases h.dir?_locate hinner with ⟨hnode, hdir⟩ | ⟨hnode, hdir⟩ | ⟨hnode, hlong, hdir⟩
  · rw [hdir]
    refine .inl ⟨disk.namesIn (base ++ Path.names path), rfl, ?_⟩
    have hsorted : (disk.namesIn (base ++ Path.names path)).Pairwise (· < ·) :=
      pairwise_lt_sort (nodup_distinct _)
    apply ((disk.treeBelow base).pairwise_lt_listDir path).eq_of_mem_iff (hsorted.filter _)
    intro name
    rw [List.mem_filter, Bool.not_eq_true']
    constructor
    · intro hname
      obtain ⟨back, hfile⟩ := (h.mem_listDir_treeBelow hinner).mp hname
      have hlisted : name ∈ disk.namesIn (base ++ Path.names path) := by
        rw [← List.append_assoc] at hfile
        exact mem_namesIn.mpr ⟨_, List.mem_append_right _ hfile, back, rfl⟩
      exact ⟨hlisted, (h.mem_listDir_iff hinner hlisted).mp hname⟩
    · exact fun hname => (h.mem_listDir_iff hinner hname.1).mpr hname.2
  · rw [hdir, hempty hnode]
    exact .inl ⟨[], rfl, rfl⟩
  · rw [hdir]
    exact .inr ⟨hempty (by simp [hnode]), hlong, rfl⟩

theorem IsRooted.showsSame {path : Text} (hinner : Path.IsInner path) :
    ShowsSame cwd root disk (disk.treeBelow base) path where
  readBytes := h.readBytes_locate hinner
  walk := (h.walk_locate hinner).imp_right fun ⟨hempty, _, hrefused⟩ => ⟨hempty, hrefused⟩
  present := by
    intro hpresent
    have hsome := h.present_locate hinner hpresent
    simp only [View.disk, Disk.present, View.locate_of_isInner root hinner]
    rcases h.find?_append (Path.names_ne_nil path) hinner.segments with hfind | ⟨hnode, -, -⟩
    · rw [hfind]
      change Except.ok (Option.map _ (disk.node? _)).isSome = _
      rw [Option.isSome_map, hsome]
    · rw [hnode] at hsome
      cases hsome
  isDir := by
    intro hisDir
    have hnode := h.isDir_locate hinner hisDir
    simp only [View.disk, Disk.isDir]
    rcases h.dir?_locate hinner with ⟨-, hdir⟩ | ⟨hnot, -⟩ | ⟨hnone, -, -⟩
    · rw [hdir]
      rfl
    · exact absurd hnode hnot
    · rw [hnone] at hnode
      cases hnode
  listDir := h.listDir_locate hinner

/-- The files of the tree are the files below the place. -/
theorem IsRooted.sortedFiles_treeBelow :
    (disk.treeBelow base).sortedFiles = disk.sortedFiles base := by
  rw [Tree.sortedFiles, Disk.sortedFiles, treeBelow]
  congr 1
  apply List.filterMap_congr
  intro file hfile
  rw [entryBelow]
  cases hbelow : below? base file.1 with
  | none => rfl
  | some names =>
      have hmem : base ++ names ∈ disk.files.map (·.1) := by
        rw [← below?_eq_some.mp hbelow]
        exact List.mem_map_of_mem hfile
      obtain ⟨part, rest, rfl⟩ := List.exists_cons_of_ne_nil (h.apart names hmem).1
      rfl

end

end Disk

/-! ## Which operations succeed -/

/-- A file can be written at a path: the disk lets it have its names, there is no directory, and
the tree has no file above. -/
structure IsWritable (cwd : List Text) (root : Location) (disk : Disk) (tree : Tree)
    (path : Text) : Prop where
  nameable : Disk.IsNameable root (Path.names path)
  not_dir : (View.disk cwd root).isDir disk path ≠ .ok true
  free : ∀ front back, front ≠ [] → back ≠ [] → Path.names path = front ++ back →
    tree.get? (join ['/'] front) = none

/-- What makes an operation succeed on a disk. -/
def Operation.IsAccepted (cwd : List Text) (root : Location) (disk : Disk) (tree : Tree) :
    Operation → Prop
  | .writeBytes path _ => IsWritable cwd root disk tree path
  | .writeText path text => IsWritable cwd root disk tree path ∧
      ∃ bytes, Utf8.encodeCode text = .ok bytes
  | .remove path => ∃ found, (View.disk cwd root).present disk path = .ok found

namespace Disk.IsRooted

variable {cwd : List Text} {root : Location} {base : List Text} {disk : Disk}
  (h : Disk.IsRooted cwd root base disk)

include h

theorem isWritable_iff {path : Text} (hinner : Path.IsInner path) :
    AddonBundle.IsWritable cwd root disk (disk.treeBelow base) path ↔
      Disk.IsWritable root base disk (Path.names path) := by
  have hdir : (View.disk cwd root).isDir disk path = .ok true ↔
      disk.node? (base ++ Path.names path) = some .directory := by
    simp only [View.disk, Disk.isDir]
    rcases h.dir?_locate hinner with ⟨hnode, hdir⟩ | ⟨hnode, hdir⟩ | ⟨hnode, -, hdir⟩
    · rw [hdir]
      exact iff_of_true rfl hnode
    · rw [hdir]
      exact iff_of_false (fun hfalse => by cases hfalse) hnode
    · rw [hdir, hnode]
      exact iff_of_false (fun hfalse => by cases hfalse) (by simp)
  exact ⟨fun hw => ⟨hw.nameable, mt hdir.mpr hw.not_dir, hw.free⟩,
    fun hw => ⟨hw.nameable, mt hdir.mp hw.not_directory, hw.free⟩⟩

/-- Below a root that is there, an operation succeeds exactly when it is accepted. -/
theorem apply_eq_ok_iff (hnode : disk.node? base = some .directory) {operation : Operation}
    (hinner : Path.IsInner operation.path) :
    (operation.apply (View.disk cwd root) disk).1 = .ok () ↔
      operation.IsAccepted cwd root disk (disk.treeBelow base) := by
  have hmade : disk.IsMade cwd root base := by
    refine h.leads.resolve_right fun hunmade => ?_
    rw [hunmade.node_eq] at hnode
    cases hnode
  cases operation with
  | writeBytes path bytes =>
      have hinner : Path.IsInner path := hinner
      have hne := Path.names_ne_nil path
      have hlocate := View.locate_of_isInner root hinner
      refine Iff.trans ?_ (h.isWritable_iff hinner).symm
      constructor
      · intro hok
        have hwrite := View.writeFile_of_writeBytes (Prod.ext hok rfl)
        rw [hlocate] at hwrite
        exact h.isWritable_of_writeFile hne hinner.segments hwrite
      · intro hwritable
        obtain ⟨written, hwrite⟩ := h.exists_writeFile hne hmade hwritable bytes
        simp only [Operation.apply, View.disk, hlocate, hwrite]
        rfl
  | writeText path text =>
      have hinner : Path.IsInner path := hinner
      have hne := Path.names_ne_nil path
      have hlocate := View.locate_of_isInner root hinner
      refine Iff.trans ?_ (and_congr_left' (h.isWritable_iff hinner).symm)
      constructor
      · intro hok
        obtain ⟨bytes, opened, hencode, hopen, -⟩ :=
          View.writeFile_of_writeText (Prod.ext hok rfl)
        rw [hlocate] at hopen
        exact ⟨h.isWritable_of_writeFile hne hinner.segments hopen, bytes, hencode⟩
      · rintro ⟨hwritable, bytes, hencode⟩
        obtain ⟨opened, hopen⟩ := h.exists_writeFile hne hmade hwritable []
        obtain ⟨hmade', hwritable'⟩ := h.isWritable_written hne hwritable hopen
        have hopened := (h.writeFile hne hinner.segments hopen).1
        obtain ⟨written, hwrite⟩ := hopened.exists_writeFile hne hmade' hwritable' bytes
        simp only [Operation.apply, View.disk, hlocate, hopen, hencode, hwrite]
        rfl
  | remove path =>
      simp only [Operation.apply, Operation.IsAccepted, View.disk, Disk.remove, Disk.present]
      cases disk.find? cwd (View.locate root path) with
      | error refused =>
          exact iff_of_false (fun hok => by cases hok) fun ⟨found, hfound⟩ => by cases hfound
      | ok found =>
          refine iff_of_true ?_ ⟨found.isSome, rfl⟩
          cases found <;> rfl

end Disk.IsRooted

/-! ## A disk simulates a tree -/

/-- Nothing is below a root yet: the root leads to a directory in which there is nothing, or has
not been made. -/
def Disk.IsVacant (disk : Disk) (cwd : List Text) (root : Location) (base : List Text) : Prop :=
  disk.IsEmptyAt cwd root base ∨ disk.IsUnmade cwd root base

/-- After any operations that succeed on both, a disk that had nothing below the root and a tree
that was empty hold the same files, and looking at the disk shows what the tree shows. Once the root
is there, the operations that are accepted are those that succeed on the disk, and no others. -/
theorem disk_simulates_tree {start : Disk} {cwd : List Text} {root : Location} {base : List Text}
    (hstart : start.IsVacant cwd root base) {operations : List Operation}
    (hinner : ∀ operation ∈ operations, Path.IsInner operation.path) :
    let s := Operation.applyAll cwd root operations (start, {})
    s.2.sortedFiles = s.1.sortedFiles base ∧
      (∀ path, Path.IsInner path → ShowsSame cwd root s.1 s.2 path) ∧
      (s.1.node? base = some .directory → ∀ operation : Operation,
        Path.IsInner operation.path →
          ((operation.apply (View.disk cwd root) s.1).1 = .ok () ↔
            operation.IsAccepted cwd root s.1 s.2)) := by
  intro s
  have hrooted : Disk.IsRooted cwd root base start :=
    hstart.elim Disk.IsEmptyAt.isRooted Disk.IsUnmade.isRooted
  have hempty : start.treeBelow base = {} :=
    Disk.treeBelow_of_filesBelow (hstart.elim Disk.IsEmptyAt.files Disk.IsUnmade.files)
  have hall := Operation.applyAll_eq hrooted hinner
  rw [hempty] at hall
  obtain ⟨hafter, htree⟩ : Disk.IsRooted cwd root base s.1 ∧ s.2 = s.1.treeBelow base := hall
  rw [htree]
  exact ⟨hafter.sortedFiles_treeBelow, fun path hpath => hafter.showsSame hpath,
    fun hnode operation hpath => hafter.apply_eq_ok_iff hnode hpath⟩

/-- A removed file leaves the one beside it whose name goes on. -/
theorem disk_simulates_tree_beside :
    let start : Disk := { dirs := [["r".toList]] }
    let root := Location.ofText "/r".toList
    let operations := [.writeBytes "a/b".toList [1], .writeText "./a//bc".toList [],
      .remove "a/b".toList]
    let s := Operation.applyAll [] root operations (start, {})
    start.IsVacant [] root ["r".toList] ∧
      (∀ operation ∈ operations, Path.IsInner operation.path) ∧
      s.2.keys = ["a/bc".toList] ∧ s.1.node? ["r".toList] = some .directory ∧
      s.2.sortedFiles = s.1.sortedFiles ["r".toList] ∧
      (∀ path, Path.IsInner path → ShowsSame [] root s.1 s.2 path) ∧
      (s.1.node? ["r".toList] = some .directory → ∀ operation : Operation,
        Path.IsInner operation.path →
          ((operation.apply (View.disk [] root) s.1).1 = .ok () ↔
            operation.IsAccepted [] root s.1 s.2)) := by
  have hvacant : Disk.IsVacant { dirs := [["r".toList]] } [] (Location.ofText "/r".toList)
      ["r".toList] := .inl ⟨by decide, by decide, by decide, by decide, by decide⟩
  have hinner : ∀ operation ∈ [Operation.writeBytes "a/b".toList [1],
      .writeText "./a//bc".toList [], .remove "a/b".toList], Path.IsInner operation.path := by
    decide
  refine ⟨hvacant, hinner, ?_, ?_, disk_simulates_tree hvacant hinner⟩
  · decide +kernel
  · decide +kernel

/-- A disk refuses to look for a name of 256 bytes, below which a tree finds nothing. -/
theorem disk_simulates_tree_long_name :
    let start : Disk := { dirs := [["r".toList]] }
    let root := Location.ofText "/r".toList
    let path := List.replicate 256 'a'
    let s := Operation.applyAll [] root [] (start, {})
    start.IsVacant [] root ["r".toList] ∧ Path.IsInner path ∧
      (View.disk [] root).walk s.1 path ≠ View.tree.walk s.2 path := by
  refine ⟨.inl ⟨by decide, by decide, by decide, by decide, by decide⟩, ?_, ?_⟩
  · decide +kernel
  · decide +kernel

end AddonBundle
