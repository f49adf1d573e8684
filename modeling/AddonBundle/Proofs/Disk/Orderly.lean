import AddonBundle.Proofs.Disk.Below
/-!
# Entries in order

Below a place of a disk every entry lies in a directory, no file stands where a directory is, and
the names are such as the disk lets an entry have. This stays so when a directory is made, above the
place or below it, when a file is written in a directory, and when entries go.
-/

namespace AddonBundle

open Text

namespace Disk

variable {disk : Disk} {root : Location} {base names : List Text}

/-- Names that a disk lets an entry below a root have. -/
structure IsNameable (root : Location) (names : List Text) : Prop where
  segments : ∀ name ∈ names, Path.IsSegment name
  short : ∀ name ∈ names, byteLength name ≤ maxName
  text : '\x00' ∉ (root.append ⟨0, names⟩).text
  length : byteLength (root.append ⟨0, names⟩).text ≤ maxPath

/-- The entries below a place are in order: each can have its name and lies in a directory, and no
two are at one place. -/
structure IsOrderly (root : Location) (base : List Text) (disk : Disk) : Prop where
  nameable : ∀ names, names ≠ [] → base ++ names ∈ disk.entries → IsNameable root names
  parent : ∀ names name, base ++ (names ++ [name]) ∈ disk.entries →
    disk.node? (base ++ names) = some .directory
  apart : ∀ names, base ++ names ∈ disk.files.map (·.1) → names ≠ [] ∧ base ++ names ∉ disk.dirs
  nodup : (disk.treeBelow base).keys.Nodup

theorem mem_dirsBelow : names ∈ disk.dirsBelow base ↔ base ++ names ∈ disk.dirs ∧ names ≠ [] := by
  rw [dirsBelow, List.mem_filter, List.mem_filterMap]
  constructor
  · rintro ⟨⟨dir, hdir, hbelow⟩, hne⟩
    exact ⟨below?_eq_some.mp hbelow ▸ hdir, by simpa using hne⟩
  · rintro ⟨hdir, hne⟩
    exact ⟨⟨_, hdir, below?_eq_some.mpr rfl⟩, by simpa using hne⟩

theorem not_mem_files_of_filesBelow (h : disk.filesBelow base = []) (names : List Text) :
    base ++ names ∉ disk.files.map (·.1) := by
  rw [← mem_filesBelow, h]
  exact List.not_mem_nil

theorem treeBelow_of_filesBelow (h : disk.filesBelow base = []) : disk.treeBelow base = {} := by
  rw [treeBelow, List.filterMap_eq_nil_iff.mpr]
  intro file hfile
  rw [entryBelow, Option.map_eq_none_iff, Option.eq_none_iff_forall_ne_some]
  exact fun names hbelow => not_mem_files_of_filesBelow h names
    (below?_eq_some.mp hbelow ▸ List.mem_map_of_mem hfile)

/-- Where there is nothing, all is in order. -/
theorem isOrderly_of_nothing (hfiles : disk.filesBelow base = [])
    (hdirs : disk.dirsBelow base = []) : IsOrderly root base disk := by
  have hentries : ∀ names, names ≠ [] → base ++ names ∉ disk.entries := by
    intro names hne hmem
    rcases List.mem_append.mp hmem with hdir | hfile
    · have hbelow := mem_dirsBelow.mpr ⟨hdir, hne⟩
      rw [hdirs] at hbelow
      cases hbelow
    · exact not_mem_files_of_filesBelow hfiles names hfile
  exact
    { nameable := fun names hne hmem => absurd hmem (hentries names hne)
      parent := fun names name hmem => absurd hmem (hentries _ (by simp))
      apart := fun names hmem => absurd hmem (not_mem_files_of_filesBelow hfiles names)
      nodup := by
        rw [treeBelow_of_filesBelow hfiles]
        exact List.nodup_nil }

theorem node?_mono {other : Disk} (h : ∀ place ∈ disk.dirs, place ∈ other.dirs)
    {place : List Text} (hnode : disk.node? place = some .directory) :
    other.node? place = some .directory := by
  rw [node?_eq_directory] at hnode ⊢
  exact hnode.imp_right (.imp_right (h place))

theorem node?_addDirs {dirs : List (List Text)} {place : List Text} (hnot : place ∉ dirs) :
    node? { disk with dirs := disk.dirs ++ dirs } place = disk.node? place := by
  unfold node?
  simp [hnot]

theorem node?_append_eq_directory (hbase : isRemoved base = false) (hne : names ≠ [])
    (hnames : ∀ name ∈ names, Path.IsSegment name) :
    disk.node? (base ++ names) = some .directory ↔ base ++ names ∈ disk.dirs := by
  rw [node?_eq_directory, isRemoved_append hbase hnames]
  simp [hne]

theorem isSome_node?_append (hbase : isRemoved base = false) (hne : names ≠ [])
    (hnames : ∀ name ∈ names, Path.IsSegment name) :
    (disk.node? (base ++ names)).isSome = true ↔ base ++ names ∈ disk.entries := by
  rw [entries, List.mem_append, ← node?_append_eq_directory hbase hne hnames, ← isSome_file?]
  by_cases hdir : disk.node? (base ++ names) = some .directory
  · simp [hdir]
  · rw [node?_of_not_directory hdir]
    simp

theorem IsOrderly.areNamed (h : IsOrderly root base disk) : AreNamed base disk.files := by
  intro names hmem
  have hne := (h.apart names hmem).1
  exact ⟨hne, (h.nameable names hne (List.mem_append_right _ hmem)).segments⟩

/-- Above an entry there are directories. -/
theorem IsOrderly.node?_above (h : IsOrderly root base disk) (hbase : isRemoved base = false)
    {front back : List Text} (hback : back ≠ [])
    (hmem : base ++ (front ++ back) ∈ disk.entries) :
    disk.node? (base ++ front) = some .directory := by
  induction back using List.reverseRecOn with
  | nil => exact absurd rfl hback
  | append_singleton back last ih =>
      have hsegments := (h.nameable _ (by simp) hmem).segments
      rw [← List.append_assoc front] at hmem hsegments
      have hparent := h.parent _ last hmem
      by_cases hnil : back = []
      · rwa [hnil, List.append_nil] at hparent
      · apply ih hnil
        rw [← isSome_node?_append hbase (by simp [hnil]), hparent]
        · rfl
        · exact fun name hname => hsegments name (List.mem_append_left _ hname)

theorem IsOrderly.not_mem_files (h : IsOrderly root base disk) (hbase : isRemoved base = false)
    (hne : names ≠ []) (hnames : ∀ name ∈ names, Path.IsSegment name)
    (hnode : disk.node? (base ++ names) = some .directory) :
    base ++ names ∉ disk.files.map (·.1) := fun hmem =>
  (h.apart _ hmem).2 ((node?_append_eq_directory hbase hne hnames).mp hnode)

/-- The tree below holds the files that are there. -/
theorem IsOrderly.get?_treeBelow (h : IsOrderly root base disk) (hbase : isRemoved base = false)
    (hne : names ≠ []) (hnames : ∀ name ∈ names, Path.IsSegment name) :
    (disk.treeBelow base).get? (join ['/'] names) =
      match disk.node? (base ++ names) with
      | some (.file bytes) => some bytes
      | _ => none := by
  rw [Tree.get?, treeBelow, get?_entriesBelow hne hnames h.areNamed]
  by_cases hdir : disk.node? (base ++ names) = some .directory
  · rw [hdir]
    have hnot := h.not_mem_files hbase hne hnames hdir
    rw [← isSome_file?, Bool.not_eq_true, Option.isSome_eq_false_iff, Option.isNone_iff_eq_none]
      at hnot
    exact hnot
  · rw [node?_of_not_directory hdir, file?]
    cases disk.files.find? fun f => f.1 == base ++ names <;> rfl

theorem node?_dropLast_of_canMake {place : List Text} (h : disk.canMake place = .ok ()) :
    disk.node? place.dropLast = some .directory := by
  rw [canMake] at h
  split at h
  · assumption
  · cases h
  · cases h

/-- A directory above the base is none of the entries below it. -/
theorem IsOrderly.addDir_above {place rest : List Text} (hbase : base = place ++ rest)
    (h : IsOrderly root base disk) :
    IsOrderly root base { disk with dirs := disk.dirs ++ [place] } := by
  have hne : ∀ names : List Text, names ≠ [] → base ++ names ≠ place := by
    intro names hnames heq
    rw [hbase, List.append_assoc, List.append_right_eq_self, List.append_eq_nil_iff] at heq
    exact hnames heq.2
  have hentries : ∀ names, names ≠ [] →
      base ++ names ∈ entries { disk with dirs := disk.dirs ++ [place] } →
      base ++ names ∈ disk.entries := by
    intro names hnames hmem
    rw [entries, List.append_assoc, List.mem_append, List.mem_append, List.mem_singleton] at hmem
    rcases hmem with hdir | hnew | hfile
    · exact List.mem_append_left _ hdir
    · exact absurd hnew (hne names hnames)
    · exact List.mem_append_right _ hfile
  refine ⟨fun names hnames hmem => h.nameable names hnames (hentries names hnames hmem), ?_, ?_,
    h.nodup⟩
  · intro names name hmem
    have hparent := h.parent names name (hentries _ (by simp) hmem)
    exact node?_mono (fun other hother => List.mem_append_left _ hother) hparent
  · intro names hmem
    obtain ⟨hnames, hdir⟩ := h.apart names hmem
    refine ⟨hnames, ?_⟩
    rw [List.mem_append, List.mem_singleton, not_or]
    exact ⟨hdir, hne names hnames⟩

/-- One more entry keeps the order, if it lies in a directory and stands apart. -/
theorem IsOrderly.grow (h : IsOrderly root base disk) (hnameable : IsNameable root names)
    (hparent : disk.node? (base ++ names).dropLast = some .directory) {grown : Disk}
    (hdirs : ∀ place ∈ disk.dirs, place ∈ grown.dirs)
    (hentries : ∀ others, base ++ others ∈ grown.entries →
      base ++ others ∈ disk.entries ∨ others = names)
    (hapart : ∀ others, base ++ others ∈ grown.files.map (·.1) →
      others ≠ [] ∧ base ++ others ∉ grown.dirs)
    (hnodup : (grown.treeBelow base).keys.Nodup) : IsOrderly root base grown := by
  refine ⟨?_, ?_, hapart, hnodup⟩
  · intro others hothers hmem
    rcases hentries others hmem with hold | rfl
    · exact h.nameable others hothers hold
    · exact hnameable
  · intro others name hmem
    have habove : disk.node? (base ++ others) = some .directory := by
      rcases hentries _ hmem with hold | hnew
      · exact h.parent others name hold
      · rwa [← hnew, ← List.append_assoc, List.dropLast_concat] at hparent
    exact node?_mono hdirs habove

/-- What is made new can have no entry below it yet. -/
theorem IsOrderly.addDir_below (h : IsOrderly root base disk) (hnameable : IsNameable root names)
    (hnode : disk.node? (base ++ names) = none) (hcan : disk.canMake (base ++ names) = .ok ()) :
    IsOrderly root base { disk with dirs := disk.dirs ++ [base ++ names] } := by
  refine h.grow hnameable (node?_dropLast_of_canMake hcan)
    (fun place hplace => List.mem_append_left _ hplace) ?_ ?_ h.nodup
  · intro others hmem
    rw [entries, List.append_assoc, List.mem_append, List.mem_append, List.mem_singleton,
      List.append_cancel_left_eq] at hmem
    rcases hmem with hdir | hnew | hfile
    · exact .inl (List.mem_append_left _ hdir)
    · exact .inr hnew
    · exact .inl (List.mem_append_right _ hfile)
  · intro others hmem
    obtain ⟨hothers, hdir⟩ := h.apart others hmem
    refine ⟨hothers, ?_⟩
    rw [List.mem_append, List.mem_singleton, not_or]
    refine ⟨hdir, fun hnew => ?_⟩
    rw [node?_of_not_directory (by simp [hnode]), Option.map_eq_none_iff] at hnode
    rw [hnew, ← isSome_file?] at hmem
    change (disk.file? (base ++ names)).isSome = true at hmem
    rw [hnode] at hmem
    cases hmem

/-- The files may get one more, in a directory. -/
theorem IsOrderly.of_files (h : IsOrderly root base disk) (hbase : isRemoved base = false)
    (hne : names ≠ []) (hnameable : IsNameable root names)
    {files : List (List Text × Bytes)}
    (hfiles : ∀ place ∈ files.map (·.1), place ∈ disk.files.map (·.1) ∨ place = base ++ names)
    (hdir : disk.node? (base ++ names) ≠ some .directory)
    (hparent : disk.node? (base ++ names).dropLast = some .directory)
    (hnodup : (Disk.treeBelow { disk with files } base).keys.Nodup) :
    IsOrderly root base { disk with files } := by
  refine h.grow hnameable hparent (fun _ hplace => hplace) ?_ ?_ hnodup
  · intro others hmem
    rcases List.mem_append.mp hmem with hdir | hfile
    · exact .inl (List.mem_append_left _ hdir)
    · exact (hfiles _ hfile).imp (List.mem_append_right _) List.append_cancel_left
  · intro others hmem
    rcases hfiles _ hmem with hold | hnew
    · exact h.apart others hold
    · obtain rfl := List.append_cancel_left hnew
      exact ⟨hne, fun hmem => hdir
        ((node?_append_eq_directory hbase hne hnameable.segments).mpr hmem)⟩

theorem mem_entries_removeAt {place other : List Text} :
    other ∈ (disk.removeAt place).entries ↔ other ∈ disk.entries ∧ ¬ place <+: other := by
  simp only [entries, removeAt, List.mem_append, List.mem_map, List.mem_filter, isNone_below?]
  constructor
  · rintro (⟨hdir, hnot⟩ | ⟨file, ⟨hfile, hnot⟩, rfl⟩)
    · exact ⟨.inl hdir, hnot⟩
    · exact ⟨.inr ⟨file, hfile, rfl⟩, hnot⟩
  · rintro ⟨hdir | ⟨file, hfile, rfl⟩, hnot⟩
    · exact .inl ⟨hdir, hnot⟩
    · exact .inr ⟨file, ⟨hfile, hnot⟩, rfl⟩

end Disk

end AddonBundle
