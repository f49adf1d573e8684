import AddonBundle.Proofs.Path
import AddonBundle.Storage
/-!
# Disks

Where the parts of a location lead on a disk, and what writing changes: a written file, and before
it some directories above it. So what holds of a disk and is kept when a directory is made is kept
when all of them are.
-/

namespace AddonBundle

/-- The parts of a relative location seen from another come behind those of the other. -/
theorem Location.absolute_append (root : Location) (cwd names : List Text) :
    (root.append ⟨0, names⟩).absolute cwd = root.absolute cwd ++ names := by
  unfold append absolute isAbsolute
  simp only [ne_eq, not_true_eq_false, decide_false, Bool.false_eq_true, if_false]
  split <;> simp

namespace Disk

variable {disk : Disk} {cwd : List Text}

theorem below?_eq_some {base place rest : List Text} :
    below? base place = some rest ↔ place = base ++ rest := by
  induction base generalizing place with
  | nil => simp [below?, eq_comm]
  | cons p base ih =>
      cases place with
      | nil => simp [below?]
      | cons q place =>
          by_cases h : p = q
          · simp [below?, h, ih]
          · simp [below?, h, Ne.symm h]

theorem mem_namesIn {place : List Text} {name : Text} :
    name ∈ disk.namesIn place ↔
      ∃ entry ∈ disk.dirs ++ disk.files.map (·.1), ∃ rest, entry = place ++ name :: rest := by
  rw [namesIn, Text.mem_sort, Text.mem_distinct, List.mem_filterMap]
  constructor
  · rintro ⟨entry, hentry, hname⟩
    obtain ⟨names, hnames, hhead⟩ := Option.bind_eq_some_iff.mp hname
    obtain ⟨rest, rfl⟩ := List.head?_eq_some_iff.mp hhead
    exact ⟨entry, hentry, rest, below?_eq_some.mp hnames⟩
  · rintro ⟨entry, hentry, rest, rfl⟩
    exact ⟨_, hentry, by rw [below?_eq_some.mpr rfl]; rfl⟩

theorem mem_filesBelow {place names : List Text} :
    names ∈ disk.filesBelow place ↔ place ++ names ∈ disk.files.map (·.1) := by
  rw [filesBelow, List.mem_filterMap, List.mem_map]
  constructor
  · rintro ⟨file, hfile, hnames⟩
    exact ⟨file, hfile, below?_eq_some.mp hnames⟩
  · rintro ⟨file, hfile, hplace⟩
    exact ⟨file, hfile, below?_eq_some.mpr hplace⟩

/-! ## Following parts -/

theorem follow_append (reached front back : List Text) :
    disk.follow reached (front ++ back) =
      (disk.follow reached front >>= fun place => disk.follow place back) := by
  induction front generalizing reached with
  | nil => rfl
  | cons part front ih =>
      rw [List.cons_append, follow, follow]
      split
      · split
        · exact ih _
        · split
          · rfl
          · exact ih _
      · rfl
      · rfl

/-- The names of a place that is led to are names of the parts. -/
theorem mem_follow {reached parts place : List Text} (h : disk.follow reached parts = .ok place)
    {name : Text} (hname : name ∈ place) :
    name ∈ reached ∨ (name ∈ parts ∧ name ≠ Path.outer) := by
  induction parts generalizing reached with
  | nil =>
      obtain rfl : reached = place := Except.ok.inj h
      exact .inl hname
  | cons part rest ih =>
      rw [follow] at h
      split at h
      · split at h
        · rcases ih h with hreached | ⟨hrest, hne⟩
          · exact .inl (List.mem_of_mem_tail hreached)
          · exact .inr ⟨List.mem_cons_of_mem _ hrest, hne⟩
        · rename_i houter
          split at h
          · cases h
          · rcases ih h with hreached | ⟨hrest, hne⟩
            · rcases List.mem_cons.mp hreached with rfl | hreached
              · exact .inr ⟨List.mem_cons_self, houter⟩
              · exact .inl hreached
            · exact .inr ⟨List.mem_cons_of_mem _ hrest, hne⟩
      · cases h
      · cases h

theorem exists_follow_of_place {l : Location} {place : List Text}
    (h : disk.place cwd l = .ok place) :
    disk.follow [] (l.absolute cwd) = .ok place.reverse := by
  unfold Disk.place at h
  split at h
  · cases h
  · split at h
    · cases h
    · cases hfollow : disk.follow [] (l.absolute cwd) with
      | error kind =>
          rw [hfollow] at h
          cases h
      | ok found =>
          rw [hfollow] at h
          obtain rfl : found.reverse = place := Except.ok.inj h
          rw [List.reverse_reverse]

/-- Where parts lead stays, as long as no directory is lost. -/
theorem follow_mono {other : Disk}
    (h : ∀ place, disk.node? place = some .directory → other.node? place = some .directory)
    {reached parts place : List Text} (hfollow : disk.follow reached parts = .ok place) :
    other.follow reached parts = .ok place := by
  induction parts generalizing reached with
  | nil => exact hfollow
  | cons part rest ih =>
      rw [follow] at hfollow ⊢
      cases hnode : disk.node? reached.reverse with
      | none =>
          rw [hnode] at hfollow
          cases hfollow
      | some node =>
          rw [hnode] at hfollow
          cases node with
          | file bytes => cases hfollow
          | directory =>
              rw [h _ hnode]
              dsimp only at hfollow ⊢
              split at hfollow
              · rename_i houter
                rw [if_pos houter]
                exact ih hfollow
              · rename_i houter
                rw [if_neg houter]
                split at hfollow
                · cases hfollow
                · rename_i hlength
                  rw [if_neg hlength]
                  exact ih hfollow

/-- Parts lead on from directories only. -/
theorem node?_of_follow {reached front back place : List Text} (hback : back ≠ [])
    (h : disk.follow reached (front ++ back) = .ok place) :
    ∃ middle, disk.follow reached front = .ok middle ∧
      disk.node? middle.reverse = some .directory := by
  rw [follow_append] at h
  cases hfront : disk.follow reached front with
  | error kind =>
      rw [hfront] at h
      cases h
  | ok middle =>
      rw [hfront] at h
      change disk.follow middle back = _ at h
      obtain ⟨part, rest, rfl⟩ := List.exists_cons_of_ne_nil hback
      refine ⟨middle, rfl, ?_⟩
      rw [follow] at h
      split at h
      · assumption
      · cases h
      · cases h

/-! ## Making directories -/

theorem makeDir_eq_ok {l : Location} {made : Disk} (h : disk.makeDir cwd l = .ok made) :
    ∃ place, disk.place cwd l = .ok place ∧ disk.node? place = none ∧
      disk.canMake place = .ok () ∧ made = { disk with dirs := disk.dirs ++ [place] } := by
  rw [makeDir] at h
  cases hplace : disk.place cwd l with
  | error kind =>
      rw [hplace] at h
      cases h
  | ok place =>
      rw [hplace] at h
      dsimp only [bind, Except.bind] at h
      cases hnode : disk.node? place with
      | some node =>
          rw [hnode] at h
          cases h
      | none =>
          rw [hnode] at h
          cases hmake : disk.canMake place with
          | error kind =>
              dsimp only at h
              rw [hmake] at h
              cases h
          | ok _ =>
              dsimp only at h
              rw [hmake] at h
              exact ⟨place, rfl, hnode, hmake, (Except.ok.inj h).symm⟩

section

variable {Q : Disk → Prop} {l : Location}

private theorem ensureDir_keeps (h : ∀ made, disk.makeDir cwd l = .ok made → Q made)
    (hdisk : Q disk) : Q (ensureDir cwd disk l).2 := by
  rw [ensureDir]
  split
  · rename_i made hmade
    exact h made hmade
  · split
    · exact hdisk
    · exact hdisk

/-- What is kept when one directory is made, at a location or above it, is kept when all missing
directories are. -/
theorem makeDirs_keeps
    (h : ∀ disk made above, above.slashes = l.slashes → above.parts <+: l.parts → Q disk →
      disk.makeDir cwd above = .ok made → Q made)
    (hdisk : Q disk) : Q (makeDirs cwd disk l).2 := by
  fun_induction makeDirs cwd disk l with
  | case1 l hmissing hparts => exact hdisk
  | case2 l hmissing hparts refused middle hmake ih =>
      have hmiddle := ih (fun disk made above hslashes hpre =>
        h disk made above hslashes (hpre.trans (List.dropLast_prefix _)))
      rwa [hmake] at hmiddle
  | case3 l hmissing hparts _ middle hmake ih =>
      have hmiddle := ih (fun disk made above hslashes hpre =>
        h disk made above hslashes (hpre.trans (List.dropLast_prefix _)))
      rw [hmake] at hmiddle
      exact ensureDir_keeps (fun made => h _ made l rfl List.prefix_rfl hmiddle) hmiddle
  | case4 l _ =>
      exact ensureDir_keeps (fun made => h disk made l rfl List.prefix_rfl hdisk) hdisk

end

/-! ## Writing and removing -/

theorem writeBytes_eq_ok {l : Location} {bytes : Bytes} {written : Disk}
    (h : disk.writeBytes cwd l bytes = .ok written) :
    ∃ place, disk.place cwd l = .ok place ∧
      ((∃ old, disk.node? place = some (.file old) ∧
          written = { disk with
            files := disk.files.map fun f => if f.1 = place then (place, bytes) else f }) ∨
        (disk.node? place = none ∧ disk.canMake place = .ok () ∧
          written = { disk with files := disk.files ++ [(place, bytes)] })) := by
  rw [writeBytes] at h
  cases hplace : disk.place cwd l with
  | error kind =>
      rw [hplace] at h
      cases h
  | ok place =>
      refine ⟨place, rfl, ?_⟩
      simp only [hplace, bind, Except.bind] at h
      cases hnode : disk.node? place with
      | none =>
          rw [hnode] at h
          cases hmake : disk.canMake place with
          | error kind =>
              simp only [hmake] at h
              cases h
          | ok _ =>
              simp only [hmake] at h
              exact .inr ⟨rfl, rfl, (Except.ok.inj h).symm⟩
      | some node =>
          rw [hnode] at h
          cases node with
          | directory => cases h
          | file old => exact .inl ⟨old, rfl, (Except.ok.inj h).symm⟩

/-- A file that is written has had its directories made before. -/
theorem writeFile_eq_ok {l : Location} {bytes : Bytes} {written : Disk}
    (h : writeFile cwd disk l bytes = (.ok (), written)) :
    (makeDirs cwd disk l.parent).2.writeBytes cwd l bytes = .ok written := by
  rw [writeFile] at h
  cases hdirs : makeDirs cwd disk l.parent with
  | mk outcome middle =>
      rw [hdirs] at h
      cases outcome with
      | error refused => cases h
      | ok _ =>
          dsimp only at h ⊢
          cases hfile : middle.writeBytes cwd l bytes with
          | error refused =>
              rw [hfile] at h
              cases h
          | ok other =>
              rw [hfile] at h
              exact congrArg Except.ok (congrArg Prod.snd h)

/-- What is kept when a directory is made and when the file is written is kept by both together,
also when the write is refused. -/
theorem writeFile_keeps {Q : Disk → Prop} {l : Location} {bytes : Bytes}
    (hmake : ∀ disk made above, above.slashes = l.slashes → above.parts <+: l.parts → Q disk →
      disk.makeDir cwd above = .ok made → Q made)
    (hwrite : ∀ disk written, Q disk → disk.writeBytes cwd l bytes = .ok written → Q written)
    (hdisk : Q disk) : Q (writeFile cwd disk l bytes).2 := by
  have hmade : Q (makeDirs cwd disk l.parent).2 :=
    makeDirs_keeps (fun disk made above hslashes hpre =>
      hmake disk made above hslashes (hpre.trans (List.dropLast_prefix _))) hdisk
  rw [writeFile]
  cases hdirs : makeDirs cwd disk l.parent with
  | mk outcome middle =>
      rw [hdirs] at hmade
      cases outcome with
      | error refused => exact hmade
      | ok _ =>
          cases hfile : middle.writeBytes cwd l bytes with
          | error refused =>
              simp only [hfile]
              exact hmade
          | ok written =>
              simp only [hfile]
              exact hwrite middle written hmade hfile

theorem remove_eq_ok {l : Location} {removed : Disk} (h : disk.remove cwd l = .ok removed) :
    (disk.find? cwd l = .ok none ∧ removed = disk) ∨
      ∃ place node, disk.find? cwd l = .ok (some (place, node)) ∧
        removed = disk.removeAt place := by
  rw [remove] at h
  cases hfind : disk.find? cwd l with
  | error refused =>
      rw [hfind] at h
      cases h
  | ok found =>
      rw [hfind] at h
      cases found with
      | none => exact .inl ⟨rfl, (Except.ok.inj h).symm⟩
      | some entry => exact .inr ⟨entry.1, entry.2, rfl, (Except.ok.inj h).symm⟩

/-! ## Plain names -/

/-- No name of an entry has a backslash in it, or is one that a path cannot give to an entry. -/
def IsPlain (disk : Disk) : Prop :=
  ∀ place ∈ disk.dirs ++ disk.files.map (·.1), ∀ name ∈ place, Path.IsSegment name

/-- The names of a location are such names or steps to the outer directory. -/
def IsPlainAt (cwd : List Text) (l : Location) : Prop :=
  ∀ part ∈ l.absolute cwd, part = Path.outer ∨ Path.IsSegment part

theorem IsPlainAt.of_prefix {l above : Location} (h : IsPlainAt cwd l)
    (hslashes : above.slashes = l.slashes) (hpre : above.parts <+: l.parts) :
    IsPlainAt cwd above := by
  have habsolute : above.absolute cwd <+: l.absolute cwd := by
    unfold Location.absolute Location.isAbsolute
    rw [hslashes]
    split
    · exact hpre
    · exact (List.prefix_append_right_inj cwd).mpr hpre
  exact fun part hpart => h part (habsolute.subset hpart)

theorem IsPlainAt.segments {l : Location} {place : List Text} (h : IsPlainAt cwd l)
    (hplace : disk.place cwd l = .ok place) : ∀ name ∈ place, Path.IsSegment name := by
  intro name hname
  rcases mem_follow (exists_follow_of_place hplace) (List.mem_reverse.mpr hname) with hname | hname
  · cases hname
  · exact (h name hname.1).resolve_left hname.2

theorem IsPlain.makeDir {l : Location} {made : Disk} (hdisk : disk.IsPlain) (hl : IsPlainAt cwd l)
    (h : disk.makeDir cwd l = .ok made) : made.IsPlain := by
  obtain ⟨place, hplace, -, -, rfl⟩ := makeDir_eq_ok h
  intro entry hentry
  rw [List.append_assoc, List.mem_append, List.mem_append, List.mem_singleton] at hentry
  rcases hentry with hdir | rfl | hfile
  · exact hdisk entry (List.mem_append_left _ hdir)
  · exact hl.segments hplace
  · exact hdisk entry (List.mem_append_right _ hfile)

theorem IsPlain.writeBytes {l : Location} {bytes : Bytes} {written : Disk} (hdisk : disk.IsPlain)
    (hl : IsPlainAt cwd l) (h : disk.writeBytes cwd l bytes = .ok written) : written.IsPlain := by
  obtain ⟨place, hplace, ⟨old, -, rfl⟩ | ⟨-, -, rfl⟩⟩ := writeBytes_eq_ok h
  · intro entry hentry
    rcases List.mem_append.mp hentry with hdir | hfile
    · exact hdisk entry (List.mem_append_left _ hdir)
    · rw [List.map_map, List.mem_map] at hfile
      obtain ⟨file, hfile, rfl⟩ := hfile
      by_cases hsame : file.1 = place
      · simpa [hsame] using hl.segments hplace
      · simpa [hsame] using hdisk file.1 (List.mem_append_right _ (List.mem_map_of_mem hfile))
  · intro entry hentry
    rw [List.map_append, List.mem_append, List.mem_append, List.map_singleton,
      List.mem_singleton] at hentry
    rcases hentry with hdir | hfile | rfl
    · exact hdisk entry (List.mem_append_left _ hdir)
    · exact hdisk entry (List.mem_append_right _ hfile)
    · exact hl.segments hplace

theorem IsPlain.writeFile {l : Location} {bytes : Bytes} (hdisk : disk.IsPlain)
    (hl : IsPlainAt cwd l) : (writeFile cwd disk l bytes).2.IsPlain :=
  writeFile_keeps (Q := IsPlain)
    (fun _ _ _ hslashes hpre hplain => hplain.makeDir (hl.of_prefix hslashes hpre))
    (fun _ _ hplain => hplain.writeBytes hl) hdisk

theorem IsPlain.remove {l : Location} {removed : Disk} (hdisk : disk.IsPlain)
    (h : disk.remove cwd l = .ok removed) : removed.IsPlain := by
  obtain ⟨-, rfl⟩ | ⟨place, node, -, rfl⟩ := remove_eq_ok h
  · exact hdisk
  · intro entry hentry
    apply hdisk
    rcases List.mem_append.mp hentry with hdir | hfile
    · exact List.mem_append_left _ (List.mem_of_mem_filter hdir)
    · exact List.mem_append_right _ (((List.filter_sublist).map _).subset hfile)

/-- Names that are listed are names of entries. -/
theorem IsPlain.listDir {l : Location} {names : List Text} (hdisk : disk.IsPlain)
    (h : disk.listDir cwd l = .ok names) : ∀ name ∈ names, Path.IsSegment name := by
  rw [Disk.listDir] at h
  cases hdir : disk.dir? cwd l with
  | error refused =>
      rw [hdir] at h
      cases h
  | ok found =>
      rw [hdir] at h
      cases found with
      | none =>
          obtain rfl : [] = names := Except.ok.inj h
          exact fun name hname => by cases hname
      | some place =>
          obtain rfl : disk.namesIn place = names := Except.ok.inj h
          intro name hname
          obtain ⟨entry, hentry, rest, rfl⟩ := mem_namesIn.mp hname
          exact hdisk _ hentry name (by simp)

/-- Files that are found are given by the names that lead to them. -/
theorem IsPlain.walk {l : Location} {files : List Text} (hdisk : disk.IsPlain)
    (h : disk.walk cwd l = .ok files) : ∀ file ∈ files,
    ∃ names, (∀ name ∈ names, Path.IsSegment name) ∧ file = Text.join ['/'] names := by
  rw [Disk.walk] at h
  cases hdir : disk.dir? cwd l with
  | error refused =>
      rw [hdir] at h
      cases h
  | ok found =>
      rw [hdir] at h
      cases found with
      | none =>
          obtain rfl : [] = files := Except.ok.inj h
          exact fun file hfile => by cases hfile
      | some place =>
          obtain rfl : Text.sort ((disk.filesBelow place).map (Text.join ['/'])) = files :=
            Except.ok.inj h
          intro file hfile
          obtain ⟨names, hnames, rfl⟩ := List.mem_map.mp (Text.mem_sort.mp hfile)
          refine ⟨names, fun name hname => ?_, rfl⟩
          exact hdisk _ (List.mem_append_right _ (mem_filesBelow.mp hnames)) name
            (List.mem_append_right _ hname)

end Disk

namespace View

theorem absolute_locate (cwd : List Text) (root : Location) (path : Text) :
    (locate root path).absolute cwd =
      root.absolute cwd ++ (Text.split '/' (Path.key path)).filter fun p => !p.isEmpty :=
  root.absolute_append cwd _

theorem isPlainAt_locate {cwd : List Text} {root : Location} (h : Disk.IsPlainAt cwd root)
    (path : Text) : Disk.IsPlainAt cwd (locate root path) := by
  intro part hpart
  rw [absolute_locate, List.mem_append, List.mem_filter] at hpart
  rcases hpart with hpart | ⟨hpart, hne⟩
  · exact h part hpart
  · by_cases hkey : Path.key path = []
    · rw [hkey, Text.split, List.mem_singleton] at hpart
      simp [hpart] at hne
    · have hnormal := (Path.isKey_key path).isNormal_split hkey
      by_cases houter : part = Path.outer
      · exact .inl houter
      · exact .inr (hnormal.isSegment hpart houter)

section

variable {cwd : List Text} {root : Location} {disk : Disk} (hroot : Disk.IsPlainAt cwd root)
  (hdisk : disk.IsPlain)

include hroot hdisk

theorem isPlain_writeBytes (path : Text) (bytes : Bytes) :
    ((View.disk cwd root).writeBytes path bytes disk).2.IsPlain :=
  hdisk.writeFile (isPlainAt_locate hroot path)

theorem isPlain_writeText (path : Text) (text : CodeText) :
    ((View.disk cwd root).writeText path text disk).2.IsPlain := by
  have hopened : (Disk.writeFile cwd disk (locate root path) []).2.IsPlain :=
    hdisk.writeFile (isPlainAt_locate hroot path)
  unfold View.disk
  dsimp only
  split
  · rename_i refusal opened hopen
    rwa [hopen] at hopened
  · rename_i opened hopen
    rw [hopen] at hopened
    split
    · exact hopened
    · exact Disk.IsPlain.writeFile hopened (isPlainAt_locate hroot path)

omit hroot in
theorem isPlain_remove (path : Text) :
    ((View.disk cwd root).remove path disk).2.IsPlain := by
  unfold View.disk
  dsimp only
  split
  · rename_i removed hremove
    exact hdisk.remove hremove
  · exact hdisk

end

end View

end AddonBundle
