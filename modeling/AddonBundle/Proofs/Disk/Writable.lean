import AddonBundle.Proofs.Disk.Rooted
/-!
# When a file can be written

Below a root that is made, a file is written exactly when the disk lets it have its names, no
directory is at its place, and no file is above it. Then all missing directories above it are made,
and nothing else.
-/

namespace AddonBundle

open Text

namespace Disk

variable {disk : Disk} {cwd : List Text} {root : Location} {base names : List Text}

/-! ## Names of the directories above -/

private theorem byteLength_append (front back : Text) :
    byteLength (front ++ back) = byteLength front + byteLength back := by
  have hconcat : ∀ (text : Text) (c : Char),
      byteLength (text ++ [c]) = byteLength text + c.utf8Size := by
    intro text c
    rw [byteLength, List.foldl_append]
    rfl
  induction back using List.reverseRecOn with
  | nil => rw [List.append_nil, byteLength, byteLength, List.foldl_nil, Nat.add_zero]
  | append_singleton back c ih =>
      rw [← List.append_assoc, hconcat, ih, hconcat, Nat.add_assoc]

/-- The text of a directory above is the beginning of the text, or the root's own. -/
private theorem text_prefix_or (root : Location) (front back : List Text) :
    (root.append ⟨0, front⟩).text <+: (root.append ⟨0, front ++ back⟩).text ∨
      (root.append ⟨0, front⟩).text = ['.'] := by
  have htext : ∀ parts : List Text, (root.append ⟨0, parts⟩).text =
      if (List.replicate root.slashes '/' ++ join ['/'] (root.parts ++ parts)).isEmpty then ['.']
      else List.replicate root.slashes '/' ++ join ['/'] (root.parts ++ parts) := fun _ => rfl
  have hbody : List.replicate root.slashes '/' ++ join ['/'] (root.parts ++ front) <+:
      List.replicate root.slashes '/' ++ join ['/'] (root.parts ++ (front ++ back)) := by
    rw [List.prefix_append_right_inj, ← List.append_assoc]
    by_cases hfront : root.parts ++ front = []
    · rw [hfront, join_nil]
      exact List.nil_prefix
    · by_cases hback : back = []
      · simp only [hback, List.append_nil, List.prefix_rfl]
      · rw [join_append hfront hback, List.append_assoc]
        exact List.prefix_append _ _
  rw [htext, htext]
  split
  · exact .inr rfl
  · rename_i hnonempty
    rw [if_neg]
    · exact .inl hbody
    · intro hempty
      rw [List.isEmpty_iff] at hempty hnonempty
      rw [hempty, List.prefix_nil] at hbody
      exact hnonempty hbody

theorem IsNameable.of_append {front back : List Text} (h : IsNameable root (front ++ back)) :
    IsNameable root front := by
  refine ⟨fun name hname => h.segments name (List.mem_append_left _ hname),
    fun name hname => h.short name (List.mem_append_left _ hname), ?_, ?_⟩
  · rcases text_prefix_or root front back with hpre | hroot
    · exact fun hnull => h.text (hpre.subset hnull)
    · rw [hroot]
      decide
  · rcases text_prefix_or root front back with ⟨rest, hrest⟩ | hroot
    · have hlength := h.length
      rw [← hrest, byteLength_append] at hlength
      omega
    · rw [hroot]
      decide

/-! ## Where names lead -/

theorem IsRooted.directories_above (h : IsRooted cwd root base disk) {front back : List Text}
    (hnames : ∀ name ∈ front ++ back, Path.IsSegment name)
    (hdir : disk.node? (base ++ (front ++ back)) = some .directory) :
    disk.node? (base ++ front) = some .directory := by
  by_cases hback : back = []
  · rwa [hback, List.append_nil] at hdir
  · apply h.node?_above h.there hback
    rw [← isSome_node?_append h.there (by simp [hback]) hnames, hdir]
    rfl

/-- A name leads on from a directory. -/
theorem IsRooted.place_concat (h : IsRooted cwd root base disk) (hmade : disk.IsMade cwd root base)
    {name : Text} (hnameable : IsNameable root (names ++ [name]))
    (hdir : disk.node? (base ++ names) = some .directory) :
    disk.place cwd (root.append ⟨0, names ++ [name]⟩) = .ok (base ++ (names ++ [name])) := by
  refine hmade.place_of_directories hnameable fun front part back heq => ?_
  have hfront : names = front ++ (part :: back).dropLast := by
    have hdrop := congrArg List.dropLast heq
    rwa [List.dropLast_concat, List.dropLast_append_of_ne_nil (List.cons_ne_nil _ _)] at hdrop
  rw [hfront] at hdir
  refine h.directories_above (fun n hn => ?_) hdir
  exact hnameable.segments n (List.mem_append_left _ (hfront ▸ hn))

/-- Names lead nowhere where a directory is missing and no file is in the way. -/
theorem follow_eq_missing {reached : List Text}
    (hnames : ∀ name ∈ names, Path.IsSegment name ∧ byteLength name ≤ maxName)
    (hfree : ∀ front part back bytes, names = front ++ part :: back →
      disk.node? (reached.reverse ++ front) ≠ some (.file bytes))
    (hmissing : ∃ front part back, names = front ++ part :: back ∧
      disk.node? (reached.reverse ++ front) = none) :
    disk.follow reached names = .error .missing := by
  induction names generalizing reached with
  | nil =>
      obtain ⟨front, part, back, heq, -⟩ := hmissing
      simp at heq
  | cons name rest ih =>
      obtain ⟨hname, hshort⟩ := hnames name List.mem_cons_self
      have houter : name ≠ "..".toList := hname.2.2.2.2
      rw [follow]
      cases hnode : disk.node? reached.reverse with
      | none => rfl
      | some node =>
          cases node with
          | file bytes => exact absurd (by simpa using hnode) (hfree [] name rest bytes rfl)
          | directory =>
              dsimp only
              rw [if_neg houter, if_neg (by simp [Nat.not_lt.mpr hshort])]
              apply ih fun n hn => hnames n (List.mem_cons_of_mem _ hn)
              · intro front part back bytes heq
                simpa using hfree (name :: front) part back bytes (by simp [heq])
              · obtain ⟨front, part, back, heq, hnone⟩ := hmissing
                cases front with
                | nil =>
                    rw [List.append_nil, hnode] at hnone
                    cases hnone
                | cons first front =>
                    obtain ⟨rfl, rfl⟩ : name = first ∧ rest = front ++ part :: back := by
                      simpa using heq
                    exact ⟨front, part, back, rfl, by simpa using hnone⟩

/-! ## Making the directories above -/

section

variable {l : Location} {place : List Text} (hplace : disk.place cwd l = .ok place)

include hplace

private theorem makeDir_of_place :
    disk.makeDir cwd l =
      match disk.node? place with
      | some _ => .error .fileExists
      | none => disk.canMake place >>= fun _ => .ok { disk with dirs := disk.dirs ++ [place] } := by
  rw [makeDir, hplace]
  rfl

private theorem ensureDir_of_directory (hnode : disk.node? place = some .directory) :
    ensureDir cwd disk l = (.ok (), disk) ∧ makeDirs cwd disk l = (.ok (), disk) := by
  have hmake : disk.makeDir cwd l = .error .fileExists := by
    rw [makeDir_of_place hplace, hnode]
  have hisDir : disk.isDir cwd l = .ok true := by
    rw [isDir, dir?, find?, lookup_of_place hplace, hnode]
    rfl
  have hensure : ensureDir cwd disk l = (.ok (), disk) := by
    rw [ensureDir, hmake, hisDir]
  rw [makeDirs, hmake]
  exact ⟨hensure, hensure⟩

private theorem ensureDir_of_none (hnode : disk.node? place = none)
    (hcan : disk.canMake place = .ok ()) :
    ensureDir cwd disk l = (.ok (), { disk with dirs := disk.dirs ++ [place] }) ∧
      makeDirs cwd disk l = (.ok (), { disk with dirs := disk.dirs ++ [place] }) := by
  have hmake : disk.makeDir cwd l = .ok { disk with dirs := disk.dirs ++ [place] } := by
    rw [makeDir_of_place hplace, hnode, hcan]
    rfl
  have hensure : ensureDir cwd disk l = (.ok (), { disk with dirs := disk.dirs ++ [place] }) := by
    rw [ensureDir, hmake]
  rw [makeDirs, hmake]
  exact ⟨hensure, hensure⟩

end

/-- Something can be made in a directory. -/
theorem canMake_concat {name : Text} (hbase : isRemoved (base ++ names) = false)
    (hdir : disk.node? (base ++ names) = some .directory) :
    disk.canMake (base ++ (names ++ [name])) = .ok () := by
  rw [← List.append_assoc, canMake, List.dropLast_concat, hdir, hbase]
  rfl

private theorem makeDirs_of_missing {l : Location} {made : Disk}
    (hmake : disk.makeDir cwd l = .error .missing) (hparts : l.parts ≠ [])
    (habove : makeDirs cwd disk l.parent = (.ok (), made)) :
    makeDirs cwd disk l = ensureDir cwd made l := by
  rw [makeDirs, hmake]
  dsimp only
  rw [dif_neg hparts, habove]

/-- Where the directory above is missing, none can be made yet. -/
private theorem IsMade.makeDir_eq_missing (hmade : disk.IsMade cwd root base) {name : Text}
    (hnameable : IsNameable root (names ++ [name]))
    (hfree : ∀ front, front <+: names ++ [name] →
      ∀ bytes, disk.node? (base ++ front) ≠ some (.file bytes))
    (hnone : disk.node? (base ++ names) = none) :
    disk.makeDir cwd (root.append ⟨0, names ++ [name]⟩) = .error .missing := by
  have hfollow : disk.follow base.reverse (names ++ [name]) = .error .missing := by
    refine follow_eq_missing (fun n hn => ⟨hnameable.segments n hn, hnameable.short n hn⟩)
      ?_ ⟨names, name, [], rfl, by rwa [List.reverse_reverse]⟩
    intro front part back bytes heq
    rw [List.reverse_reverse]
    exact hfree front ⟨_, heq.symm⟩ bytes
  rw [Disk.makeDir, hmade.place_of_nameable hnameable, hfollow]
  rfl

theorem parent_append_concat (root : Location) (names : List Text) (name : Text) :
    (root.append ⟨0, names ++ [name]⟩).parent = root.append ⟨0, names⟩ := by
  have hparts : (root.parts ++ (names ++ [name])).dropLast = root.parts ++ names := by
    rw [← List.append_assoc, List.dropLast_concat]
  exact congrArg (Location.mk root.slashes) hparts

/-- A disk with more directories, at or above a place. -/
structure HasMade (base names : List Text) (disk made : Disk) : Prop where
  exists_dirs : ∃ dirs, made = { disk with dirs := disk.dirs ++ dirs } ∧
    ∀ place ∈ dirs, ∃ front, front <+: names ∧ place = base ++ front
  node_eq : made.node? (base ++ names) = some .directory

theorem HasMade.node?_concat {made : Disk} (h : HasMade base names disk made) (name : Text) :
    made.node? (base ++ (names ++ [name])) = disk.node? (base ++ (names ++ [name])) := by
  obtain ⟨dirs, rfl, hdirs⟩ := h.exists_dirs
  refine node?_addDirs fun hmem => ?_
  obtain ⟨front, hpre, heq⟩ := hdirs _ hmem
  rw [← List.append_cancel_left heq] at hpre
  have hlength := hpre.length_le
  rw [List.length_append, List.length_singleton] at hlength
  omega

theorem HasMade.mono {made : Disk} (h : HasMade base names disk made) :
    ∀ place ∈ disk.dirs, place ∈ made.dirs := by
  obtain ⟨dirs, rfl, -⟩ := h.exists_dirs
  exact fun place hplace => List.mem_append_left _ hplace

/-- Nothing is where the directory above is missing. -/
theorem IsRooted.node?_concat_of_none (h : IsRooted cwd root base disk) {name : Text}
    (hnames : ∀ n ∈ names ++ [name], Path.IsSegment n) (hnone : disk.node? (base ++ names) = none) :
    disk.node? (base ++ (names ++ [name])) = none := by
  rw [← Option.not_isSome_iff_eq_none, isSome_node?_append h.there (by simp) hnames]
  intro hmem
  rw [h.parent names name hmem] at hnone
  cases hnone

theorem IsRooted.makeDirs_eq_ok (h : IsRooted cwd root base disk)
    (hmade : disk.IsMade cwd root base) (hnameable : IsNameable root names)
    (hfree : ∀ front, front <+: names → ∀ bytes, disk.node? (base ++ front) ≠ some (.file bytes)) :
    ∃ made, Disk.makeDirs cwd disk (root.append ⟨0, names⟩) = (.ok (), made) ∧
      HasMade base names disk made := by
  induction names using List.reverseRecOn with
  | nil =>
      have hnode : disk.node? (base ++ []) = some .directory := by
        rw [List.append_nil]
        exact hmade.node?_base
      have hplace : disk.place cwd (root.append ⟨0, []⟩) = .ok (base ++ []) :=
        hmade.place_of_directories hnameable fun front part back heq => by simp at heq
      exact ⟨disk, (ensureDir_of_directory hplace hnode).2, ⟨[], by simp, by simp⟩, hnode⟩
  | append_singleton names name ih =>
      have habove : IsNameable root names := hnameable.of_append
      have hremoved : isRemoved (base ++ names) = false := isRemoved_append h.there habove.segments
      by_cases hdir : disk.node? (base ++ names) = some .directory
      · have hplace := h.place_concat hmade hnameable hdir
        cases hnode : disk.node? (base ++ (names ++ [name])) with
        | none =>
            have hcan : disk.canMake (base ++ (names ++ [name])) = .ok () :=
              canMake_concat hremoved hdir
            refine ⟨_, (ensureDir_of_none hplace hnode hcan).2, ⟨[_], rfl, ?_⟩, ?_⟩
            · intro place hnew
              exact ⟨_, List.prefix_rfl, List.mem_singleton.mp hnew⟩
            · exact node?_eq_directory.mpr (.inr (.inr (by simp)))
        | some node =>
            cases node with
            | file bytes => exact absurd hnode (hfree _ List.prefix_rfl bytes)
            | directory =>
                exact ⟨disk, (ensureDir_of_directory hplace hnode).2, ⟨[], by simp, by simp⟩, hnode⟩
      · -- the directory above is made first
        have hnone : disk.node? (base ++ names) = none := by
          cases hnode : disk.node? (base ++ names) with
          | none => rfl
          | some node =>
              cases node with
              | file bytes => exact absurd hnode (hfree names (List.prefix_append _ _) bytes)
              | directory => exact absurd hnode hdir
        obtain ⟨made, hmakes, hhas⟩ :=
          ih habove fun front hpre => hfree front (hpre.trans (List.prefix_append _ _))
        have hrooted := (h.makeDirs hnameable.segments).1
        rw [parent_append_concat, hmakes] at hrooted
        have hplace := hrooted.place_concat (hmade.mono hhas.mono) hnameable hhas.node_eq
        have hnew : made.node? (base ++ (names ++ [name])) = none :=
          (hhas.node?_concat name).trans (h.node?_concat_of_none hnameable.segments hnone)
        have hensure := (ensureDir_of_none hplace hnew (canMake_concat hremoved hhas.node_eq)).1
        obtain ⟨dirs, rfl, hdirs⟩ := hhas.exists_dirs
        refine ⟨_, ?_, ⟨dirs ++ [base ++ (names ++ [name])], rfl, ?_⟩, ?_⟩
        · rw [makeDirs_of_missing (hmade.makeDir_eq_missing hnameable hfree hnone)
              (List.append_ne_nil_of_right_ne_nil _ (by simp))
              ((parent_append_concat root names name).symm ▸ hmakes),
            hensure, List.append_assoc]
        · intro place hmem
          rcases List.mem_append.mp hmem with hold | hnew
          · obtain ⟨front, hpre, heq⟩ := hdirs place hold
            exact ⟨front, hpre.trans (List.prefix_append _ _), heq⟩
          · exact ⟨_, List.prefix_rfl, List.mem_singleton.mp hnew⟩
        · exact node?_eq_directory.mpr (.inr (.inr (by simp)))

/-! ## Writing -/

private theorem writeBytes_of_place {l : Location} {place : List Text}
    (hplace : disk.place cwd l = .ok place) (hdir : disk.node? place ≠ some .directory)
    (hcan : disk.canMake place = .ok ()) (bytes : Bytes) :
    ∃ written, disk.writeBytes cwd l bytes = .ok written := by
  rw [Disk.writeBytes, hplace]
  cases hnode : disk.node? place with
  | none => exact ⟨_, by simp only [bind, Except.bind, hnode, hcan]; rfl⟩
  | some node =>
      cases node with
      | directory => exact absurd hnode hdir
      | file old => exact ⟨_, by simp only [bind, Except.bind, hnode]; rfl⟩

/-- A file can have names: the disk lets it, no directory is at the place, and no file is above. -/
structure IsWritable (root : Location) (base : List Text) (disk : Disk) (names : List Text) :
    Prop where
  nameable : IsNameable root names
  not_directory : disk.node? (base ++ names) ≠ some .directory
  free : ∀ front back, front ≠ [] → back ≠ [] → names = front ++ back →
    (disk.treeBelow base).get? (join ['/'] front) = none

/-- No directory is lost when directories are made. -/
private theorem makeDirs_mono (disk : Disk) (cwd : List Text) (l : Location) :
    ∀ place ∈ disk.dirs, place ∈ (makeDirs cwd disk l).2.dirs := by
  refine makeDirs_keeps (Q := fun other => ∀ place ∈ disk.dirs, place ∈ other.dirs) ?_
    fun _ hplace => hplace
  intro other made above _ _ hkept hmake place hplace
  obtain ⟨_, -, -, -, rfl⟩ := makeDir_eq_ok hmake
  exact List.mem_append_left _ (hkept place hplace)

/-- Names that lead somewhere lead through directories. -/
private theorem IsMade.node?_of_place (h : disk.IsMade cwd root base) {front back place : List Text}
    (hback : back ≠ []) (hnames : ∀ name ∈ front ++ back, Path.IsSegment name)
    (hplace : disk.place cwd (root.append ⟨0, front ++ back⟩) = .ok place) :
    disk.node? (base ++ front) = some .directory := by
  have hfollow := exists_follow_of_place hplace
  rw [Location.absolute_append, ← List.append_assoc] at hfollow
  obtain ⟨middle, hmiddle, hdir⟩ := node?_of_follow hback hfollow
  rw [follow_append, h.follow_root] at hmiddle
  have houter : Path.outer ∉ front := fun hmem =>
    (hnames _ (List.mem_append_left _ hmem)).2.2.2.2 rfl
  rwa [eq_of_follow houter hmiddle, List.reverse_append, List.reverse_reverse,
    List.reverse_reverse] at hdir

section

variable (h : IsRooted cwd root base disk) (hne : names ≠ [])

include h hne

theorem IsRooted.isWritable_of_writeFile (hnames : ∀ name ∈ names, Path.IsSegment name)
    {bytes : Bytes} {written : Disk}
    (hwrite : Disk.writeFile cwd disk (root.append ⟨0, names⟩) bytes = (.ok (), written)) :
    IsWritable root base disk names := by
  obtain ⟨hmiddle, htree⟩ := h.makeDirs hnames
  obtain ⟨place, hplace, hwritten⟩ := writeBytes_eq_ok (writeFile_eq_ok hwrite)
  have hmade := hmiddle.isMade_of_place hne hplace
  obtain ⟨rfl, hnameable⟩ := hmade.eq_of_place hnames hplace
  refine ⟨hnameable, fun hdir => ?_, fun front back hfront hback heq => ?_⟩
  · have hdir' := node?_mono (makeDirs_mono disk cwd (root.append ⟨0, names⟩).parent) hdir
    obtain ⟨old, hnode, -⟩ | ⟨hnode, -, -⟩ := hwritten
    · rw [hdir'] at hnode
      cases hnode
    · rw [hdir'] at hnode
      cases hnode
  · subst heq
    have hdir := hmade.node?_of_place hback hnames hplace
    rw [← htree, hmiddle.get?_treeBelow h.there hfront
      fun name hname => hnames name (List.mem_append_left _ hname), hdir]

theorem IsRooted.exists_writeFile (hmade : disk.IsMade cwd root base)
    (hwritable : IsWritable root base disk names) (bytes : Bytes) :
    ∃ written, Disk.writeFile cwd disk (root.append ⟨0, names⟩) bytes = (.ok (), written) := by
  obtain ⟨hnameable, hdir, hfree⟩ := hwritable
  obtain ⟨front, last, rfl⟩ := List.eq_nil_or_concat names |>.resolve_left hne
  rw [List.concat_eq_append] at hnameable hdir hfree ⊢
  have habove : ∀ above, above <+: front → ∀ bytes,
      disk.node? (base ++ above) ≠ some (.file bytes) := by
    rintro above ⟨back, rfl⟩ bytes hnode
    by_cases hnil : above = []
    · rw [hnil, List.append_nil, hmade.node?_base] at hnode
      cases hnode
    · have hget := hfree above (back ++ [last]) hnil (by simp) (List.append_assoc _ _ _)
      rw [h.get?_treeBelow h.there hnil fun name hname => hnameable.segments name (by simp [hname]),
        hnode] at hget
      cases hget
  have hparent : IsNameable root front := hnameable.of_append
  obtain ⟨made, hmakes, hhas⟩ := h.makeDirs_eq_ok hmade hparent habove
  have hrooted := (h.makeDirs hnameable.segments).1
  rw [parent_append_concat, hmakes] at hrooted
  have hplace := hrooted.place_concat (hmade.mono hhas.mono) hnameable hhas.node_eq
  have hcan : made.canMake (base ++ (front ++ [last])) = .ok () :=
    canMake_concat (isRemoved_append h.there hparent.segments) hhas.node_eq
  obtain ⟨written, hwritten⟩ :=
    writeBytes_of_place hplace (by rwa [hhas.node?_concat last]) hcan bytes
  refine ⟨written, ?_⟩
  rw [Disk.writeFile, parent_append_concat, hmakes]
  dsimp only
  rw [hwritten]

/-- A written file leaves the place writable. -/
theorem IsRooted.isWritable_written (hwritable : IsWritable root base disk names) {bytes : Bytes}
    {written : Disk}
    (hwrite : Disk.writeFile cwd disk (root.append ⟨0, names⟩) bytes = (.ok (), written)) :
    written.IsMade cwd root base ∧ IsWritable root base written names := by
  have hnames := hwritable.nameable.segments
  obtain ⟨hafter, htree⟩ := h.writeFile hne hnames hwrite
  have hget : ∀ key, (written.treeBelow base).get? key =
      if key = join ['/'] names then some bytes else (disk.treeBelow base).get? key := by
    intro key
    rw [Tree.get?, htree, Assoc.get?_put]
    rfl
  have hfile := hafter.get?_treeBelow h.there hne hnames
  rw [hget, if_pos rfl] at hfile
  have hnode : written.node? (base ++ names) = some (.file bytes) := by
    cases hnode : written.node? (base ++ names) with
    | none =>
        rw [hnode] at hfile
        cases hfile
    | some node =>
        rw [hnode] at hfile
        cases node with
        | directory => cases hfile
        | file old =>
            obtain rfl : bytes = old := Option.some.inj hfile
            rfl
  have hmem : base ++ names ∈ written.entries := by
    rw [← isSome_node?_append h.there hne hnames, hnode]
    rfl
  refine ⟨hafter.isMade_of_entry hne hmem, hwritable.nameable, by simp [hnode], ?_⟩
  intro front back hfront hback heq
  have hne' : join ['/'] front ≠ join ['/'] names := by
    intro hjoin
    have hsame := Path.join_injective hfront hne
      (fun name hname => hnames name (heq ▸ List.mem_append_left _ hname)) hnames hjoin
    rw [hsame, List.self_eq_append_right] at heq
    exact hback heq
  rw [hget, if_neg hne']
  exact hwritable.free front back hfront hback heq

end

end Disk

end AddonBundle
