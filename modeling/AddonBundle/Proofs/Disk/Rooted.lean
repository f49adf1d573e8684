import AddonBundle.Proofs.Disk.Orderly
/-!
# A root to work in

A root leads to a directory of a disk, or will do so when it has been made. While entries are made
and removed below it only, it goes on leading there and what is below stays in order. Then a write
and a removal that are not refused do to the tree below the root what they do to a tree in memory.
-/

namespace AddonBundle

open Text

namespace Disk

variable {disk : Disk} {cwd : List Text} {root : Location} {base names : List Text}

/-! ## Names that are too long -/

/-- A location that is too long for a disk, or that has a name that is. -/
def IsTooLong (cwd : List Text) (l : Location) : Prop :=
  maxPath < byteLength l.text ∨ ∃ name ∈ l.absolute cwd, maxName < byteLength name

private theorem exists_long_of_follow {reached parts : List Text}
    (h : disk.follow reached parts = .error .nameTooLong) :
    ∃ name ∈ parts, maxName < byteLength name := by
  induction parts generalizing reached with
  | nil => cases h
  | cons part rest ih =>
      have hrest : ∀ {reached : List Text}, disk.follow reached rest = .error .nameTooLong →
          ∃ name ∈ part :: rest, maxName < byteLength name := by
        intro reached hfollow
        obtain ⟨name, hname, hlong⟩ := ih hfollow
        exact ⟨name, List.mem_cons_of_mem _ hname, hlong⟩
      rw [follow] at h
      split at h
      · split at h
        · exact hrest h
        · split at h
          · rename_i hlong
            rw [Bool.and_eq_true, decide_eq_true_eq] at hlong
            exact ⟨part, List.mem_cons_self, hlong.1⟩
          · exact hrest h
      · cases h
      · cases h

theorem isTooLong_of_place {l : Location} (h : disk.place cwd l = .error .nameTooLong) :
    IsTooLong cwd l := by
  rw [place] at h
  split at h
  · cases h
  · split at h
    · rename_i hlength
      exact .inl hlength
    · cases hfollow : disk.follow [] (l.absolute cwd) with
      | ok found =>
          rw [hfollow] at h
          cases h
      | error kind =>
          rw [hfollow] at h
          obtain rfl : kind = .nameTooLong := Except.error.inj h
          exact .inr (exists_long_of_follow hfollow)

theorem lookup_of_place {l : Location} {place : List Text} (h : disk.place cwd l = .ok place) :
    disk.lookup cwd l =
      match disk.node? place with
      | some node => .ok (place, node)
      | none => .error .missing := by
  rw [lookup, h]
  rfl

/-- Where nothing is found, nothing is found without a refusal, or the location is too long. -/
theorem find?_of_lookup {l : Location} {kind : Refusal.Kind}
    (h : disk.lookup cwd l = .error kind) :
    disk.find? cwd l = .ok none ∨
      (IsTooLong cwd l ∧ disk.find? cwd l = .error (refusal l .nameTooLong)) := by
  rw [find?, h]
  cases kind with
  | nameTooLong =>
      have hplace : disk.place cwd l = .error .nameTooLong := by
        cases hplace : disk.place cwd l with
        | error kind =>
            rw [lookup, hplace] at h
            exact congrArg Except.error (Except.error.inj h)
        | ok place =>
            rw [lookup_of_place hplace] at h
            split at h <;> cases h
      exact .inr ⟨isTooLong_of_place hplace, rfl⟩
  | _ => exact .inl rfl

/-! ## Following names -/

/-- Parts without a step to the outer directory lead down by themselves. -/
theorem eq_of_follow {reached parts place : List Text} (hparts : Path.outer ∉ parts)
    (h : disk.follow reached parts = .ok place) : place = parts.reverse ++ reached := by
  induction parts generalizing reached with
  | nil => exact (Except.ok.inj h).symm
  | cons part rest ih =>
      rw [List.mem_cons, not_or] at hparts
      have houter : part ≠ "..".toList := Ne.symm hparts.1
      rw [follow] at h
      split at h
      · rw [if_neg houter] at h
        split at h
        · cases h
        · rw [ih hparts.2 h, List.reverse_cons, List.append_assoc]
          rfl
      · cases h
      · cases h

/-- Names that are followed are short. -/
theorem short_of_follow {reached place : List Text} (hreached : reached.head? ≠ some [])
    (hnames : ∀ name ∈ names, Path.IsSegment name) (h : disk.follow reached names = .ok place) :
    ∀ name ∈ names, byteLength name ≤ maxName := by
  induction names generalizing reached with
  | nil => exact fun name hname => by cases hname
  | cons name rest ih =>
      have hname := hnames name List.mem_cons_self
      have houter : name ≠ "..".toList := hname.2.2.2.2
      have hhead : (name :: reached).head? ≠ some [] := by simpa using hname.ne_nil
      rw [follow] at h
      split at h
      · rw [if_neg houter] at h
        split at h
        · cases h
        · rename_i hshort
          have hrest := ih hhead (fun n hn => hnames n (List.mem_cons_of_mem _ hn)) h
          simp only [Bool.and_eq_true, decide_eq_true_eq, bne_iff_ne, ne_eq, hreached,
            not_false_eq_true, and_true, Nat.not_lt] at hshort
          simpa using ⟨hshort, hrest⟩
      · cases h
      · cases h

/-- Short names are followed where there are directories. -/
theorem follow_of_directories {reached : List Text}
    (hnames : ∀ name ∈ names, Path.IsSegment name ∧ byteLength name ≤ maxName)
    (hdirs : ∀ front part back, names = front ++ part :: back →
      disk.node? (reached.reverse ++ front) = some .directory) :
    disk.follow reached names = .ok (names.reverse ++ reached) := by
  induction names generalizing reached with
  | nil => rfl
  | cons name rest ih =>
      obtain ⟨hname, hshort⟩ := hnames name List.mem_cons_self
      have houter : name ≠ "..".toList := hname.2.2.2.2
      have hnode : disk.node? reached.reverse = some .directory := by
        simpa using hdirs [] name rest rfl
      rw [follow, hnode]
      dsimp only
      rw [if_neg houter, if_neg (by simp [Nat.not_lt.mpr hshort]),
        ih fun n hn => hnames n (List.mem_cons_of_mem _ hn)]
      · simp
      · intro front part back heq
        have habove := hdirs (name :: front) part back (by simp [heq])
        simpa using habove

/-- Where a location leads stays, as long as no directory is lost. -/
theorem place_mono {other : Disk}
    (h : ∀ place, disk.node? place = some .directory → other.node? place = some .directory)
    {l : Location} {found : List Text} (hplace : disk.place cwd l = .ok found) :
    other.place cwd l = .ok found := by
  have hfollow := follow_mono h (exists_follow_of_place hplace)
  unfold place at hplace ⊢
  split at hplace
  · cases hplace
  · split at hplace
    · cases hplace
    · rename_i hnull hlength
      rw [if_neg hnull, if_neg hlength, hfollow]
      exact congrArg Except.ok (List.reverse_reverse found)

/-! ## Where the root leads -/

/-- A location leads to a directory in which there is nothing. -/
structure IsEmptyAt (disk : Disk) (cwd : List Text) (root : Location) (base : List Text) :
    Prop where
  place_eq : disk.place cwd root = .ok base
  node_eq : disk.node? base = some .directory
  there : isRemoved base = false
  files : disk.filesBelow base = []
  dirs : disk.dirsBelow base = []

/-- A location will lead to a place where there is nothing, once what is missing on the way has been
made. Steps to the outer directory are not among the missing parts. -/
structure IsUnmade (disk : Disk) (cwd : List Text) (root : Location) (base : List Text) :
    Prop where
  leads : ∃ front back place, root.absolute cwd = front ++ back ∧
    disk.follow [] front = .ok place ∧ Path.outer ∉ back ∧ base = place.reverse ++ back
  node_eq : disk.node? base = none
  files : disk.filesBelow base = []
  dirs : disk.dirsBelow base = []

/-- A location leads to a directory, which was empty when there were fewer directories. So it leads
there without the entries in the directory. -/
def IsMade (disk : Disk) (cwd : List Text) (root : Location) (base : List Text) : Prop :=
  ∃ start : Disk, start.IsEmptyAt cwd root base ∧ ∀ place ∈ start.dirs, place ∈ disk.dirs

theorem IsEmptyAt.isMade (h : disk.IsEmptyAt cwd root base) : disk.IsMade cwd root base :=
  ⟨disk, h, fun _ hplace => hplace⟩

theorem IsMade.there (h : disk.IsMade cwd root base) : isRemoved base = false := by
  obtain ⟨start, hstart, -⟩ := h
  exact hstart.there

theorem IsMade.node?_base (h : disk.IsMade cwd root base) :
    disk.node? base = some .directory := by
  obtain ⟨start, hstart, hdirs⟩ := h
  exact node?_mono hdirs hstart.node_eq

theorem IsMade.follow_root (h : disk.IsMade cwd root base) :
    disk.follow [] (root.absolute cwd) = .ok base.reverse := by
  obtain ⟨start, hstart, hdirs⟩ := h
  exact follow_mono (fun _ => node?_mono hdirs) (exists_follow_of_place hstart.place_eq)

theorem IsMade.mono {other : Disk} (h : disk.IsMade cwd root base)
    (hdirs : ∀ place ∈ disk.dirs, place ∈ other.dirs) : other.IsMade cwd root base := by
  obtain ⟨start, hstart, hkept⟩ := h
  exact ⟨start, hstart, fun place hplace => hdirs place (hkept place hplace)⟩

/-- The root leads to where it does also when something in its directory has gone. -/
theorem IsMade.removeAt (h : disk.IsMade cwd root base) (hne : names ≠ []) :
    (disk.removeAt (base ++ names)).IsMade cwd root base := by
  obtain ⟨start, hstart, hkept⟩ := h
  refine ⟨start, hstart, fun place hplace => ?_⟩
  rw [Disk.removeAt, List.mem_filter, isNone_below?]
  refine ⟨hkept place hplace, ?_⟩
  rintro ⟨rest, rfl⟩
  have hbelow : names ++ rest ∈ start.dirsBelow base :=
    mem_dirsBelow.mpr ⟨by rwa [← List.append_assoc], by simp [hne]⟩
  rw [hstart.dirs] at hbelow
  cases hbelow

theorem IsMade.place_append (h : disk.IsMade cwd root base) (names : List Text) :
    disk.place cwd (root.append ⟨0, names⟩) =
      if (root.append ⟨0, names⟩).text.contains '\x00' then .error .nullCharacter
      else if maxPath < byteLength (root.append ⟨0, names⟩).text then .error .nameTooLong
      else List.reverse <$> disk.follow base.reverse names := by
  rw [place, Location.absolute_append, follow_append, h.follow_root]
  rfl

theorem IsMade.place_of_nameable (h : disk.IsMade cwd root base)
    (hnameable : IsNameable root names) :
    disk.place cwd (root.append ⟨0, names⟩) = List.reverse <$> disk.follow base.reverse names := by
  rw [h.place_append, if_neg (by simpa using hnameable.text),
    if_neg (Nat.not_lt.mpr hnameable.length)]

theorem IsMade.place_of_directories (h : disk.IsMade cwd root base)
    (hnameable : IsNameable root names)
    (hdirs : ∀ front part back, names = front ++ part :: back →
      disk.node? (base ++ front) = some .directory) :
    disk.place cwd (root.append ⟨0, names⟩) = .ok (base ++ names) := by
  have hfollow : disk.follow base.reverse names = .ok (names.reverse ++ base.reverse) := by
    refine follow_of_directories (fun name hname => ⟨hnameable.segments name hname,
      hnameable.short name hname⟩) fun front part back heq => ?_
    rw [List.reverse_reverse]
    exact hdirs front part back heq
  rw [h.place_of_nameable hnameable, hfollow, ← List.reverse_append]
  exact congrArg Except.ok (List.reverse_reverse _)

theorem IsMade.eq_of_place (h : disk.IsMade cwd root base) {place : List Text}
    (hnames : ∀ name ∈ names, Path.IsSegment name)
    (hplace : disk.place cwd (root.append ⟨0, names⟩) = .ok place) :
    place = base ++ names ∧ IsNameable root names := by
  have hhead : base.reverse.head? ≠ some [] := by
    have hthere := h.there
    rw [isRemoved, decide_eq_false_iff_not] at hthere
    rwa [List.head?_reverse]
  have houter : Path.outer ∉ names := fun hmem => (hnames _ hmem).2.2.2.2 rfl
  rw [h.place_append] at hplace
  split at hplace
  · cases hplace
  · rename_i hnull
    split at hplace
    · cases hplace
    · rename_i hlength
      cases hfollow : disk.follow base.reverse names with
      | error kind =>
          rw [hfollow] at hplace
          cases hplace
      | ok found =>
          rw [hfollow] at hplace
          obtain rfl : found.reverse = place := Except.ok.inj hplace
          refine ⟨by simp [eq_of_follow houter hfollow], hnames,
            short_of_follow hhead hnames hfollow, by simpa using hnull, Nat.le_of_not_lt hlength⟩

theorem IsUnmade.there (h : disk.IsUnmade cwd root base) : isRemoved base = false := by
  rw [Bool.eq_false_iff]
  intro hremoved
  have hnode := h.node_eq
  rw [node?_eq_directory.mpr (.inr (.inl hremoved))] at hnode
  cases hnode

/-- What is missing on the way to the root lies above the place where the root will be. -/
theorem IsUnmade.eq_append (h : disk.IsUnmade cwd root base) {parts found rest : List Text}
    (hroot : root.absolute cwd = parts ++ rest) (hfollow : disk.follow [] parts = .ok found)
    (hnode : disk.node? found.reverse ≠ some .directory) : base = found.reverse ++ rest := by
  obtain ⟨front, back, place, hleads, hfront, houter, hbase⟩ := h.leads
  rcases List.append_eq_append_iff.mp (hroot.symm.trans hleads) with
    ⟨middle, rfl, rfl⟩ | ⟨middle, rfl, rfl⟩
  · by_cases hnil : middle = []
    · rw [hnil, List.append_nil, hfollow] at hfront
      obtain rfl : found = place := Except.ok.inj hfront
      rw [hnil, List.nil_append]
      exact hbase
    · obtain ⟨found', hfound', hdir⟩ := node?_of_follow hnil hfront
      rw [hfollow] at hfound'
      obtain rfl : found = found' := Except.ok.inj hfound'
      exact absurd hdir hnode
  · rw [follow_append, hfront] at hfollow
    have hfound := eq_of_follow (fun hmem => houter (List.mem_append_left _ hmem)) hfollow
    rw [hbase, hfound, List.reverse_append, List.reverse_reverse, List.append_assoc]

/-- Nothing is reached through a root that is not there. -/
theorem IsUnmade.place_ne_ok (h : disk.IsUnmade cwd root base) (hne : names ≠ [])
    (place : List Text) : disk.place cwd (root.append ⟨0, names⟩) ≠ .ok place := by
  intro hplace
  have hfollow := exists_follow_of_place hplace
  rw [Location.absolute_append] at hfollow
  obtain ⟨middle, hmiddle, hdir⟩ := node?_of_follow hne hfollow
  obtain ⟨front, back, found, hleads, hfront, houter, rfl⟩ := h.leads
  rw [hleads, follow_append, hfront] at hmiddle
  obtain rfl := eq_of_follow houter hmiddle
  have hnode := h.node_eq
  rw [List.reverse_append, List.reverse_reverse, hnode] at hdir
  cases hdir

/-- A disk on which only entries below a root have been made and removed, and directories on the way
to the root. -/
structure IsRooted (cwd : List Text) (root : Location) (base : List Text) (disk : Disk) : Prop
    extends IsOrderly root base disk where
  leads : disk.IsMade cwd root base ∨ disk.IsUnmade cwd root base

theorem IsEmptyAt.isRooted (h : disk.IsEmptyAt cwd root base) : IsRooted cwd root base disk :=
  ⟨isOrderly_of_nothing h.files h.dirs, .inl h.isMade⟩

theorem IsUnmade.isRooted (h : disk.IsUnmade cwd root base) : IsRooted cwd root base disk :=
  ⟨isOrderly_of_nothing h.files h.dirs, .inr h⟩

section

variable (h : IsRooted cwd root base disk)

include h

theorem IsRooted.there : isRemoved base = false :=
  h.leads.elim IsMade.there IsUnmade.there

theorem IsRooted.isMade_of_place {place : List Text} (hne : names ≠ [])
    (hplace : disk.place cwd (root.append ⟨0, names⟩) = .ok place) :
    disk.IsMade cwd root base :=
  h.leads.resolve_right fun hunmade => hunmade.place_ne_ok hne place hplace

theorem IsRooted.isMade_of_entry (hne : names ≠ []) (hmem : base ++ names ∈ disk.entries) :
    disk.IsMade cwd root base := by
  refine h.leads.resolve_right fun hunmade => ?_
  rcases List.mem_append.mp hmem with hdir | hfile
  · have hbelow := mem_dirsBelow.mpr ⟨hdir, hne⟩
    rw [hunmade.dirs] at hbelow
    cases hbelow
  · exact not_mem_files_of_filesBelow hunmade.files names hfile

/-- Looking for names finds the entry with these names. -/
theorem IsRooted.lookup_append (hne : names ≠ []) (hnames : ∀ name ∈ names, Path.IsSegment name) :
    (∃ node, disk.node? (base ++ names) = some node ∧
        disk.lookup cwd (root.append ⟨0, names⟩) = .ok (base ++ names, node)) ∨
      (disk.node? (base ++ names) = none ∧
        ∃ kind, disk.lookup cwd (root.append ⟨0, names⟩) = .error kind) := by
  cases hnode : disk.node? (base ++ names) with
  | some node =>
      have hmem : base ++ names ∈ disk.entries := by
        rw [← isSome_node?_append h.there hne hnames, hnode]
        rfl
      have hplace : disk.place cwd (root.append ⟨0, names⟩) = .ok (base ++ names) := by
        refine (h.isMade_of_entry hne hmem).place_of_directories (h.nameable names hne hmem) ?_
        intro front part back heq
        rw [heq] at hmem
        exact h.node?_above h.there (by simp) hmem
      refine .inl ⟨node, rfl, ?_⟩
      rw [lookup_of_place hplace, hnode]
  | none =>
      refine .inr ⟨rfl, ?_⟩
      cases hplace : disk.place cwd (root.append ⟨0, names⟩) with
      | ok place =>
          obtain ⟨rfl, -⟩ := (h.isMade_of_place hne hplace).eq_of_place hnames hplace
          refine ⟨.missing, ?_⟩
          rw [lookup_of_place hplace, hnode]
      | error kind =>
          refine ⟨kind, ?_⟩
          rw [lookup, hplace]
          rfl

/-- Where a location leads, or that it is refused as too long. -/
theorem IsRooted.find?_append (hne : names ≠ []) (hnames : ∀ name ∈ names, Path.IsSegment name) :
    disk.find? cwd (root.append ⟨0, names⟩) =
        .ok ((disk.node? (base ++ names)).map fun node => (base ++ names, node)) ∨
      (disk.node? (base ++ names) = none ∧ IsTooLong cwd (root.append ⟨0, names⟩) ∧
        disk.find? cwd (root.append ⟨0, names⟩) =
          .error (refusal (root.append ⟨0, names⟩) .nameTooLong)) := by
  rcases h.lookup_append hne hnames with ⟨node, hnode, hlookup⟩ | ⟨hnode, kind, hlookup⟩
  · rw [find?, hlookup, hnode]
    exact .inl rfl
  · rw [hnode]
    exact (find?_of_lookup hlookup).imp_right fun hlong => ⟨rfl, hlong⟩

end

/-! ## Making directories -/

section

variable {above : Location} {made : Disk}

/-- A location on the way to an entry lies above the root or below it. -/
private theorem eq_append_or (hslashes : above.slashes = root.slashes)
    (hpre : above.parts <+: root.parts ++ names) :
    (∃ rest, root = above.append ⟨0, rest⟩) ∨
      ∃ front, above = root.append ⟨0, front⟩ ∧ front ≠ [] ∧ front <+: names := by
  have happend : ∀ (l : Location) (parts : List Text),
      l.append ⟨0, parts⟩ = ⟨l.slashes, l.parts ++ parts⟩ := fun _ _ => rfl
  rcases List.prefix_or_prefix_of_prefix hpre (List.prefix_append root.parts names) with
    ⟨rest, hrest⟩ | ⟨front, hfront⟩
  · exact .inl ⟨rest, by rw [happend, hslashes, hrest]⟩
  · by_cases hnil : front = []
    · refine .inl ⟨[], ?_⟩
      rw [happend, hslashes, ← hfront, hnil, List.append_nil, List.append_nil]
    · refine .inr ⟨front, by rw [happend, hfront, ← hslashes], hnil, ?_⟩
      rwa [← hfront, List.prefix_append_right_inj] at hpre

variable (hnames : ∀ name ∈ names, Path.IsSegment name) (hslashes : above.slashes = root.slashes)
  (hpre : above.parts <+: root.parts ++ names) (hmake : disk.makeDir cwd above = .ok made)

include hslashes hpre hmake

include hnames in
/-- A directory that is made on the way to an entry lies below the base when this is there. -/
private theorem IsMade.exists_of_makeDir (h : disk.IsMade cwd root base) :
    ∃ front, IsNameable root front ∧ disk.node? (base ++ front) = none ∧
      disk.canMake (base ++ front) = .ok () ∧
      made = { disk with dirs := disk.dirs ++ [base ++ front] } := by
  obtain ⟨place, hplace, hnode, hcan, rfl⟩ := makeDir_eq_ok hmake
  obtain ⟨rest, rfl⟩ | ⟨front, rfl, -, hfront⟩ := eq_append_or hslashes hpre
  · -- the location lies above the root, so it leads to a directory
    have hfollow := exists_follow_of_place hplace
    have hroot := h.follow_root
    rw [above.absolute_append] at hroot
    by_cases hnil : rest = []
    · rw [hnil, List.append_nil, hfollow] at hroot
      obtain rfl : place = base := List.reverse_injective (Except.ok.inj hroot)
      rw [h.node?_base] at hnode
      cases hnode
    · obtain ⟨middle, hmiddle, hdir⟩ := node?_of_follow hnil hroot
      rw [hfollow] at hmiddle
      obtain rfl : place.reverse = middle := Except.ok.inj hmiddle
      rw [List.reverse_reverse, hnode] at hdir
      cases hdir
  · obtain ⟨rfl, hnameable⟩ :=
      h.eq_of_place (fun name hname => hnames name (hfront.subset hname)) hplace
    exact ⟨front, hnameable, hnode, hcan, rfl⟩

/-- A directory that is made on the way to an entry when the base is not there lies above it, or is
the base. -/
private theorem IsUnmade.exists_of_makeDir (h : disk.IsUnmade cwd root base) :
    ∃ place rest, base = place ++ rest ∧ made = { disk with dirs := disk.dirs ++ [place] } ∧
      (made.IsMade cwd root base ∨ made.IsUnmade cwd root base) := by
  obtain ⟨place, hplace, hnode, -, rfl⟩ := makeDir_eq_ok hmake
  have hmono : ∀ other, disk.node? other = some .directory →
      node? { disk with dirs := disk.dirs ++ [place] } other = some .directory :=
    fun other => node?_mono fun _ hdir => List.mem_append_left _ hdir
  obtain ⟨rest, rfl⟩ : ∃ rest, root = above.append ⟨0, rest⟩ := by
    refine (eq_append_or hslashes hpre).resolve_right ?_
    rintro ⟨front, rfl, hne, -⟩
    exact h.place_ne_ok hne place hplace
  have hbase : base = place ++ rest := by
    have hbase := h.eq_append (above.absolute_append cwd rest) (exists_follow_of_place hplace)
      (by simp [hnode])
    rwa [List.reverse_reverse] at hbase
  have hdirs : dirsBelow { disk with dirs := disk.dirs ++ [place] } base = [] := by
    rw [List.eq_nil_iff_forall_not_mem]
    intro names hmem
    obtain ⟨hmem, hne⟩ := mem_dirsBelow.mp hmem
    rcases List.mem_append.mp hmem with hold | hnew
    · have hbelow := mem_dirsBelow.mpr ⟨hold, hne⟩
      rw [h.dirs] at hbelow
      cases hbelow
    · rw [List.mem_singleton, hbase, List.append_assoc, List.append_right_eq_self,
        List.append_eq_nil_iff] at hnew
      exact hne hnew.2
  refine ⟨place, rest, hbase, rfl, ?_⟩
  by_cases hnil : rest = []
  · -- this is the base itself
    have hroot : above.append ⟨0, rest⟩ = above := by
      rw [hnil]
      exact congrArg (Location.mk above.slashes) (List.append_nil above.parts)
    rw [hnil, List.append_nil] at hbase
    subst hbase
    refine .inl (IsEmptyAt.isMade ⟨?_, ?_, h.there, h.files, hdirs⟩)
    · rw [hroot]
      exact place_mono hmono hplace
    · exact node?_eq_directory.mpr (.inr (.inr (by simp)))
  · refine .inr ⟨?_, ?_, h.files, hdirs⟩
    · obtain ⟨front, back, found, hleads, hfollow, houter⟩ := h.leads
      exact ⟨front, back, found, hleads, follow_mono hmono hfollow, houter⟩
    · have hne : base ≠ place := by
        rw [hbase, ne_eq, List.append_right_eq_self]
        exact hnil
      rw [node?_addDirs (mt List.mem_singleton.mp hne), h.node_eq]

include hnames in
theorem IsRooted.makeDir (h : IsRooted cwd root base disk) :
    IsRooted cwd root base made ∧ made.treeBelow base = disk.treeBelow base := by
  rcases h.leads with hmade | hunmade
  · obtain ⟨front, hnameable, hnode, hcan, rfl⟩ :=
      hmade.exists_of_makeDir hnames hslashes hpre hmake
    exact ⟨⟨h.addDir_below hnameable hnode hcan,
      .inl (hmade.mono fun _ hdir => List.mem_append_left _ hdir)⟩, rfl⟩
  · obtain ⟨place, rest, hbase, rfl, hleads⟩ :=
      hunmade.exists_of_makeDir hslashes hpre hmake
    exact ⟨⟨h.addDir_above hbase, hleads⟩, rfl⟩

end

/-! ## Writing and removing -/

section

variable (h : IsRooted cwd root base disk) (hne : names ≠ [])
  (hnames : ∀ name ∈ names, Path.IsSegment name)

include h hnames

theorem IsRooted.makeDirs :
    IsRooted cwd root base (makeDirs cwd disk (root.append ⟨0, names⟩).parent).2 ∧
      (makeDirs cwd disk (root.append ⟨0, names⟩).parent).2.treeBelow base =
        disk.treeBelow base := by
  refine makeDirs_keeps (Q := fun other => IsRooted cwd root base other ∧
    other.treeBelow base = disk.treeBelow base) ?_ ⟨h, rfl⟩
  intro other made above hslashes hpre hother hmake
  have habove : above.slashes = root.slashes := hslashes
  have hparts : above.parts <+: root.parts ++ names := hpre.trans (List.dropLast_prefix _)
  obtain ⟨hmade, htree⟩ := hother.1.makeDir hnames habove hparts hmake
  exact ⟨hmade, htree.trans hother.2⟩

include hne

theorem IsRooted.writeBytes {bytes : Bytes} {written : Disk}
    (hwrite : disk.writeBytes cwd (root.append ⟨0, names⟩) bytes = .ok written) :
    IsRooted cwd root base written ∧ (written.treeBelow base).files =
      Assoc.put (join ['/'] names) bytes (disk.treeBelow base).files := by
  obtain ⟨place, hplace, hwritten⟩ := writeBytes_eq_ok hwrite
  have hmade := h.isMade_of_place hne hplace
  obtain ⟨rfl, hnameable⟩ := hmade.eq_of_place hnames hplace
  have hleads : ∀ files, IsMade { disk with files } cwd root base :=
    fun _ => hmade.mono fun _ hdir => hdir
  have hnodup : ((disk.treeBelow base).files.map (·.1)).Nodup := h.nodup
  obtain ⟨old, hnode, rfl⟩ | ⟨hnode, hcan, rfl⟩ := hwritten
  · -- the file is there already
    have hdir : disk.node? (base ++ names) ≠ some .directory := by simp [hnode]
    have hmem : base ++ names ∈ disk.files.map (·.1) := by
      rw [← isSome_file?, ← Option.isSome_map, ← node?_of_not_directory hdir, hnode]
      rfl
    have htree := put_entriesBelow hne hnames h.areNamed hnodup hmem bytes
    refine ⟨⟨h.of_files h.there hne hnameable ?_ hdir ?_ ?_, .inl (hleads _)⟩, htree⟩
    · intro place hplace
      rw [List.map_map, List.mem_map] at hplace
      obtain ⟨file, hfile, rfl⟩ := hplace
      by_cases hsame : file.1 = base ++ names
      · exact .inr (by simp [hsame])
      · exact .inl (by simpa [hsame] using List.mem_map_of_mem (f := (·.1)) hfile)
    · obtain ⟨front, last, rfl⟩ := List.eq_nil_or_concat names |>.resolve_left hne
      rw [List.concat_eq_append] at hmem ⊢
      rw [← List.append_assoc, List.dropLast_concat]
      exact h.parent front last (List.mem_append_right _ hmem)
    · rw [treeBelow, Tree.keys, htree]
      exact Assoc.nodup_keys_put hnodup
  · -- the file is new
    have hdir : disk.node? (base ++ names) ≠ some .directory := by simp [hnode]
    have hnot : join ['/'] names ∉ (disk.treeBelow base).files.map (·.1) := by
      rw [node?_of_not_directory hdir, Option.map_eq_none_iff, file?,
        ← get?_entriesBelow hne hnames h.areNamed] at hnode
      rw [← Assoc.isSome_get?, treeBelow, hnode]
      exact Bool.false_ne_true
    have hentry : entryBelow base (base ++ names, bytes) = some (join ['/'] names, bytes) := by
      rw [entryBelow, below?_eq_some.mpr rfl]
      rfl
    have htree : (disk.files ++ [(base ++ names, bytes)]).filterMap (entryBelow base) =
        Assoc.put (join ['/'] names) bytes (disk.treeBelow base).files := by
      rw [Assoc.put_of_not_mem hnot, List.filterMap_append, List.filterMap_cons_some hentry]
      rfl
    refine ⟨⟨h.of_files h.there hne hnameable ?_ hdir (node?_dropLast_of_canMake hcan) ?_,
      .inl (hleads _)⟩, htree⟩
    · intro place hplace
      rwa [List.map_append, List.mem_append, List.map_singleton, List.mem_singleton] at hplace
    · rw [treeBelow, Tree.keys, htree]
      exact Assoc.nodup_keys_put hnodup

theorem IsRooted.writeFile {bytes : Bytes} {written : Disk}
    (hwrite : writeFile cwd disk (root.append ⟨0, names⟩) bytes = (.ok (), written)) :
    IsRooted cwd root base written ∧ (written.treeBelow base).files =
      Assoc.put (join ['/'] names) bytes (disk.treeBelow base).files := by
  obtain ⟨hmiddle, htree⟩ := h.makeDirs hnames
  rw [← htree]
  exact hmiddle.writeBytes hne hnames (writeFile_eq_ok hwrite)

theorem IsRooted.removeAt (hmade : disk.IsMade cwd root base) :
    IsRooted cwd root base (disk.removeAt (base ++ names)) ∧
      ((disk.removeAt (base ++ names)).treeBelow base).files =
        (disk.treeBelow base).files.filter fun f => !Tree.isAtOrBelow (join ['/'] names) f.1 := by
  have htree := remove_entriesBelow hne hnames h.areNamed
  have hremoved := hmade.removeAt hne
  refine ⟨⟨⟨?_, ?_, ?_, ?_⟩, .inl hremoved⟩, htree⟩
  · exact fun others hothers hmem => h.nameable others hothers (mem_entries_removeAt.mp hmem).1
  · intro others name hmem
    obtain ⟨hmem, hnot⟩ := mem_entries_removeAt.mp hmem
    have hparent := h.parent others name hmem
    by_cases hnil : others = []
    · rw [hnil, List.append_nil]
      exact hremoved.node?_base
    · have hsegments : ∀ n ∈ others, Path.IsSegment n := fun n hn =>
        (h.nameable _ (by simp) hmem).segments n (List.mem_append_left _ hn)
      rw [node?_append_eq_directory h.there hnil hsegments] at hparent ⊢
      rw [Disk.removeAt, List.mem_filter, isNone_below?]
      refine ⟨hparent, fun hpre => hnot ?_⟩
      rw [← List.append_assoc]
      exact hpre.trans (List.prefix_append _ _)
  · intro others hmem
    have hfiles : (disk.removeAt (base ++ names)).files.map (·.1) ⊆ disk.files.map (·.1) :=
      (List.filter_sublist.map _).subset
    obtain ⟨hothers, hdir⟩ := h.apart others (hfiles hmem)
    exact ⟨hothers, fun hmem => hdir (List.mem_of_mem_filter hmem)⟩
  · rw [Disk.treeBelow, Tree.keys, Disk.removeAt, htree]
    exact h.nodup.sublist (List.filter_sublist.map _)

/-- Where nothing is found, there is nothing to remove. -/
theorem IsRooted.treeBelow_of_none (hnode : disk.node? (base ++ names) = none) :
    ((disk.treeBelow base).files.filter fun f => !Tree.isAtOrBelow (join ['/'] names) f.1) =
      (disk.treeBelow base).files := by
  have hkept : disk.files.filter (fun f => (below? (base ++ names) f.1).isNone) = disk.files := by
    rw [List.filter_eq_self]
    intro file hfile
    rw [isNone_below?]
    rintro ⟨back, hback⟩
    have hmem : base ++ (names ++ back) ∈ disk.entries := by
      rw [← List.append_assoc, hback]
      exact List.mem_append_right _ (List.mem_map_of_mem hfile)
    by_cases hnil : back = []
    · rw [hnil, List.append_nil, ← isSome_node?_append h.there hne hnames, hnode] at hmem
      cases hmem
    · rw [h.node?_above h.there hnil hmem] at hnode
      cases hnode
  have htree := remove_entriesBelow hne hnames h.areNamed
  rw [hkept] at htree
  exact htree.symm

theorem IsRooted.remove {removed : Disk}
    (hremove : disk.remove cwd (root.append ⟨0, names⟩) = .ok removed) :
    IsRooted cwd root base removed ∧ (removed.treeBelow base).files =
      (disk.treeBelow base).files.filter fun f => !Tree.isAtOrBelow (join ['/'] names) f.1 := by
  rcases h.lookup_append hne hnames with ⟨node, hnode, hlookup⟩ | ⟨hnode, kind, hlookup⟩
  · have hmem : base ++ names ∈ disk.entries := by
      rw [← isSome_node?_append h.there hne hnames, hnode]
      rfl
    rw [Disk.remove, find?, hlookup] at hremove
    obtain rfl : disk.removeAt (base ++ names) = removed := Except.ok.inj hremove
    exact h.removeAt hne hnames (h.isMade_of_entry hne hmem)
  · rw [h.treeBelow_of_none hne hnames hnode]
    rw [Disk.remove] at hremove
    rcases find?_of_lookup hlookup with hfind | ⟨-, hfind⟩
    · rw [hfind] at hremove
      obtain rfl : disk = removed := Except.ok.inj hremove
      exact ⟨h, rfl⟩
    · rw [hfind] at hremove
      cases hremove

end

end Disk

end AddonBundle
