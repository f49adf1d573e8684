import AddonBundle.Bundle.OnDisk
import AddonBundle.Proofs.Bundle.Parallel
import AddonBundle.Proofs.Bundle.Stages
import AddonBundle.Proofs.Climbing
import AddonBundle.Proofs.Disk
/-!
# Where a run writes

The paths at which a run writes a file or removes something are noted by views that are watched; a
watched run does what the run itself does. All these paths are at or below the directories of the
output, or one of its two files, when no addon climbs out of the directories by its name, and for
an addon that does there is a collection from which a file is written elsewhere.
-/

namespace AddonBundle

variable {σ τ : Type}

/-- The session with another kind of storage. -/
def Session.mapStorage (f : σ → τ) (s : Session σ) : Session τ where
  storage := f s.storage
  trace := s.trace
  log := s.log
  libraries := s.libraries
  sheet := s.sheet
  written := s.written
  catalogs := s.catalogs

/-- The view, with the paths noted at which a file is written or something is removed. -/
def View.watched (view : View σ) : View (σ × List Text) where
  present s := view.present s.1
  isDir s := view.isDir s.1
  listDir s := view.listDir s.1
  walk s := view.walk s.1
  readBytes s := view.readBytes s.1
  writeBytes path bytes s :=
    ((view.writeBytes path bytes s.1).1, (view.writeBytes path bytes s.1).2, s.2 ++ [path])
  writeText path text s :=
    ((view.writeText path text s.1).1, (view.writeText path text s.1).2, s.2 ++ [path])
  remove path s := ((view.remove path s.1).1, (view.remove path s.1).2, s.2 ++ [path])

/-- The places, each of them watched. -/
def Places.watched (places : Places σ) : Places (σ × List Text) where
  source := places.source.watched
  host := places.host.watched
  output := places.output.watched

namespace Bundle

open Build Text

variable {places : Places σ} {settings : Settings}

/-! ## Watching -/

/-- The paths at which a run writes a file or removes something, in order. -/
def touched (places : Places σ) (settings : Settings) (s : Session σ) : List Text :=
  (run places.watched settings (s.mapStorage (·, []))).2.storage.2

private theorem isKept_watched (places : Places σ) :
    IsKept places.watched places (fun _ => True) fun s t => s.mapStorage Prod.fst = t where
  tell := by
    rintro s _ change rfl
    rfl
  addRules := by
    rintro s _ texts rfl
    rfl
  source := by
    rintro s _ rfl
    exact ⟨rfl, rfl, rfl, rfl, rfl⟩
  host := by
    rintro s _ rfl
    exact ⟨rfl, rfl, rfl, rfl, rfl⟩
  writeText := by
    rintro path text - s _ rfl
    rw [exec_write, exec_write]
    exact ⟨rfl, rfl⟩
  writeBytes := by
    rintro path bytes - s _ rfl
    rw [exec_write, exec_write]
    exact ⟨rfl, rfl⟩
  copy := by
    intro text reference _
    refine Parallel.bind ?_ fun _ _ _ => parallel_pure ()
    apply Parallel.get
    rintro s _ rfl
    change Parallel _ (if s.libraries.contains reference.file then _ else _)
      (if s.libraries.contains reference.file then _ else _)
    split
    · exact parallel_pure false
    · apply Parallel.storage
      rintro s _ rfl
      apply (parallel_ofExcept _).bind
      intro isFile _ _
      split
      · exact parallel_throw _
      · apply (parallel_ofExcept _).bind
        intro bytes _ _
        refine Parallel.bind ?_ fun _ _ _ => ?_
        · rintro s _ rfl
          rw [exec_write, exec_write]
          exact ⟨rfl, rfl⟩
        · refine Parallel.bind ?_ fun _ _ _ => Parallel.bind ?_ fun _ _ _ => parallel_pure true
          all_goals
            rintro s _ rfl
            exact ⟨rfl, rfl⟩

/-- A watched run is the run itself. -/
theorem run_watched (places : Places σ) (settings : Settings) (s : Session σ) :
    (run places.watched settings (s.mapStorage (·, []))).1 = (run places settings s).1 ∧
      (run places.watched settings (s.mapStorage (·, []))).2.mapStorage Prod.fst =
        (run places settings s).2 := by
  refine (isKept_watched places).runSteps (fun _ _ _ _ _ _ _ _ _ => trivial)
    (fun _ _ _ _ _ _ _ _ _ => trivial) ?_ trivial trivial ?_ (fresh _) (fresh s) rfl
  · rintro path - s _ rfl
    rw [exec_write, exec_write]
    exact ⟨rfl, rfl⟩
  · rintro s _ rfl
    exact ⟨rfl, rfl, rfl, rfl⟩

/-- What all touched paths have in common: it holds of the paths that the files and the catalogs
of the addons go to, whatever state the run has come to. -/
theorem forall_touched {P : Text → Prop} {Q : σ → Prop}
    (hwriteText : ∀ path text storage, Q storage → Q (places.output.writeText path text storage).2)
    (hwriteBytes : ∀ path bytes storage, Q storage →
      Q (places.output.writeBytes path bytes storage).2)
    (hremove : ∀ path storage, Q storage → Q (places.output.remove path storage).2)
    (hfiles : ∀ storage, Q storage → FilesAt places settings.addons P storage)
    (hcatalogs : ∀ storage, Q storage → CatalogsAt places settings.addons P storage)
    (hlibraries : ∀ file, Path.IsSegment file → P (libraryPath file))
    (hown : ∀ path ∈ staleDirs ++ [sheetFile, recordFile], P path) {s : Session σ}
    (hs : Q s.storage) : ∀ path ∈ touched places settings s, P path := by
  have hnoted : ∀ {noted : List Text} {path : Text}, P path → (∀ p ∈ noted, P p) →
      ∀ p ∈ noted ++ [path], P p := by
    intro noted path hpath h p hp
    rcases List.mem_append.mp hp with hp | hp
    · exact h p hp
    · rwa [List.mem_singleton.mp hp]
  have hlibrary : ∀ text, ∀ reference ∈ Script.libraryReferences text,
      P (libraryPath reference.file) :=
    fun _ _ hreference => hlibraries _ (Script.isSegment_of_mem_libraryReferences hreference)
  have hkeeps : Keeps places.watched P fun storage _ => Q storage.1 ∧ ∀ p ∈ storage.2, P p :=
    { writeText := fun path text hpath h => ⟨hwriteText path text _ h.1, hnoted hpath h.2⟩
      writeBytes := fun path bytes hpath h => ⟨hwriteBytes path bytes _ h.1, hnoted hpath h.2⟩
      library := hlibrary
      copied := fun text reference hreference _ _ bytes h _ =>
        ⟨hwriteBytes _ bytes _ h.1, hnoted (hlibrary text reference hreference) h.2⟩ }
  refine (hkeeps.run (fun storage _ h => hfiles storage.1 h.1)
    (fun storage _ h => hcatalogs storage.1 h.1) ?_ (hown _ (by simp)) (hown _ (by simp))
    ⟨hs, fun p hp => absurd hp List.not_mem_nil⟩).2
  exact fun path hpath _ _ h =>
    ⟨hremove path _ h.1, hnoted (hown _ (List.mem_append_left _ hpath)) h.2⟩

/-! ## The output of a run -/

/-- A path that a run may write at: at or below a directory of the output, or one of its files. -/
def IsOwn (path : Text) : Prop :=
  isStale (Path.key path) = true ∨ Path.key path = sheetFile ∨ Path.key path = recordFile

/-- A name of an addon that does not climb out of the directories of the output. -/
def IsConfined (addon : Text) : Prop :=
  isStale (Path.key (addonsDir ++ '/' :: addon)) = true

instance (path : Text) : Decidable (IsOwn path) := by
  unfold IsOwn
  infer_instance

instance (addon : Text) : Decidable (IsConfined addon) := by
  unfold IsConfined
  infer_instance

private theorem isAtOrBelow_iff {dir key : Text} (h : '/' ∉ dir) :
    Tree.isAtOrBelow dir key = true ↔ key.takeWhile (· ≠ '/') = dir := by
  have hdir : ∀ c ∈ dir, (decide (c ≠ '/')) = true := by
    intro c hc
    simpa using fun heq : c = '/' => h (heq ▸ hc)
  rw [Tree.isAtOrBelow, Bool.or_eq_true, List.isPrefixOf_iff_prefix, decide_eq_true_eq]
  constructor
  · rintro (rfl | ⟨rest, rfl⟩)
    · rw [List.takeWhile_eq_self_iff]
      exact hdir
    · rw [List.append_assoc, List.takeWhile_append_of_pos hdir]
      simp
  · intro heq
    have hsplit := List.takeWhile_append_dropWhile (p := fun c => decide (c ≠ '/')) (l := key)
    rw [heq] at hsplit
    cases hrest : key.dropWhile (fun c => decide (c ≠ '/')) with
    | nil =>
        rw [hrest, List.append_nil] at hsplit
        exact .inl hsplit.symm
    | cons c rest =>
        have hc := List.head?_dropWhile_not (fun c => decide (c ≠ '/')) key
        rw [hrest] at hc hsplit
        obtain rfl : c = '/' := by simpa using hc
        exact .inr ⟨rest, by simpa using hsplit⟩

theorem isStale_iff (key : Text) : isStale key = true ↔ key.takeWhile (· ≠ '/') ∈ staleDirs := by
  have hslash : ∀ dir ∈ staleDirs, '/' ∉ dir := by decide
  rw [isStale, List.any_eq_true]
  constructor
  · rintro ⟨dir, hdir, hkey⟩
    rwa [(isAtOrBelow_iff (hslash dir hdir)).mp hkey]
  · exact fun hdir => ⟨_, hdir, (isAtOrBelow_iff (hslash _ hdir)).mpr rfl⟩

/-- A path leads into a directory of the output if its first part does. -/
theorem isStale_key_iff (path : Text) :
    isStale (Path.key path) = true ↔
      ∃ dir ∈ staleDirs, (Path.parts (Path.unifySlashes path)).head? = some dir := by
  have hnormal := Path.isNormal_parts (Path.backslash_not_mem_unifySlashes path)
  rw [isStale_iff, Path.key_eq_join]
  by_cases hparts : Path.parts (Path.unifySlashes path) = []
  · have hnone : ([] : Text) ∉ staleDirs := by decide
    simpa [hparts] using hnone
  · have hhead := head?_split '/' (join ['/'] (Path.parts (Path.unifySlashes path)))
    rw [split_join hparts fun _ hpart => hnormal.slash_not_mem hpart] at hhead
    rw [hhead]
    simp

/-! ## Confined addons -/

private theorem parts_below_addonsDir (path : Text) :
    Path.parts (Path.unifySlashes (addonsDir ++ '/' :: path)) =
      ((split '/' (Path.unifySlashes path)).foldl (Path.pushPart false) [addonsDir]).reverse :=
  Path.parts_below path (by decide) (by decide)

/-- Every plain name is confined. -/
theorem isConfined_of_isSegment {addon : Text} (h : Path.IsSegment addon) : IsConfined addon := by
  have hdir : Path.IsSegment addonsDir := by decide
  rw [IsConfined, (hdir.isKey.child (by decide) h).key_eq]
  exact isStale_of_isAtOrBelow (by decide) (isAtOrBelow_append _ _)

/-- Names below the directory of a confined addon do not lead out of it. -/
theorem IsConfined.isOwn_file {addon : Text} (h : IsConfined addon) {names : List Text}
    (hnames : ∀ name ∈ names, Path.IsSegment name) :
    IsOwn (addonsDir ++ '/' :: addon ++ '/' :: join ['/'] names) := by
  obtain ⟨dir, hdir, hhead⟩ := (isStale_key_iff _).mp h
  refine .inl ((isStale_key_iff _).mpr ⟨dir, hdir, ?_⟩)
  have hback : '\\' ∉ join ['/'] names :=
    Path.backslash_not_mem_join fun name hname => (hnames name hname).backslash_not_mem
  have hpush : (split '/' (join ['/'] names)).foldl (Path.pushPart false)
      (Path.parts (Path.unifySlashes (addonsDir ++ '/' :: addon))).reverse =
      (Path.parts (Path.unifySlashes (addonsDir ++ '/' :: addon)) ++ names).reverse := by
    by_cases hnil : names = []
    · simp [hnil, split, Path.pushPart]
    · rw [split_join hnil fun name hname => (hnames name hname).slash_not_mem,
        Path.foldl_pushPart_segments hnames, List.reverse_append]
  have hroot : (addonsDir ++ '/' :: addon).head? = some 'a' := rfl
  have hslash : (Path.unifySlashes (addonsDir ++ '/' :: addon)).head? ≠ some '/' := by
    rw [Path.unifySlashes, List.head?_map, hroot]
    decide
  rw [Path.parts_below _ (by simp) hslash, Path.unifySlashes_eq_self hback, hpush,
    List.reverse_reverse, List.head?_append, hhead]
  rfl

/-- However the parts of a confined addon begin, they climb out of no more than one directory. -/
private theorem IsConfined.climb_le_one {addon last : Text} {front names : List Text} {up : Nat}
    (h : IsConfined addon) (hsplit : split '/' (Path.unifySlashes addon) = front ++ [last])
    (hclimb : ∀ base : List Text, (∀ name ∈ base, Path.IsSegment name) →
      front.foldl (Path.pushPart false) base =
        names ++ (base.drop up ++ List.replicate (up - base.length) Path.outer)) :
    up ≤ 1 := by
  by_contra hup
  obtain ⟨dir, hdir, hhead⟩ := (isStale_key_iff _).mp h
  have haddonsDir : ∀ name ∈ [addonsDir], Path.IsSegment name := by decide
  have houter : Path.outer ∈ (front ++ [last]).foldl (Path.pushPart false) [addonsDir] := by
    rw [List.foldl_append, hclimb _ haddonsDir]
    apply Path.outer_mem_pushPart
    simp only [List.mem_append, List.mem_replicate, List.length_singleton]
    exact .inr (.inr ⟨by omega, trivial⟩)
  have hnormal := Path.isNormal_parts
    (Path.backslash_not_mem_unifySlashes (addonsDir ++ '/' :: addon))
  rw [parts_below_addonsDir, hsplit] at hhead hnormal
  -- the first part is a name, so all parts are
  obtain ⟨rest, hrest⟩ := List.head?_eq_some_iff.mp hhead
  have hname : ∀ dir ∈ staleDirs, dir ≠ Path.outer := by decide
  have hmem := List.mem_reverse.mpr houter
  rw [hrest] at hnormal hmem
  exact (hnormal.segments_of_head (hname dir hdir) _ hmem).2.2.2.2 rfl

private theorem parts_languageDir {language : Text} (h : Path.IsSegment language) :
    Path.parts (Path.unifySlashes (catalogsDir ++ '/' :: language)) = [catalogsDir, language] := by
  have hdir : Path.IsSegment catalogsDir := by decide
  have hjoin : catalogsDir ++ '/' :: language = join ['/'] [catalogsDir, language] := by
    simp [join]
  have hback : '\\' ∉ catalogsDir ++ '/' :: language := by
    simp [hdir.backslash_not_mem, h.backslash_not_mem]
  rw [Path.unifySlashes_eq_self hback, hjoin, Path.parts_join]
  exact Path.isNormal_of_segments (by simp [h, hdir])

/-- What climbs out of the directory of the catalogs climbs out of that of the addons too. -/
theorem IsConfined.isOwn_catalogPath {language addon : Text} (h : IsConfined addon)
    (hlanguage : Path.IsSegment language) : IsOwn (catalogPath language addon) := by
  refine .inl ((isStale_key_iff _).mpr ⟨catalogsDir, by decide, ?_⟩)
  obtain ⟨front, last, hsplit, hsplit'⟩ :=
    exists_split_append (Path.unifySlashes addon) (show '/' ∉ ".json".toList by decide)
  have hparts : ∀ part ∈ front ++ [last], '/' ∉ part ∧ '\\' ∉ part := by
    intro part hpart
    rw [← hsplit] at hpart
    exact ⟨not_mem_of_mem_split hpart, fun hc =>
      Path.backslash_not_mem_unifySlashes addon (mem_of_mem_split hpart hc)⟩
  obtain ⟨up, names, -, hclimb⟩ :=
    Path.exists_climb fun part hpart => hparts part (List.mem_append_left _ hpart)
  have hup := h.climb_le_one hsplit hclimb
  have hlast : Path.IsSegment (last ++ ".json".toList) :=
    Path.isSegment_append_json (hparts last (by simp)).1 (hparts last (by simp)).2
  have hbase : ∀ name ∈ [language, catalogsDir], Path.IsSegment name := by
    have hdir : Path.IsSegment catalogsDir := by decide
    simp [hlanguage, hdir]
  have hpath : catalogPath language addon =
      catalogsDir ++ '/' :: language ++ '/' :: (addon ++ ".json".toList) := by
    simp [catalogPath]
  have hstart : (Path.unifySlashes (catalogsDir ++ '/' :: language)).head? ≠ some '/' := by
    rw [Path.unifySlashes_append, List.head?_append_of_ne_nil _ (by decide)]
    decide
  have hjson : Path.unifySlashes ".json".toList = ".json".toList := by decide
  rw [hpath, Path.parts_below _ (by simp) hstart, parts_languageDir hlanguage,
    Path.unifySlashes_append, hjson, hsplit', List.foldl_append]
  change (List.foldl _ (front.foldl _ [language, catalogsDir]) _).reverse.head? = _
  rw [hclimb _ hbase, List.foldl_cons, List.foldl_nil, Path.pushPart_segment hlast]
  obtain rfl | rfl := Nat.le_one_iff_eq_zero_or_eq_one.mp hup
  · simp
  · simp

/-! ## Runs over confined addons -/

/-- The files below a confined addon are given by names. -/
private theorem exists_names_of_mem_walk {source : Tree} (hnormal : source.Normal)
    {addon rel : Text} (h : IsConfined addon)
    (hrel : rel ∈ source.walk (addonsDir ++ '/' :: addon)) :
    ∃ names, (∀ name ∈ names, Path.IsSegment name) ∧ rel = join ['/'] names := by
  rw [IsConfined, isStale_iff] at h
  have hkey : Path.key (addonsDir ++ '/' :: addon) ≠ [] := by
    intro hnil
    rw [hnil] at h
    exact absurd h (by decide)
  rw [Tree.mem_walk, Tree.keyStart_of_key rfl hkey] at hrel
  have hsplit := (hnormal.isKey _ hrel).isNormal_split (by simp)
  rw [List.append_assoc, List.singleton_append, split_append] at hsplit
  have hhead := head?_split '/' (Path.key (addonsDir ++ '/' :: addon))
  obtain ⟨rest, hrest⟩ := List.head?_eq_some_iff.mp hhead
  have hname : ∀ dir ∈ staleDirs, dir ≠ Path.outer := by decide
  rw [hrest, List.cons_append] at hsplit
  refine ⟨split '/' rel, fun name hmem => ?_, (join_split '/' rel).symm⟩
  exact hsplit.segments_of_head (hname _ h) name
    (List.mem_cons_of_mem _ (List.mem_append_right _ hmem))

theorem filesAt_memory {addons : List Text} (h : ∀ addon ∈ addons, IsConfined addon)
    {storage : Trees} (hnormal : storage.source.Normal) :
    FilesAt Places.memory addons IsOwn storage := by
  intro addon haddon found hfound file hfile
  obtain rfl : storage.source.walk (addonsDir ++ '/' :: addon) = found := Except.ok.inj hfound
  obtain ⟨names, hnames, rfl⟩ := exists_names_of_mem_walk hnormal (h addon haddon) hfile
  exact (h addon haddon).isOwn_file hnames

theorem catalogsAt_memory {addons : List Text} (h : ∀ addon ∈ addons, IsConfined addon)
    {storage : Trees} (hnormal : storage.source.Normal) :
    CatalogsAt Places.memory addons IsOwn storage := by
  intro found hfound language hlanguage addon haddon
  rw [languages_memory] at hfound
  obtain rfl : treeLanguages storage.source = found := Except.ok.inj hfound
  exact (h addon haddon).isOwn_catalogPath ((mem_treeLanguages hnormal).mp hlanguage).1

theorem isOwn_libraryPath {file : Text} (h : Path.IsSegment file) : IsOwn (libraryPath file) := by
  rw [IsOwn, isKey_libraryPath h]
  exact .inl (isStale_of_isAtOrBelow (by decide) (isAtOrBelow_libraryPath file))

private theorem isOwn_fixed : ∀ path ∈ staleDirs ++ [sheetFile, recordFile], IsOwn path := by
  decide

theorem touched_memory (h : ∀ addon ∈ settings.addons, IsConfined addon) {s : Session Trees}
    (hnormal : s.storage.source.Normal) :
    ∀ path ∈ touched Places.memory settings s, IsOwn path := by
  refine forall_touched (Q := fun storage => storage.source.Normal) ?_ (fun _ _ _ h => h)
    (fun _ _ h => h) (fun _ => filesAt_memory h) (fun _ => catalogsAt_memory h)
    (fun _ => isOwn_libraryPath) isOwn_fixed hnormal
  intro path text storage hstorage
  simp only [Places.memory, View.memory]
  cases Utf8.encodeCode text with
  | ok bytes => exact hstorage
  | error e => exact hstorage

/-- The output with a file written at a path is as it was at all keys but those of a run. -/
private theorem unchanged_writeBytes {before output : Tree} {path : Text} (bytes : Bytes)
    (hpath : IsOwn path)
    (h : ∀ other, ¬ IsOwn other → output.get? (Path.key other) = before.get? (Path.key other)) :
    ∀ other, ¬ IsOwn other →
      (output.writeBytes path bytes).get? (Path.key other) = before.get? (Path.key other) := by
  intro other hother
  rw [Tree.get?_writeBytes, if_neg, h other hother]
  intro heq
  rw [IsOwn, heq] at hother
  exact hother hpath

theorem unchanged_memory (h : ∀ addon ∈ settings.addons, IsConfined addon) {s : Session Trees}
    (hnormal : s.storage.source.Normal) : ∀ path, ¬ IsOwn path →
      (run Places.memory settings s).2.storage.output.get? (Path.key path) =
        s.storage.output.get? (Path.key path) := by
  have hlibrary : ∀ text, ∀ reference ∈ Script.libraryReferences text,
      IsOwn (libraryPath reference.file) :=
    fun _ _ hreference => isOwn_libraryPath (Script.isSegment_of_mem_libraryReferences hreference)
  have hkeeps : Keeps Places.memory IsOwn fun storage _ => storage.source.Normal ∧
      ∀ path, ¬ IsOwn path →
        storage.output.get? (Path.key path) = s.storage.output.get? (Path.key path) :=
    { writeText := by
        intro storage libraries path text hpath hstorage
        simp only [Places.memory, View.memory]
        cases Utf8.encodeCode text with
        | ok bytes => exact ⟨hstorage.1, unchanged_writeBytes bytes hpath hstorage.2⟩
        | error e => exact hstorage
      writeBytes := fun path bytes hpath hstorage =>
        ⟨hstorage.1, unchanged_writeBytes bytes hpath hstorage.2⟩
      library := hlibrary
      copied := fun text reference hreference _ _ bytes hstorage _ =>
        ⟨hstorage.1, unchanged_writeBytes bytes (hlibrary text reference hreference) hstorage.2⟩ }
  refine (hkeeps.run (fun _ _ hs => filesAt_memory h hs.1) (fun _ _ hs => catalogsAt_memory h hs.1)
    ?_ (isOwn_fixed _ (by simp)) (isOwn_fixed _ (by simp)) ⟨hnormal, fun _ _ => rfl⟩).2
  intro dir hdir storage libraries hs
  refine ⟨hs.1, fun path hpath => ?_⟩
  have hkey : ∀ dir ∈ staleDirs, Path.key dir = dir := by decide
  have hremoved : Places.memory.output.remove dir storage =
      (.ok (), { storage with output := storage.output.remove dir }) := rfl
  rw [hremoved, Tree.get?_remove, hkey dir hdir, if_neg, hs.2 path hpath]
  exact fun hbelow => hpath (.inl (isStale_of_isAtOrBelow hdir hbelow))

private theorem ok_of_mapError {α β γ : Type} {f : α → β} {outcome : Except α γ} {result : γ}
    (h : outcome.mapError f = .ok result) : outcome = .ok result := by
  cases outcome with
  | error e => cases h
  | ok a => rw [Except.ok.inj h]

/-- On a disk, names with backslashes would be read as several parts. -/
theorem touched_disk {cwd : List Text} {source host output : Location}
    (h : ∀ addon ∈ settings.addons, IsConfined addon) (houtput : Disk.IsPlainAt cwd output)
    {s : Session Disk} (hplain : s.storage.IsPlain) :
    ∀ path ∈ touched (Places.disk cwd source host output) settings s, IsOwn path := by
  refine forall_touched (Q := Disk.IsPlain)
    (fun path text _ hdisk => View.isPlain_writeText houtput hdisk path text)
    (fun path bytes _ hdisk => View.isPlain_writeBytes houtput hdisk path bytes)
    (fun path _ hdisk => View.isPlain_remove hdisk path) ?_ ?_ (fun _ => isOwn_libraryPath)
    isOwn_fixed hplain
  · intro disk hdisk addon haddon found hfound file hfile
    obtain ⟨names, hnames, rfl⟩ := hdisk.walk (ok_of_mapError hfound) file hfile
    exact (h addon haddon).isOwn_file hnames
  · intro disk hdisk found hfound language hlanguage addon haddon
    have hmem : ∃ names, (Places.disk cwd source host output).source.listDir disk catalogsDir =
        .ok names ∧ language ∈ names := by
      rw [languages] at hfound
      cases hlist : (Places.disk cwd source host output).source.listDir disk catalogsDir with
      | error failure =>
          rw [hlist] at hfound
          cases hfound
      | ok names =>
          rw [hlist] at hfound
          exact ⟨names, rfl, Script.mem_of_filterM hfound hlanguage⟩
    obtain ⟨names, hlist, hmem⟩ := hmem
    exact (h addon haddon).isOwn_catalogPath (hdisk.listDir (ok_of_mapError hlist) language hmem)

/-! ## Runs over addons that climb -/

private theorem kind_of_getLast? {path : Text} (h : path.getLast? = some 'x') :
    FileKind.ofPath path = .other := by
  have hlower : ∀ front before : Text,
      (lowerAfter before (front ++ ['x'])).getLast? = some 'x' := by
    intro front
    induction front with
    | nil => exact fun _ => rfl
    | cons c front ih =>
        intro before
        have hne : lowerAfter (c :: before) (front ++ ['x']) ≠ [] := by
          intro hnil
          have hlast := ih (c :: before)
          rw [hnil] at hlast
          cases hlast
        rw [List.cons_append, lowerAfter, List.getLast?_append_of_ne_nil _ hne]
        exact ih _
  obtain ⟨front, rfl⟩ := List.getLast?_eq_some_iff.mp h
  have hsuffix : ∀ extension : Text, extension.getLast? ≠ some 'x' → extension ≠ [] →
      extension.isSuffixOf (lower (front ++ ['x'])) = false := by
    intro extension hextension hne
    by_contra hsuffix
    rw [Bool.not_eq_false] at hsuffix
    obtain ⟨rest, hrest⟩ := List.isSuffixOf_iff_suffix.mp hsuffix
    have hlast := hlower front []
    rw [← lower, ← hrest, List.getLast?_append_of_ne_nil _ hne] at hlast
    exact hextension hlast
  rw [FileKind.ofPath, hsuffix _ (by decide) (by decide), hsuffix _ (by decide) (by decide)]
  rfl

/-- Both sides are the same session, with a path noted. -/
private def Noted (path : Text) (s t : Session (σ × List Text)) : Prop :=
  s = t ∧ path ∈ s.storage.2

private theorem isKept_noted (places : Places σ) (path : Text) :
    IsKept places.watched places.watched (fun _ => True) (Noted path) :=
  have hkeeps : Keeps places.watched (fun _ => True) fun storage _ => path ∈ storage.2 :=
    { writeText := fun _ _ _ h => List.mem_append_left _ h
      writeBytes := fun _ _ _ h => List.mem_append_left _ h
      library := fun _ _ _ => trivial
      copied := fun _ _ _ _ _ _ h _ => List.mem_append_left _ h }
  hkeeps.isKept

private theorem noted_bind {α β : Type} {path : Text} {step : Build (σ × List Text) α}
    {next : α → Build (σ × List Text) β} {s : Session (σ × List Text)}
    (hstep : path ∈ (exec step s).2.storage.2)
    (hnext : ∀ a, Parallel (Noted path) (next a) (next a)) :
    path ∈ (exec (step >>= next) s).2.storage.2 := by
  rw [exec_bind]
  cases hexec : exec step s with
  | mk outcome middle =>
      rw [hexec] at hstep
      cases outcome with
      | error failure => exact hstep
      | ok a => exact (hnext a middle middle ⟨rfl, hstep⟩).2.2

/-- A file that is copied is noted. -/
private theorem noted_bundleFiles {directory file : Text} {bytes : Bytes}
    {s : Session (σ × List Text)} (hkind : FileKind.ofPath (directory ++ '/' :: file) = .other)
    (hread : places.source.readBytes s.storage.1 (directory ++ '/' :: file) = .ok bytes)
    (rest : List Text) :
    directory ++ '/' :: file ∈
      (exec (bundleFiles places.watched settings directory (file :: rest)) s).2.storage.2 := by
  have hkept := isKept_noted places (directory ++ '/' :: file)
  rw [bundleFiles]
  refine noted_bind ?_ fun markers => (hkept.bundleFiles fun _ _ => trivial).bind
    fun _ _ _ => parallel_pure _
  rw [bundleFile, hkind]
  refine noted_bind ?_ fun _ => parallel_pure _
  have hreadable : exec (readable (directory ++ '/' :: file)
      (places.watched.source.readBytes s.storage (directory ++ '/' :: file))) s =
      (.ok bytes, s) := by
    change exec (readable _ (places.source.readBytes s.storage.1 _)) s = _
    rw [hread]
    rfl
  rw [copyFile, exec_bind_of_ok (exec_storage s), exec_bind_of_ok hreadable]
  refine noted_bind ?_ fun _ => hkept.noteWritten _
  rw [exec_write]
  exact List.mem_append_right _ (List.mem_singleton_self _)

private theorem noted_bundleAddon {addon file : Text} {rest : List Text} {bytes : Bytes}
    {s : Session (σ × List Text)}
    (hdir : places.source.isDir s.storage.1 (addonsDir ++ '/' :: addon) = .ok true)
    (hwalk : places.source.walk s.storage.1 (addonsDir ++ '/' :: addon) = .ok (file :: rest))
    (hkind : FileKind.ofPath (addonsDir ++ '/' :: addon ++ '/' :: file) = .other)
    (hread : places.source.readBytes s.storage.1 (addonsDir ++ '/' :: addon ++ '/' :: file) =
      .ok bytes) :
    addonsDir ++ '/' :: addon ++ '/' :: file ∈
      (exec (bundleAddon places.watched settings addon) s).2.storage.2 := by
  have hkept := isKept_noted places (addonsDir ++ '/' :: addon ++ '/' :: file)
  have hdir' : exec (Build.ofExcept (places.watched.source.isDir s.storage
      (addonsDir ++ '/' :: addon))) s = (.ok true, s) := by
    rw [exec_ofExcept]
    exact Prod.ext hdir rfl
  have hwalk' : exec (Build.ofExcept (places.watched.source.walk s.storage
      (addonsDir ++ '/' :: addon))) s = (.ok (file :: rest), s) := by
    rw [exec_ofExcept]
    exact Prod.ext hwalk rfl
  rw [bundleAddon, exec_bind_of_ok (exec_storage s), exec_bind_of_ok hdir', if_pos rfl,
    exec_bind_of_ok hwalk']
  refine noted_bind (noted_bundleFiles hkind hread rest) fun markers => ?_
  exact (hkept.restyle _ _).bind fun _ _ _ => parallel_pure _

/-- The first file of the only addon of a run is touched. -/
private theorem mem_touched {addon file : Text} {rest : List Text} {bytes : Bytes}
    {s : Session σ} (hdir : places.source.isDir s.storage (addonsDir ++ '/' :: addon) = .ok true)
    (hwalk : places.source.walk s.storage (addonsDir ++ '/' :: addon) = .ok (file :: rest))
    (hkind : FileKind.ofPath (addonsDir ++ '/' :: addon ++ '/' :: file) = .other)
    (hread : places.source.readBytes s.storage (addonsDir ++ '/' :: addon ++ '/' :: file) =
      .ok bytes) :
    addonsDir ++ '/' :: addon ++ '/' :: file ∈
      touched places { addons := [addon], clean := false } s := by
  have hkept := isKept_noted places (addonsDir ++ '/' :: addon ++ '/' :: file)
  rw [touched, run, runSteps_eq, if_neg (by simp), bundlingSteps_eq]
  -- the opening message can be shown
  obtain ⟨opened, hopened, hstorage⟩ : ∃ opened : Session (σ × List Text),
      exec (Build.log .info ("Porting ".toList ++ Text.ofNat [addon].length ++ " addons".toList))
        (fresh (s.mapStorage (·, []))) = (.ok (), opened) ∧ opened.storage.1 = s.storage := by
    rw [exec_log, fault?_opening]
    exact ⟨_, rfl, rfl⟩
  rw [exec_bind_of_ok hopened]
  refine noted_bind ?_ fun _ => hkept.finishingSteps (fun _ _ _ _ _ _ _ _ _ => trivial) trivial
    trivial ?_
  · rw [bundleAddons, exec_bind_of_ok (exec_startPhase _ _)]
    refine noted_bind ?_ fun _ => parallel_pure ()
    rw [exec_always, exec_mapFailure]
    rw [← hstorage] at hdir hwalk hread
    exact noted_bundleAddon hdir hwalk hkind hread
  · rintro s _ ⟨rfl, -⟩
    exact ⟨rfl, rfl, rfl, rfl⟩

/-- A key below one that is not own is not own. -/
private theorem not_isOwn_below {addon : Text} (h : ¬ IsConfined addon) :
    ∃ key, Tree.keyStart (addonsDir ++ '/' :: addon) ++ ['x'] = key ∧ Path.IsKey key ∧
      isStale key = false := by
  refine ⟨_, rfl, ?_⟩
  rw [IsConfined, isStale_iff] at h
  have hx : Path.IsSegment ['x'] := by decide
  rw [Tree.keyStart]
  by_cases hkey : Path.key (addonsDir ++ '/' :: addon) = []
  · rw [hkey]
    exact ⟨hx.isKey, by decide⟩
  · rw [if_neg (by simpa using hkey), List.append_assoc, List.singleton_append]
    refine ⟨(Path.isKey_key _).child hkey hx, ?_⟩
    rw [Bool.eq_false_iff]
    intro hstale
    have hsplit := head?_split '/' (Path.key (addonsDir ++ '/' :: addon) ++ '/' :: ['x'])
    rw [split_append, List.head?_append, head?_split, Option.some_or, Option.some.injEq] at hsplit
    rw [isStale_iff, ← hsplit] at hstale
    exact h hstale

/-- A tree with one file, seen from a directory above it. -/
private theorem isDir_and_walk_single {directory file key : Text}
    (h : Tree.keyStart directory ++ file = key) :
    Tree.isDir ⟨[(key, [])]⟩ directory = true ∧ Tree.walk ⟨[(key, [])]⟩ directory = [file] := by
  constructor
  · rw [Tree.isDir, Bool.or_eq_true, Tree.hasBelow_iff]
    by_cases hkey : Path.key directory = []
    · exact .inl (by simp [hkey])
    · rw [Tree.keyStart_of_key rfl hkey] at h
      exact .inr ⟨file, by simp [Tree.keys, ← h]⟩
  · have hbelow : Text.after? (Tree.keyStart directory) key = some file :=
      Text.after?_eq_some.mpr h.symm
    simp [Tree.walk, Tree.keysBelow, Tree.keys, hbelow, Text.sort]

/-- A collection from which an addon that climbs is written elsewhere. -/
private theorem exists_touched_outside {addon : Text} (h : ¬ IsConfined addon) :
    ∃ before : Trees, before.source.Normal ∧
      ∃ path ∈ touched Places.memory { addons := [addon], clean := false } { storage := before },
        ¬ IsOwn path := by
  obtain ⟨key, hstart, hkey, hstale⟩ := not_isOwn_below h
  have hpath : Path.key (addonsDir ++ '/' :: addon ++ '/' :: ['x']) = key := by
    rw [← hstart]
    apply Path.key_below (by simp) _ (hstart ▸ hkey) (by simp)
    rw [Path.unifySlashes_append, List.head?_append_of_ne_nil _ (by decide)]
    decide
  obtain ⟨hdir, hwalk⟩ := isDir_and_walk_single hstart
  have hkind : FileKind.ofPath (addonsDir ++ '/' :: addon ++ '/' :: ['x']) = .other := by
    apply kind_of_getLast?
    rw [List.getLast?_append_of_ne_nil _ (by simp)]
    rfl
  have hread : Tree.readBytes ⟨[(key, [])]⟩ (addonsDir ++ '/' :: addon ++ '/' :: ['x']) =
      .ok [] := by
    rw [Tree.readBytes, hpath]
    simp [Tree.get?, Assoc.get?]
  have htouched : addonsDir ++ '/' :: addon ++ '/' :: ['x'] ∈ touched Places.memory
      { addons := [addon], clean := false } { storage := { source := ⟨[(key, [])]⟩ } } :=
    mem_touched (congrArg _ hdir) (congrArg _ hwalk) hkind hread
  refine ⟨{ source := ⟨[(key, [])]⟩ }, ⟨by simpa [Tree.keys] using hkey, by simp [Tree.keys]⟩, _,
    htouched, ?_⟩
  have hlast : key.getLast? = some 'x' := by simp [← hstart]
  rw [IsOwn, hpath, hstale]
  rintro (hown | rfl | rfl)
  · cases hown
  · exact absurd hlast (by decide)
  · exact absurd hlast (by decide)

/-- A run over trees in memory stays inside the directories of the output exactly when its addons
are confined: otherwise there are trees for which it does not. What is not its own is unchanged
then. Over directories of a disk, no name of an entry may have a backslash in it. -/
theorem run_confined (addons : List Text) :
    ((∀ addon ∈ addons, IsConfined addon) ↔
      ∀ (settings : Settings) (s : Session Trees), settings.addons ⊆ addons →
        s.storage.source.Normal → ∀ path ∈ touched Places.memory settings s, IsOwn path) ∧
    ((∀ addon ∈ addons, IsConfined addon) →
      ∀ (settings : Settings) (s : Session Trees), settings.addons ⊆ addons →
        s.storage.source.Normal → ∀ path, ¬ IsOwn path →
          (run Places.memory settings s).2.storage.output.get? (Path.key path) =
            s.storage.output.get? (Path.key path)) ∧
    ((∀ addon ∈ addons, IsConfined addon) →
      ∀ (settings : Settings) (s : Session Disk) (cwd : List Text) (source host output : Location),
        settings.addons ⊆ addons → Disk.IsPlainAt cwd output → s.storage.IsPlain →
          ∀ path ∈ touched (Places.disk cwd source host output) settings s, IsOwn path) := by
  refine ⟨⟨fun h settings s hsub hnormal => ?_, fun h addon haddon => ?_⟩,
    fun h settings s hsub hnormal => ?_, fun h settings s cwd source host output hsub houtput
      hplain => ?_⟩
  · exact touched_memory (fun addon haddon => h addon (hsub haddon)) hnormal
  · by_contra hclimbs
    obtain ⟨before, hnormal, path, hpath, hnot⟩ := exists_touched_outside hclimbs
    have hsub : [addon] ⊆ addons := by simpa using haddon
    exact hnot
      (h { addons := [addon], clean := false } { storage := before } hsub hnormal path hpath)
  · exact unchanged_memory (fun addon haddon => h addon (hsub haddon)) hnormal
  · exact touched_disk (fun addon haddon => h addon (hsub haddon)) houtput hplain

/-- A collection with a file beside the directory of its addons. -/
def besideTrees : Trees where
  source := .ofFiles
    [("x/f.txt".toList, Utf8.encode "hello".toList),
      ("manifest.json".toList, Utf8.encode "\x7b\"version_name\": \"1\"\x7d".toList)]

/-- A name that climbs is accepted in a configuration and in an allow-list. The run succeeds, and
writes a file beside the directories of the output. -/
theorem run_confined_beside :
    let climbing := "../x".toList
    let after := run Places.memory { addons := [climbing] } { storage := besideTrees }
    Config.cleanAddons [climbing] = .ok [climbing] ∧
      (Config.allowlistOf "addons.json".toList
        (.array [.string (CodePoint.ofText climbing)])).toOption =
          some [CodePoint.ofText climbing] ∧
      besideTrees.source.Normal ∧ after.1.toOption.isSome = true ∧
      "addons/../x/f.txt".toList ∈
        touched Places.memory { addons := [climbing] } { storage := besideTrees } ∧
      ¬ IsOwn "addons/../x/f.txt".toList ∧
      after.2.storage.output.get? "x/f.txt".toList = some (Utf8.encode "hello".toList) := by
  refine ⟨?_, ?_, Tree.normal_ofFiles _, ?_, ?_, ?_, ?_⟩
  all_goals decide +kernel

end Bundle

end AddonBundle
