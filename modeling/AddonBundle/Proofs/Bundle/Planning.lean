import AddonBundle.Proofs.Bundle.Plan
import AddonBundle.Proofs.Bundle.Restyling
import AddonBundle.Proofs.Bundle.Stages
import AddonBundle.Proofs.Stylesheet.Nesting
/-!
# The plans of a run

The steps of a run have plans: those for files, for addons and for catalogs.
-/

namespace AddonBundle.Bundle

open Build Text

variable {before : Trees} {settings : Settings} {s : Session Trees} {α : Type} {who : Set Text}

/-! ## Files of addons -/

/-- Copying a library before a step, from a settled session. -/
theorem exec_copyLibrary_settled (hs : Settled before s) (reference : Script.LibraryReference)
    (next : Build Trees α) :
    exec (copyLibrary Places.memory reference >>= fun _ => next) s =
      match libraryBytes? before.source reference.file with
      | some bytes => exec next ((Action.library reference bytes).apply s)
      | none =>
        (.error (.fault (.libraryMissing reference.file (libraryPath reference.file))), s) := by
  rw [exec_bind, exec_copyLibrary, hs.source_eq]
  cases hbytes : libraryBytes? before.source reference.file with
  | some bytes =>
      dsimp only
      rw [apply_library]
      cases s.libraries.contains reference.file <;> rfl
  | none =>
      rw [hs.contains_eq_false hbytes]
      rfl

/-- Copying a library before a step; how many were copied does not matter. -/
theorem HasPlan.copyLibrary {reference : Script.LibraryReference} {next : Build Trees α}
    (hsegment : Path.IsSegment reference.file) (hnext : HasPlan before settings who next) :
    HasPlan before settings who (copyLibrary Places.memory reference >>= fun _ => next) := by
  cases hbytes : libraryBytes? before.source reference.file with
  | none =>
      refine ⟨.error (.fault (.libraryMissing reference.file (libraryPath reference.file))), [],
        fun s hs => ?_, by simp, ?_⟩
      · rw [exec_copyLibrary_settled hs, hbytes]
        rfl
      · intro failure heq
        cases heq
        intro name hname
        cases hname
  | some bytes =>
      obtain ⟨outcome, actions, hplan⟩ := hnext
      have hdue : (Action.library reference bytes).IsDue before.source settings :=
        ⟨hsegment, hbytes⟩
      refine ⟨outcome, .library reference bytes :: actions, fun s hs => ?_, ?_, hplan.isOf⟩
      · rw [exec_copyLibrary_settled hs, hbytes]
        exact hplan.exec_eq _ (hs.apply hdue)
      · intro action haction
        rcases List.mem_cons.mp haction with rfl | haction
        · exact hdue
        · exact hplan.isDue action haction

theorem HasPlan.copyLibraries {references : List Script.LibraryReference} {next : Build Trees α}
    (hsegments : ∀ reference ∈ references, Path.IsSegment reference.file)
    (hnext : HasPlan before settings who next) :
    HasPlan before settings who (copyLibraries Places.memory references >>= fun _ => next) := by
  induction references with
  | nil => simpa [Bundle.copyLibraries] using hnext
  | cons reference rest ih =>
      have hsplit : (Bundle.copyLibraries Places.memory (reference :: rest) >>= fun _ => next) =
          (Bundle.copyLibrary Places.memory reference >>= fun _ =>
            Bundle.copyLibraries Places.memory rest >>= fun _ => next) := by
        simp [Bundle.copyLibraries]
      rw [hsplit]
      exact HasPlan.copyLibrary (hsegments reference List.mem_cons_self)
        (ih fun r hr => hsegments r (List.mem_cons_of_mem _ hr))

theorem hasPlan_readable (path : Text) {outcome : Except Failure α}
    (h : ∀ failure, outcome = .error failure → failure.isUnreadable = true) :
    HasPlan before settings who (readable path outcome) := by
  unfold readable
  cases outcome with
  | ok a => exact hasPlan_pure a
  | error failure =>
      dsimp only
      rw [if_pos (h failure rfl)]
      exact hasPlan_fault rfl

theorem isUnreadable_of_readText {trees : Trees} {path : Text} {failure : Failure}
    (h : Places.memory.source.readText trees path = .error failure) :
    failure.isUnreadable = true := by
  simp only [Places.memory, View.readText_memory] at h
  split at h
  · cases h
    rfl
  · rename_i bytes _
    cases hdecode : Utf8.decode bytes with
    | ok text =>
        rw [hdecode] at h
        cases h
    | error e =>
        rw [hdecode] at h
        cases h
        rfl

theorem hasPlan_readText {path : Text} {next : Text → Build Trees α}
    (hkey : Path.key path = path)
    (hnext : ∀ text, textAt before.source path = some text →
      HasPlan before settings who (next text)) :
    HasPlan before settings who
      (do next (← readable path (Places.memory.source.readText (← Build.storage) path))) := by
  apply HasPlan.storage (fun _ => rfl)
  apply (hasPlan_readable path fun _ h => isUnreadable_of_readText h).bind
  intro text hread
  apply hnext
  have htext := readText_ok (exec_readable_ok hread)
  rwa [hkey] at htext

theorem hasPlan_markersOf (path text : Text) :
    HasPlan before settings who (markersOf path text) := by
  unfold markersOf
  split
  · exact hasPlan_pure _
  · exact hasPlan_fault rfl

theorem hasPlan_linkScript (path text : Text) :
    HasPlan before settings who
      (linkScript Places.memory.source settings.extensions path text) := by
  by_cases hroot : Script.mentionsRoot text = true
  · let media := Script.treeMedia before.source settings.extensions (Path.parent path)
    -- The session behind linking differs from the one before in its trace and log only.
    let change := fun note : Trace × List Log.Entry =>
      let s := linkedSession media path text { blank before with trace := note.1, log := note.2 }
      (s.trace, s.log)
    refine ⟨.ok ((Script.link media path text).text, some (Script.link media path text).table),
      [.note change], fun s hs => ?_, by simp [Action.IsDue], fun _ h => by cases h⟩
    rw [Places.memory, exec_linkScript, if_pos hroot, hs.source_eq]
    rfl
  · refine ⟨.ok (text, none), [], fun s hs => ?_, by simp, fun _ h => by cases h⟩
    rw [Places.memory, exec_linkScript, if_neg hroot]
    rfl

theorem hasPlan_stamp (header path text : Text) :
    HasPlan before settings who (stamp header path text) := by
  unfold stamp
  split
  · exact hasPlan_pure _
  · exact (hasPlan_record _).bind fun _ _ => hasPlan_pure _

theorem hasPlan_writeFile {path text : Text} (hstale : isStale path = true)
    (hkey : Path.key path = path)
    (hdue : due before.source settings path = some (Utf8.encode text)) :
    HasPlan before settings who (writeFile Places.memory.output path text) :=
  hasPlan_action (.file path (Utf8.encode text)) ⟨hstale, hkey, hdue⟩ fun s =>
    exec_writeFile path text s

theorem hasPlan_bundleScript {path : Text} (hstale : isStale path = true)
    (hkey : Path.key path = path)
    (hdue : due before.source settings path = bundledBytes before.source settings path)
    (hkind : FileKind.ofPath path = .script) :
    HasPlan before settings who (bundleScript Places.memory settings path) := by
  apply hasPlan_readText hkey
  intro text htext
  apply HasPlan.copyLibraries fun _ h => Script.isSegment_of_mem_libraryReferences h
  apply (hasPlan_markersOf path text).bind
  intro markers _
  apply (hasPlan_linkScript path text).bind
  rintro ⟨linked, table⟩ hlink
  apply (hasPlan_stamp settings.header path linked).bind
  intro stamped hstamp
  refine (hasPlan_writeFile hstale hkey ?_).bind fun _ _ => hasPlan_pure _
  have hstamped : stamped = License.stamp settings.header linked := by
    rw [exec_stamp] at hstamp
    exact (Except.ok.inj hstamp).symm
  rw [hdue, bundledBytes, hkind, htext, hstamped, exec_linkScript_ok hlink]
  rfl

theorem hasPlan_bundleStylesheet {path : Text} (hstale : isStale path = true)
    (hkey : Path.key path = path)
    (hdue : due before.source settings path = bundledBytes before.source settings path)
    (hkind : FileKind.ofPath path = .stylesheet) :
    HasPlan before settings who (bundleStylesheet Places.memory settings path) := by
  apply hasPlan_readText hkey
  intro text htext
  apply (hasPlan_stamp settings.header path text).bind
  intro stamped hstamp
  apply hasPlan_writeFile hstale hkey
  have hstamped : stamped = License.stamp settings.header text := by
    rw [exec_stamp] at hstamp
    exact (Except.ok.inj hstamp).symm
  rw [hdue, bundledBytes, hkind, htext, hstamped]
  rfl

theorem hasPlan_copyFile {path : Text} (hstale : isStale path = true)
    (hkey : Path.key path = path)
    (hdue : due before.source settings path = bundledBytes before.source settings path)
    (hkind : FileKind.ofPath path = .other) :
    HasPlan before settings who (copyFile Places.memory path) := by
  apply HasPlan.storage (fun _ => rfl)
  have hread : Places.memory.source.readBytes (blank before).storage path =
      before.source.readBytes path := rfl
  rw [hread, Tree.readBytes, hkey]
  cases hget : before.source.get? path with
  | none =>
      apply (hasPlan_readable path fun _ h => by cases h; rfl).bind
      intro bytes hbytes
      cases exec_readable_ok hbytes
  | some bytes =>
      apply (hasPlan_readable path fun _ h => by cases h).bind
      intro found hfound
      cases exec_readable_ok hfound
      have hbytes : due before.source settings path = some bytes := by
        rw [hdue, bundledBytes, hkind]
        exact hget
      exact hasPlan_action (.file path bytes) ⟨hstale, hkey, hbytes⟩ fun _ => rfl

theorem hasPlan_bundleFile {path : Text} (hstale : isStale path = true)
    (hkey : Path.key path = path)
    (hdue : due before.source settings path = bundledBytes before.source settings path) :
    HasPlan before settings who (bundleFile Places.memory settings path) := by
  unfold bundleFile
  cases hkind : FileKind.ofPath path with
  | script => exact hasPlan_bundleScript hstale hkey hdue hkind
  | stylesheet =>
      exact (hasPlan_bundleStylesheet hstale hkey hdue hkind).bind fun _ _ => hasPlan_pure _
  | other => exact (hasPlan_copyFile hstale hkey hdue hkind).bind fun _ _ => hasPlan_pure _

/-! ## Addons -/

theorem hasPlan_bundleFiles (hnormal : before.source.Normal) {addon : Text} {files : List Text}
    (h : ∀ file ∈ files, addonFile addon file ∈ before.source.keys) :
    HasPlan before settings who
      (bundleFiles Places.memory settings (addonsDir ++ '/' :: addon) files) := by
  induction files with
  | nil => exact hasPlan_pure []
  | cons file rest ih =>
      have hkey : Path.key (addonFile addon file) = addonFile addon file :=
        (hnormal.isKey _ (h file List.mem_cons_self)).key_eq
      have hstale : isStale (addonFile addon file) = true :=
        isStale_of_isAtOrBelow (by decide) (isAtOrBelow_addonFile addon file)
      apply (hasPlan_bundleFile hstale hkey (due_addonFile _ settings addon file)).bind
      intro markers _
      exact (ih fun f hf => h f (List.mem_cons_of_mem _ hf)).bind fun _ _ => hasPlan_pure _

theorem hasPlan_recordRules (sheet : Text) (rules : List Stylesheet.RestyledRule) :
    HasPlan before settings who (recordRules sheet rules) := by
  induction rules with
  | nil => exact hasPlan_pure ()
  | cons rule rest ih => exact (hasPlan_record _).bind fun _ _ => ih

/-- The rules of a stylesheet of the host do not depend on the output. -/
theorem restyleSheet_output (directory : Text) (mapping : Stylesheet.ClassMapping)
    (output : Tree) :
    Stylesheet.restyleSheet Places.memory.host { before with output } directory mapping =
      Stylesheet.restyleSheet Places.memory.host (blank before).storage directory mapping := by
  have hflatten : ∀ path, Stylesheet.flatten Places.memory.host { before with output } path =
      Stylesheet.flatten Places.memory.host (blank before).storage path :=
    Stylesheet.flatten_congr (fun _ => rfl) fun _ => rfl
  simp only [Stylesheet.restyleSheet, hflatten]
  rfl

theorem hasPlan_restyleOne (directory : Text) (mapping : Stylesheet.ClassMapping) :
    HasPlan before settings who (restyleOne Places.memory.host directory mapping) := by
  apply HasPlan.storage
  · intro output
    rw [restyleSheet_output]
  · apply (hasPlan_ofExcept _ ?_).bind
    · intro rules _
      apply (hasPlan_recordRules _ _).bind
      intro _ _
      refine HasPlan.bind ?_ fun _ _ => hasPlan_pure _
      apply hasPlan_action (.rules (rules.map (·.text))) trivial
      intro s
      rw [exec_modify, foldl_append_rules]
      rfl
    · intro failure hfailure
      simp only [Places.memory] at hfailure
      rcases Stylesheet.failure_of_restyleSheet hfailure with rfl | ⟨fault, hnone, rfl⟩
      · trivial
      · intro name hname
        rw [hnone] at hname
        cases hname

theorem hasPlan_restyle (directory : Text) (mappings : List Stylesheet.ClassMapping) :
    HasPlan before settings who (restyle Places.memory.host directory mappings) := by
  induction mappings with
  | nil => exact hasPlan_pure 0
  | cons mapping rest ih =>
      exact (hasPlan_restyleOne directory mapping).bind fun _ _ => ih.bind fun _ _ => hasPlan_pure _

theorem hasPlan_bundleAddon (hnormal : before.source.Normal) {addon : Text}
    (haddon : Path.IsSegment addon) (hwho : addon ∈ who) :
    HasPlan before settings who (bundleAddon Places.memory settings addon) := by
  apply HasPlan.storage (fun _ => rfl)
  apply (hasPlan_ofExcept _ fun _ h => by cases h).bind
  intro isDir _
  split
  · apply (hasPlan_ofExcept _ fun _ h => by cases h).bind
    intro files hfiles
    have hwalk : before.source.walk (addonsDir ++ '/' :: addon) = files := by
      rw [exec_ofExcept] at hfiles
      exact Except.ok.inj hfiles
    apply (hasPlan_bundleFiles hnormal ?_).bind
    · intro markers _
      exact (hasPlan_restyle _ _).bind fun _ _ => hasPlan_pure _
    · intro file hfile
      rw [← hwalk, Tree.mem_walk, keyStart_addon haddon] at hfile
      simpa [addonFile] using hfile
  · apply hasPlan_throw
    intro name hname
    cases hname
    exact hwho

/-- Bundling an addon in a phase of its own. -/
def addonPhase (settings : Settings) (addon : Text) : Build Trees Unit := do
  Build.startPhase ("Addon: ".toList ++ addon)
  Build.always Build.closePhase
    (Build.mapFailure (Failure.inAddon addon) (bundleAddon Places.memory settings addon))

theorem hasPlan_addonPhase (hnormal : before.source.Normal) {addon : Text}
    (haddon : Path.IsSegment addon) (hwho : addon ∈ who) :
    HasPlan before settings who (addonPhase settings addon) :=
  (hasPlan_startPhase _).bind fun _ _ =>
    ((hasPlan_bundleAddon hnormal haddon hwho).mapFailure hwho).closePhase

/-! ## Catalogs -/

theorem isOf_of_readJson {trees : Trees} {path : Text} {invalid : Text → Fault} {failure : Failure}
    (hinvalid : ∀ reason, IsOf who (.fault (invalid reason)))
    (h : readJson Places.memory.source trees path invalid = .error failure) : IsOf who failure := by
  unfold readJson at h
  split at h
  · cases h
    exact hinvalid _
  · rename_i hread
    cases h
    have hunreadable := isUnreadable_of_readText hread
    cases failure with
    | fault fault => cases hunreadable
    | unshowable fault => cases hunreadable
    | _ => trivial
  · split at h
    · cases h
    · cases h
      exact hinvalid _
    · cases h
      trivial

/-- Collecting a catalog and writing it is one action, which fails when the catalog has no bytes. -/
private theorem hasPlan_collect {language addon : Text} {catalog : Json.Value}
    (hkey : Path.key (catalogPath language addon) = catalogPath language addon)
    (hcatalog : catalogAt before.source (catalogPath language addon) = some catalog) :
    HasPlan before settings who (do
      modify fun s => { s with catalogs := addCatalog language addon catalog s.catalogs }
      Build.write (Places.memory.output.writeText (catalogPath language addon)
        (Json.minimal catalog))
      Build.record (.catalogWrite language addon)) := by
  cases hencode : Utf8.encodeCode (Json.minimal catalog) with
  | ok bytes =>
      have hdue : (Action.catalog language addon catalog (some bytes)).IsDue before.source
          settings := ⟨hkey, hcatalog, by rw [hencode]; rfl⟩
      refine ⟨.ok (), [.catalog language addon catalog (some bytes),
        .note fun note => (note.1.record (.catalogWrite language addon), note.2)], fun s hs => ?_,
        ?_, fun _ h => by cases h⟩
      · simp only [exec_bind, exec_modify, exec_write, Places.memory, View.memory, hencode,
          exec_record]
        rfl
      · intro action haction
        simp only [List.mem_cons, List.not_mem_nil, or_false] at haction
        rcases haction with rfl | rfl
        · exact hdue
        · trivial
  | error e =>
      refine ⟨.error (.unencodable e), [.catalog language addon catalog none], fun s hs => ?_, ?_,
        fun _ h => by cases h; trivial⟩
      · simp only [exec_bind, exec_modify, exec_write, Places.memory, View.memory, hencode]
        rfl
      · intro action haction
        rw [List.mem_singleton.mp haction]
        exact ⟨hkey, hcatalog, by rw [hencode]; rfl⟩

theorem hasPlan_writeCatalog {language addon : Text} (hwho : addon ∈ who)
    (hkey : Path.key (catalogPath language addon) = catalogPath language addon) :
    HasPlan before settings who (writeCatalog Places.memory language addon) := by
  apply HasPlan.storage (fun _ => rfl)
  apply (hasPlan_ofExcept _ fun _ h => by cases h).bind
  intro present _
  split
  · apply (hasPlan_ofExcept _ ?_).bind
    · intro catalog hcatalog
      have hread := readJson_ok (exec_ofExcept_ok hcatalog)
      rw [hkey] at hread
      exact hasPlan_collect hkey hread
    · intro failure hfailure
      refine isOf_of_readJson (fun reason name hname => ?_) hfailure
      cases hname
      exact hwho
  · exact hasPlan_pure ()

theorem bundleAddons_eq (settings : Settings) (addons : List Text) :
    bundleAddons Places.memory settings addons = inOrder (addons.map (addonPhase settings)) := by
  induction addons with
  | nil => rfl
  | cons addon rest ih =>
      rw [List.map_cons, inOrder, ← ih, bundleAddons, addonPhase, bind_assoc]

theorem writeLanguage_eq (language : Text) (addons : List Text) :
    writeLanguage Places.memory language addons =
      inOrder (addons.map (writeCatalog Places.memory language)) := by
  induction addons with
  | nil => rfl
  | cons addon rest ih => rw [List.map_cons, inOrder, ← ih, writeLanguage]

/-- Writing the catalogs of a language. -/
def languagePhase (addons : List Text) (language : Text) : Build Trees Unit := do
  modify fun s => { s with catalogs := Assoc.putNew language [] s.catalogs }
  writeLanguage Places.memory language addons

theorem writeLanguages_eq (addons languages : List Text) :
    writeLanguages Places.memory addons languages =
      inOrder (languages.map (languagePhase addons)) := by
  induction languages with
  | nil => rfl
  | cons language rest ih =>
      rw [List.map_cons, inOrder, ← ih, writeLanguages, languagePhase, bind_assoc]

theorem hasPlan_addonPhases (settings : Settings) (hnormal : before.source.Normal)
    {addons : List Text} (haddons : ∀ addon ∈ addons, Path.IsSegment addon) :
    ∀ step ∈ addons.map (addonPhase settings), HasPlan before settings Set.univ step := by
  intro step hstep
  obtain ⟨addon, haddon, rfl⟩ := List.mem_map.mp hstep
  exact hasPlan_addonPhase hnormal (haddons addon haddon) (Set.mem_univ _)

theorem hasPlan_bundleAddons (settings : Settings) (hnormal : before.source.Normal)
    {addons : List Text} (haddons : ∀ addon ∈ addons, Path.IsSegment addon) :
    HasPlan before settings Set.univ (bundleAddons Places.memory settings addons) := by
  rw [bundleAddons_eq]
  exact hasPlan_inOrder (hasPlan_addonPhases settings hnormal haddons)

theorem hasPlan_languagePhase {addons : List Text} {language : Text}
    (hlanguage : Path.IsSegment language) (haddons : ∀ addon ∈ addons, Path.IsSegment addon) :
    HasPlan before settings Set.univ (languagePhase addons language) := by
  refine (hasPlan_action (.newLanguage language) trivial fun _ => rfl).bind fun _ _ => ?_
  rw [writeLanguage_eq]
  apply hasPlan_inOrder
  intro step hstep
  obtain ⟨addon, haddon, rfl⟩ := List.mem_map.mp hstep
  exact hasPlan_writeCatalog (Set.mem_univ addon)
    (isKey_catalogPath hlanguage (haddons addon haddon))

theorem hasPlan_writeCatalogs (settings : Settings) (hnormal : before.source.Normal)
    {addons : List Text} (haddons : ∀ addon ∈ addons, Path.IsSegment addon) :
    HasPlan before settings Set.univ (writeCatalogs Places.memory addons) := by
  apply HasPlan.storage
  · intro output
    rw [languages_memory, languages_memory]
    rfl
  · rw [languages_memory]
    apply (hasPlan_ofExcept _ fun _ h => by cases h).bind
    intro found hfound
    have hlanguages : treeLanguages before.source = found := by
      rw [exec_ofExcept] at hfound
      exact Except.ok.inj hfound
    refine HasPlan.bind ?_ fun _ _ => hasPlan_pure _
    rw [writeLanguages_eq]
    apply hasPlan_inOrder
    intro step hstep
    obtain ⟨language, hlanguage, rfl⟩ := List.mem_map.mp hstep
    rw [← hlanguages] at hlanguage
    exact hasPlan_languagePhase ((mem_treeLanguages hnormal).mp hlanguage).1 haddons

/-! ## The stages of a run -/

theorem settled_announced (settings : Settings) (hs : Settled before s) :
    Settled before (announced settings s) :=
  ⟨hs.source_eq, hs.host_eq, hs.libraries⟩

theorem settled_sheeted (hnormal : before.source.Normal)
    (hsegments : ∀ addon ∈ settings.addons, Path.IsSegment addon) (hs : Settled before s) :
    Settled before (sheeted settings s) := by
  have hbundled : Settled before (bundled settings s) :=
    (hasPlan_bundleAddons settings hnormal hsegments).settled (settled_announced settings hs)
  exact ⟨hbundled.source_eq, hbundled.host_eq, hbundled.libraries⟩

end AddonBundle.Bundle
