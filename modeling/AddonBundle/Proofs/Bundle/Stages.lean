import AddonBundle.Proofs.Bundle.Run
/-!
# The stages of a run

A run bundles the addons, then writes the generated stylesheet and the catalogs, and last the
version record. Each stage is entered only when the one before succeeds, and only the addons, the
catalogs, the version and the closing message can fail. A run that succeeds has passed all of them.
-/

namespace AddonBundle.Bundle

open Build Text

variable {settings : Settings} {s : Session Trees}

/-! ## The addons -/

/-- The session once the start of bundling has been announced. -/
def announced (settings : Settings) (s : Session Trees) : Session Trees :=
  { s with log := s.log ++ [⟨.info,
    "Porting ".toList ++ Text.ofNat settings.addons.length ++ " addons".toList⟩] }

private theorem startsNoTag_append {front back : Text} (hfront : ∀ c ∈ front, c ≠ '\\' ∧ c ≠ '[')
    (hback : ∀ c ∈ back, c ≠ '\\' ∧ c ≠ '[') : ∀ c ∈ front ++ back, c ≠ '\\' ∧ c ≠ '[' :=
  List.forall_mem_append.mpr ⟨hfront, hback⟩

/-- The opening message can always be shown. -/
theorem fault?_opening (addons : Nat) :
    Log.Entry.fault? ⟨.info, "Porting ".toList ++ Text.ofNat addons ++ " addons".toList⟩ = none := by
  refine Log.fault?_of_startsNoTag .info (startsNoTag_append (startsNoTag_append ?_ ?_) ?_)
  · exact Log.startsNoTag_of_all (by decide)
  · exact Log.startsNoTag_ofNat addons
  · exact Log.startsNoTag_of_all (by decide)

theorem exec_opening (settings : Settings) (s : Session Trees) :
    exec (Build.log .info
      ("Porting ".toList ++ Text.ofNat settings.addons.length ++ " addons".toList)) s =
      (.ok (), announced settings s) := by
  rw [exec_log, fault?_opening]
  rfl

/-- The session behind the addons. -/
def bundled (settings : Settings) (s : Session Trees) : Session Trees :=
  (exec (bundleAddons Places.memory settings settings.addons) (announced settings s)).2

/-- The session behind the generated stylesheet, as the catalogs find it. -/
def sheeted (settings : Settings) (s : Session Trees) : Session Trees :=
  { bundled settings s with
    storage := { (bundled settings s).storage with
      output := (bundled settings s).storage.output.writeBytes sheetFile
        (Utf8.encode (bundled settings s).sheet.text) }
    written := (bundled settings s).written ++ [sheetFile]
    trace := (bundled settings s).trace.startPhase "Localization".toList [] }

/-! ## The version record -/

/-- What a run reports at its end. -/
def reportOf (s : Session Trees) (languages : List Text) (version : CodeText) : Report :=
  { written := s.written, libraries := s.libraries, languages, version, sheet := s.sheet
    trace := s.trace }

/-- The steps behind the catalogs. -/
def recordSteps (settings : Settings) (languages : List Text) : Build Trees Report := do
  let version ← Build.ofExcept (readVersion Places.memory.source (← Build.storage))
  writeRecord Places.memory.output version languages
  let report := reportOf (← get) languages version
  Build.log .success (summary settings.addons.length report)
  return report

/-- The session with the version record written. -/
def recorded (bytes : Bytes) (s : Session Trees) : Session Trees :=
  { s with storage := { s.storage with
      output := s.storage.output.writeBytes recordFile bytes } }

/-- The closing message of a run. -/
def closing (settings : Settings) (report : Report) : Log.Entry :=
  ⟨.success, summary settings.addons.length report⟩

/-- The closing message up to the version. -/
private def summaryStart (addons : Nat) (report : Report) : Text :=
  "Ported ".toList ++ Text.ofNat addons ++ " addons, ".toList ++
    Text.ofNat report.libraries.length ++ " libraries, ".toList ++
    Text.ofNat report.sheet.rules.length ++ " fixed rules, ".toList ++
    Text.ofNat report.languages.length ++ " languages (upstream ".toList

private theorem startsNoTag_summaryStart (addons : Nat) (report : Report) :
    ∀ c ∈ summaryStart addons report, c ≠ '\\' ∧ c ≠ '[' := by
  unfold summaryStart
  refine startsNoTag_append (startsNoTag_append (startsNoTag_append (startsNoTag_append
    (startsNoTag_append (startsNoTag_append (startsNoTag_append (startsNoTag_append ?_ ?_) ?_) ?_)
      ?_) ?_) ?_) ?_) ?_
  · exact Log.startsNoTag_of_all (by decide)
  · exact Log.startsNoTag_ofNat addons
  · exact Log.startsNoTag_of_all (by decide)
  · exact Log.startsNoTag_ofNat report.libraries.length
  · exact Log.startsNoTag_of_all (by decide)
  · exact Log.startsNoTag_ofNat report.sheet.rules.length
  · exact Log.startsNoTag_of_all (by decide)
  · exact Log.startsNoTag_ofNat report.languages.length
  · exact Log.startsNoTag_of_all (by decide)

/-- The closing message can be shown exactly when the version can. -/
theorem isSome_fault?_closing (settings : Settings) (report : Report) :
    (closing settings report).fault?.isSome =
      (markupFault? (CodePoint.toText report.version)).isSome := by
  have hmessage : (closing settings report).text =
      Log.Level.sign .success ++ summaryStart settings.addons.length report ++
        CodePoint.toText report.version ++ [')'] := by
    rw [List.append_assoc, List.append_assoc, ← List.append_assoc (summaryStart _ _)]
    rfl
  rw [Log.Entry.fault?, hmessage]
  exact isSome_markupFault?_between (List.forall_mem_append.mpr
    ⟨Log.startsNoTag_sign _, startsNoTag_summaryStart _ _⟩) _

/-- Behind the catalogs a run fails before the record is written, or at its closing message. -/
theorem exec_recordSteps (settings : Settings) (languages : List Text) (s : Session Trees) :
    exec (recordSteps settings languages) s =
      match readVersion Places.memory.source s.storage with
      | .error failure => (.error failure, s)
      | .ok version =>
        match Utf8.encodeCode (versionRecord version languages) with
        | .error e => (.error (.unencodable e), s)
        | .ok bytes =>
          let entry := closing settings (reportOf (recorded bytes s) languages version)
          (match entry.fault? with
            | some fault => .error (.unshowable fault)
            | none => .ok (reportOf (recorded bytes s) languages version),
            { recorded bytes s with log := s.log ++ [entry] }) := by
  rw [recordSteps, exec_bind_of_ok (exec_storage s), exec_bind, exec_ofExcept]
  cases readVersion Places.memory.source s.storage with
  | error failure => rfl
  | ok version =>
      dsimp only
      have hrecord : exec (writeRecord Places.memory.output version languages) s =
          match Utf8.encodeCode (versionRecord version languages) with
          | .error e => (.error (.unencodable e), s)
          | .ok bytes => (.ok (), recorded bytes s) := by
        rw [writeRecord, exec_write]
        simp only [Places.memory, View.memory]
        cases Utf8.encodeCode (versionRecord version languages) <;> rfl
      rw [exec_bind, hrecord]
      cases Utf8.encodeCode (versionRecord version languages) with
      | error e => rfl
      | ok bytes =>
          dsimp only
          rw [exec_bind_of_ok (exec_get _), exec_bind, exec_log]
          unfold closing
          cases Log.Entry.fault? ⟨.success, summary settings.addons.length
            (reportOf (recorded bytes s) languages version)⟩ <;> rfl

/-! ## All stages -/

/-- The steps behind the generated stylesheet. -/
def closingSteps (settings : Settings) : Build Trees Report := do
  let languages ← writeCatalogs Places.memory settings.addons
  modify Build.closePhase
  recordSteps settings languages

theorem exec_closingSteps (settings : Settings) (s : Session Trees) :
    exec (closingSteps settings) s =
      match exec (writeCatalogs Places.memory settings.addons) s with
      | (.error failure, s') => (.error failure, s')
      | (.ok languages, s') => exec (recordSteps settings languages) (Build.closePhase s') := by
  rw [closingSteps, exec_bind]
  obtain ⟨outcome, s'⟩ := exec (writeCatalogs Places.memory settings.addons) s
  cases outcome <;> rfl

theorem exec_bundlingSteps (settings : Settings) (s : Session Trees) :
    exec (bundlingSteps Places.memory settings) s =
      match (exec (bundleAddons Places.memory settings settings.addons)
        (announced settings s)).1 with
      | .error failure => (.error failure, bundled settings s)
      | .ok _ => exec (closingSteps settings) (sheeted settings s) := by
  rw [bundlingSteps, exec_bind_of_ok (exec_opening settings s), exec_bind, bundled]
  cases haddons : exec (bundleAddons Places.memory settings settings.addons)
      (announced settings s) with
  | mk outcome s₂ =>
      have hs₂ : bundled settings s = s₂ := by rw [bundled, haddons]
      cases outcome with
      | error failure => rfl
      | ok _ =>
          dsimp only
          rw [exec_bind_of_ok (exec_get _), exec_bind_of_ok (exec_writeFile _ _ _),
            exec_bind_of_ok (exec_startPhase _ _), sheeted, hs₂]
          rfl

/-! ## Runs that succeed -/

/-- The closing message can be shown when the version can. -/
theorem fault?_closing_eq_none_iff (settings : Settings) (report : Report) :
    (closing settings report).fault? = none ↔
      Text.markupFault? (CodePoint.toText report.version) = none := by
  rw [← Option.isNone_iff_eq_none, ← Option.isNone_iff_eq_none, ← Option.not_isSome,
    ← Option.not_isSome, isSome_fault?_closing]

/-- The session behind the catalogs. -/
def translated (settings : Settings) (s : Session Trees) : Session Trees :=
  (exec (writeCatalogs Places.memory settings.addons) (sheeted settings s)).2

/-- Bundling succeeds, with languages and a version, and with the bytes of their record. -/
structure Succeeds (settings : Settings) (s : Session Trees) (languages : List Text)
    (version : CodeText) (bytes : Bytes) : Prop where
  addons : (exec (bundleAddons Places.memory settings settings.addons)
    (announced settings s)).1 = .ok ()
  catalogs : (exec (writeCatalogs Places.memory settings.addons) (sheeted settings s)).1 =
    .ok languages
  version_eq : readVersion Places.memory.source (translated settings s).storage = .ok version
  record : Utf8.encodeCode (versionRecord version languages) = .ok bytes
  shown : Text.markupFault? (CodePoint.toText version) = none

/-- The session that the closing message is shown in. -/
def finished (settings : Settings) (s : Session Trees) (bytes : Bytes) : Session Trees :=
  recorded bytes (Build.closePhase (translated settings s))

/-- A run succeeds exactly when all its stages do, and the closing message is the last it does. -/
theorem exec_bundlingSteps_ok_iff {report : Report} {s' : Session Trees} :
    exec (bundlingSteps Places.memory settings) s = (.ok report, s') ↔
      ∃ languages version bytes, Succeeds settings s languages version bytes ∧
        report = reportOf (finished settings s bytes) languages version ∧
        s' = { finished settings s bytes with
          log := (finished settings s bytes).log ++ [closing settings report] } := by
  rw [exec_bundlingSteps]
  constructor
  · intro h
    split at h
    · cases h
    rename_i haddons
    rw [exec_closingSteps] at h
    split at h
    · cases h
    rename_i languages middle hcatalogs
    obtain rfl : translated settings s = middle := by rw [translated, hcatalogs]
    rw [exec_recordSteps] at h
    split at h
    · cases h
    rename_i version hversion
    split at h
    · cases h
    rename_i bytes hbytes
    obtain ⟨houtcome, rfl⟩ := Prod.mk.inj h
    split at houtcome
    · cases houtcome
    rename_i hfault
    cases houtcome
    refine ⟨languages, version, bytes, ⟨haddons, by rw [hcatalogs], hversion, hbytes, ?_⟩, rfl, rfl⟩
    exact (fault?_closing_eq_none_iff settings _).mp hfault
  · rintro ⟨languages, version, bytes, hstages, rfl, rfl⟩
    have hcatalogs : exec (writeCatalogs Places.memory settings.addons) (sheeted settings s) =
        (.ok languages, translated settings s) := Prod.ext hstages.catalogs rfl
    have hversion : readVersion Places.memory.source
        (Build.closePhase (translated settings s)).storage = .ok version := hstages.version_eq
    have hshown := (fault?_closing_eq_none_iff settings
      (reportOf (finished settings s bytes) languages version)).mpr hstages.shown
    rw [hstages.addons]
    dsimp only
    rw [exec_closingSteps, hcatalogs]
    dsimp only
    rw [exec_recordSteps, hversion]
    dsimp only
    rw [hstages.record]
    dsimp only
    rw [finished] at hshown ⊢
    rw [hshown]
    rfl

/-! ## What the stages make -/

section Made

variable {source : Tree} (hnormal : source.Normal)
  (hsegments : ∀ addon ∈ settings.addons, Path.IsSegment addon)

include hnormal hsegments

theorem made_bundled (hs : IsSteady source (due source settings) s) :
    Made source (due source settings) (bundleFilesOf source settings.addons) (announced settings s)
      (exec (bundleAddons Places.memory settings settings.addons) (announced settings s)).1
      (bundled settings s) :=
  makes_bundleAddons hnormal hsegments _ (hs.congr rfl rfl)

theorem isSteady_sheeted (hs : IsSteady source (due source settings) s) :
    IsSteady source (due source settings) (sheeted settings s) := by
  have hsheet : isStale (Path.key sheetFile) = false := by decide
  exact ((made_bundled hnormal hsegments hs).steady.writeBytes _ hsheet).congr rfl rfl

theorem made_translated (hs : IsSteady source (due source settings) s) :
    Made source (due source settings)
      (catalogFiles source (treeLanguages source) settings.addons) (sheeted settings s)
      (exec (writeCatalogs Places.memory settings.addons) (sheeted settings s)).1
      (translated settings s) :=
  makes_writeCatalogs hnormal hsegments _ (isSteady_sheeted hnormal hsegments hs)

end Made

/-- Behind the addons, only the generated stylesheet is written in front of the catalogs. -/
theorem get?_sheeted (settings : Settings) (s : Session Trees) (key : Text) :
    (sheeted settings s).storage.output.get? key =
      if key = sheetFile then some (Utf8.encode (bundled settings s).sheet.text)
      else (bundled settings s).storage.output.get? key :=
  Tree.get?_writeBytes _ _ _ _

/-- Behind the catalogs, only the version record is written. -/
theorem get?_finished (settings : Settings) (s : Session Trees) (bytes : Bytes) (key : Text) :
    (finished settings s bytes).storage.output.get? key =
      if key = recordFile then some bytes
      else (translated settings s).storage.output.get? key :=
  Tree.get?_writeBytes _ _ _ _

end AddonBundle.Bundle
