import AddonBundle.Proofs.Bundle.Planning
/-!
# Runs that fail

A session records what it writes: the files of addons, the libraries and the catalogs. At every
point of a run, what has been recorded is in the output with the contents due there, and nothing
else has changed. So a run that fails leaves no file half made. The version record is the last file
to be written, and only the closing message can still fail behind it.
-/

namespace AddonBundle.Bundle

open Build Text

/-! ## What has been written -/

/-- The catalog that a session has collected for an addon in a language. -/
def collected (s : Session Trees) (language addon : Text) : Option Json.Value :=
  (Assoc.get? language s.catalogs).bind (Assoc.get? addon)

/-- The files that a session records as written. A catalog is collected before it is written, which
fails when it has no bytes. -/
inductive Wrote (s : Session Trees) : Text → Prop
  | file {path : Text} (h : path ∈ s.written) : Wrote s path
  | library {file : Text} (h : file ∈ s.libraries) : Wrote s (libraryPath file)
  | catalog {language addon : Text} {value : Json.Value} {bytes : Bytes}
      (hvalue : collected s language addon = some value)
      (hbytes : Utf8.encodeCode (Json.minimal value) = .ok bytes) :
      Wrote s (catalogPath language addon)

variable {before : Trees} {settings : Settings} {output : Tree} {s s' : Session Trees}
  {key : Text}

theorem Wrote.mono (h : Wrote s key) (hwritten : s.written ⊆ s'.written)
    (hlibraries : s.libraries ⊆ s'.libraries)
    (hcatalogs : ∀ language addon value, collected s language addon = some value →
      collected s' language addon = some value) : Wrote s' key := by
  cases h with
  | file h => exact .file (hwritten h)
  | library h => exact .library (hlibraries h)
  | catalog hvalue hbytes => exact .catalog (hcatalogs _ _ _ hvalue) hbytes

theorem collected_addCatalog (language addon : Text) (value : Json.Value) (l a : Text)
    (hcatalogs : s'.catalogs = addCatalog language addon value s.catalogs) :
    collected s' l a = if l = language ∧ a = addon then some value else collected s l a := by
  unfold collected
  rw [hcatalogs, addCatalog, Assoc.get?_put]
  by_cases hl : l = language
  · subst hl
    rw [if_pos rfl, Option.bind_some, Assoc.get?_put]
    by_cases ha : a = addon
    · simp [ha]
    · rw [if_neg ha, if_neg fun h => ha h.2]
      cases Assoc.get? l s.catalogs <;> rfl
  · rw [if_neg hl, if_neg fun h => hl h.1]

theorem collected_putNew (language l a : Text)
    (hcatalogs : s'.catalogs = Assoc.putNew language [] s.catalogs) :
    collected s' l a = collected s l a := by
  unfold collected
  rw [hcatalogs, Assoc.get?_putNew]
  cases Assoc.get? l s.catalogs with
  | some found => rfl
  | none =>
      rw [Option.none_or]
      split <;> rfl

/-- In the stale directories, the output holds what is due of the files written, and all else is as
it was. -/
structure Accounts (before : Trees) (settings : Settings) (output : Tree) (s : Session Trees) :
    Prop where
  catalogs : ∀ language addon value, collected s language addon = some value →
    catalogAt before.source (catalogPath language addon) = some value
  wrote : ∀ key, isStale key = true → Wrote s key →
    s.storage.output.Holds (due before.source settings) key
  kept : ∀ key, isStale key = true → ¬ Wrote s key →
    s.storage.output.get? key = output.get? key

/-- A change outside the stale directories. -/
theorem Accounts.same (h : Accounts before settings output s)
    (houtput : ∀ key, isStale key = true →
      s'.storage.output.get? key = s.storage.output.get? key)
    (hwritten : ∀ key, isStale key = true → (key ∈ s'.written ↔ key ∈ s.written))
    (hlibraries : s'.libraries = s.libraries)
    (hcollected : ∀ language addon, collected s' language addon = collected s language addon) :
    Accounts before settings output s' := by
  have hwrote : ∀ key, isStale key = true → (Wrote s' key ↔ Wrote s key) := by
    intro key hstale
    constructor
    · rintro (hpath | hfile | ⟨hvalue, hbytes⟩)
      · exact .file ((hwritten key hstale).mp hpath)
      · exact .library (hlibraries ▸ hfile)
      · exact .catalog (hcollected _ _ ▸ hvalue) hbytes
    · rintro (hpath | hfile | ⟨hvalue, hbytes⟩)
      · exact .file ((hwritten key hstale).mpr hpath)
      · exact .library (hlibraries ▸ hfile)
      · exact .catalog ((hcollected _ _).trans hvalue) hbytes
  constructor
  case catalogs =>
    intro language addon value hvalue
    rw [hcollected] at hvalue
    exact h.catalogs language addon value hvalue
  case wrote =>
    intro key hstale hkey
    obtain ⟨bytes, hdue, hget⟩ := h.wrote key hstale ((hwrote key hstale).mp hkey)
    exact ⟨bytes, hdue, (houtput key hstale).trans hget⟩
  case kept =>
    intro key hstale hkey
    rw [houtput key hstale]
    exact h.kept key hstale fun hold => hkey ((hwrote key hstale).mpr hold)

/-- The writing of a file that is due. -/
theorem Accounts.write (h : Accounts before settings output s) {path : Text} {bytes : Bytes}
    (hkey : Path.key path = path) (hdue : due before.source settings path = some bytes)
    (houtput : s'.storage.output = s.storage.output.writeBytes path bytes)
    (hcollected : ∀ language addon value, collected s' language addon = some value →
      catalogAt before.source (catalogPath language addon) = some value)
    (hwrote : ∀ key, Wrote s' key ↔ key = path ∨ Wrote s key) :
    Accounts before settings output s' where
  catalogs := hcollected
  wrote := by
    intro key hstale hwritten
    by_cases heq : key = path
    · subst heq
      refine ⟨bytes, hdue, ?_⟩
      rw [houtput, Tree.get?_writeBytes, hkey, if_pos rfl]
    · obtain ⟨contents, hcontents, hget⟩ :=
        h.wrote key hstale (((hwrote key).mp hwritten).resolve_left heq)
      refine ⟨contents, hcontents, ?_⟩
      rw [houtput, Tree.get?_writeBytes, hkey, if_neg heq, hget]
  kept := by
    intro key hstale hnot
    rw [hwrote, not_or] at hnot
    rw [houtput, Tree.get?_writeBytes, hkey, if_neg hnot.1]
    exact h.kept key hstale hnot.2

section Catalog

variable {language addon : Text} {value : Json.Value} {bytes : Option Bytes}

theorem collected_catalog (l a : Text) :
    collected ((Action.catalog language addon value bytes).apply s) l a =
      if l = language ∧ a = addon then some value else collected s l a :=
  collected_addCatalog language addon value l a rfl

theorem Accounts.catalogs_catalog (h : Accounts before settings output s)
    (hvalue : catalogAt before.source (catalogPath language addon) = some value) (l a : Text)
    (v : Json.Value)
    (hv : collected ((Action.catalog language addon value bytes).apply s) l a = some v) :
    catalogAt before.source (catalogPath l a) = some v := by
  rw [collected_catalog] at hv
  split at hv
  · rename_i heq
    rw [heq.1, heq.2, hvalue, hv]
  · exact h.catalogs l a v hv

/-- A catalog that was collected before is the same, since it was read from the same file. -/
theorem Accounts.collected_mono (h : Accounts before settings output s)
    (hvalue : catalogAt before.source (catalogPath language addon) = some value) (l a : Text)
    (v : Json.Value) (hv : collected s l a = some v) :
    collected ((Action.catalog language addon value bytes).apply s) l a = some v := by
  rw [collected_catalog]
  split
  · rename_i heq
    have hread := h.catalogs l a v hv
    rwa [heq.1, heq.2, hvalue] at hread
  · exact hv

theorem wrote_of_catalog (h : Wrote ((Action.catalog language addon value bytes).apply s) key) :
    (key = catalogPath language addon ∧
      ∃ encoded, Utf8.encodeCode (Json.minimal value) = .ok encoded) ∨ Wrote s key := by
  cases h with
  | file hpath => exact .inr (.file hpath)
  | library hfile => exact .inr (.library hfile)
  | catalog hv hencoded =>
      rw [collected_catalog] at hv
      split at hv
      · rename_i heq
        cases hv
        exact .inl ⟨by rw [heq.1, heq.2], _, hencoded⟩
      · exact .inr (.catalog hv hencoded)

/-- The collecting of a catalog. -/
theorem Accounts.apply_catalog (h : Accounts before settings output s)
    (hdue : (Action.catalog language addon value bytes).IsDue before.source settings) :
    Accounts before settings output ((Action.catalog language addon value bytes).apply s) := by
  obtain ⟨hkey, hvalue, hbytes⟩ := hdue
  have hold : ∀ key, Wrote s key → Wrote ((Action.catalog language addon value bytes).apply s) key :=
    fun _ hkey => hkey.mono (List.Subset.refl _) (List.Subset.refl _) (h.collected_mono hvalue)
  cases hencode : Utf8.encodeCode (Json.minimal value) with
  | ok encoded =>
      obtain rfl : some encoded = bytes := by
        rw [← hbytes, hencode]
        rfl
      have hcatalog : due before.source settings (catalogPath language addon) = some encoded := by
        rw [due_catalogPath, catalogBytes, hvalue, Option.bind_some, hbytes]
      refine h.write hkey hcatalog rfl (h.catalogs_catalog hvalue) fun key => ⟨?_, ?_⟩
      · exact fun hkey => (wrote_of_catalog hkey).imp_left fun heq => heq.1
      · rintro (rfl | hkey)
        · exact .catalog ((collected_catalog _ _).trans (if_pos ⟨rfl, rfl⟩)) hencode
        · exact hold key hkey
  | error e =>
      -- it is collected, but has no bytes that could be written
      obtain rfl : none = bytes := by
        rw [← hbytes, hencode]
        rfl
      refine ⟨h.catalogs_catalog hvalue, fun key hstale hkey => ?_, fun key hstale hkey => ?_⟩
      · rcases wrote_of_catalog hkey with ⟨-, encoded, hencoded⟩ | hkey
        · rw [hencode] at hencoded
          cases hencoded
        · exact h.wrote key hstale hkey
      · exact h.kept key hstale fun hkept => hkey (hold key hkept)

end Catalog

theorem Accounts.apply (h : Accounts before settings output s) {action : Action}
    (hdue : action.IsDue before.source settings) :
    Accounts before settings output (action.apply s) := by
  cases action with
  | note change => exact h.same (fun _ _ => rfl) (fun _ _ => .rfl) rfl fun _ _ => rfl
  | rules texts => exact h.same (fun _ _ => rfl) (fun _ _ => .rfl) rfl fun _ _ => rfl
  | newLanguage name =>
      exact h.same (fun _ _ => rfl) (fun _ _ => .rfl) rfl fun l a => collected_putNew name l a rfl
  | library reference bytes =>
      obtain ⟨hsegment, hbytes⟩ := hdue
      rw [apply_library]
      split
      · exact h
      · have hkey := isKey_libraryPath hsegment
        have hlibrary : due before.source settings (libraryPath reference.file) = some bytes := by
          rw [due_libraryPath]
          unfold libraryBytes? at hbytes
          split at hbytes
          · cases hbytes
          · rwa [hkey] at hbytes
        refine h.write hkey hlibrary rfl h.catalogs fun key => ⟨?_, ?_⟩
        · rintro (hpath | hfile | ⟨hvalue, hbytes⟩)
          · exact .inr (.file hpath)
          · rcases List.mem_append.mp hfile with hfile | hfile
            · exact .inr (.library hfile)
            · rw [List.mem_singleton.mp hfile]
              exact .inl rfl
          · exact .inr (.catalog hvalue hbytes)
        · rintro (rfl | hkey)
          · exact .library (List.mem_append_right _ (List.mem_singleton_self _))
          · exact hkey.mono (List.Subset.refl _) (List.subset_append_left _ _) fun _ _ _ hv => hv
  | file path bytes =>
      obtain ⟨-, hkey, hbytes⟩ := hdue
      refine h.write hkey hbytes rfl h.catalogs fun key => ⟨?_, ?_⟩
      · rintro (hpath | hfile | ⟨hvalue, hbytes⟩)
        · rcases List.mem_append.mp hpath with hpath | hpath
          · exact .inr (.file hpath)
          · exact .inl (List.mem_singleton.mp hpath)
        · exact .inr (.library hfile)
        · exact .inr (.catalog hvalue hbytes)
      · rintro (rfl | hkey)
        · exact .file (List.mem_append_right _ (List.mem_singleton_self _))
        · exact hkey.mono (List.subset_append_left _ _) (List.Subset.refl _) fun _ _ _ hv => hv
  | catalog language addon value bytes => exact h.apply_catalog hdue

/-- A step with a plan keeps the account, and the files outside the stale directories. -/
theorem HasPlan.accounts {α : Type} {who : Set Text} {step : Build Trees α}
    (hplan : HasPlan before settings who step) (hs : Settled before s)
    (h : Accounts before settings output s) :
    Accounts before settings output (exec step s).2 := by
  obtain ⟨outcome, actions, hplan⟩ := hplan
  rw [hplan.exec_eq s hs]
  exact perform_induction (fun _ _ hdue h => h.apply hdue) hplan.isDue h

theorem get?_apply_of_not_stale {action : Action} (hdue : action.IsDue before.source settings)
    (hkey : isStale key = false) :
    (action.apply s).storage.output.get? key = s.storage.output.get? key := by
  have hwrite : ∀ path bytes, isStale path = true → Path.key path = path →
      (s.storage.output.writeBytes path bytes).get? key = s.storage.output.get? key := by
    intro path bytes hstale hpath
    rw [Tree.get?_writeBytes, hpath, if_neg]
    rintro rfl
    rw [hkey] at hstale
    cases hstale
  cases action with
  | note change => rfl
  | rules texts => rfl
  | newLanguage name => rfl
  | library reference bytes =>
      rw [apply_library]
      split
      · rfl
      · exact hwrite _ bytes (isStale_of_isAtOrBelow (by decide) (isAtOrBelow_libraryPath _))
          (isKey_libraryPath hdue.1)
  | file path bytes => exact hwrite path bytes hdue.1 hdue.2.1
  | catalog language addon value bytes =>
      cases bytes with
      | none => rfl
      | some bytes =>
          exact hwrite _ bytes
            (isStale_of_isAtOrBelow (by decide) (isAtOrBelow_catalogPath _ _)) hdue.1

theorem HasPlan.get?_of_not_stale {α : Type} {who : Set Text} {step : Build Trees α}
    (hplan : HasPlan before settings who step) (hs : Settled before s)
    (hkey : isStale key = false) :
    (exec step s).2.storage.output.get? key = s.storage.output.get? key := by
  obtain ⟨outcome, actions, hplan⟩ := hplan
  rw [hplan.exec_eq s hs]
  refine perform_induction (P := fun s' => s'.storage.output.get? key = s.storage.output.get? key)
    (fun action s' hdue h => ?_) hplan.isDue rfl
  exact (get?_apply_of_not_stale hdue hkey).trans h

/-! ## Where a run fails -/

theorem exec_inOrder_of_failing {front back : List (Build Trees Unit)} {step : Build Trees Unit}
    {failure : Failure} (hfront : (exec (inOrder front) s).1 = .ok ())
    (hstep : exec step (exec (inOrder front) s).2 = (.error failure, s')) :
    exec (inOrder (front ++ step :: back)) s = (.error failure, s') := by
  induction front generalizing s with
  | nil =>
      rw [List.nil_append, inOrder, exec_bind]
      rw [inOrder, exec_pure] at hstep
      rw [hstep]
  | cons first front ih =>
      rw [inOrder, exec_bind] at hfront hstep
      cases hfirst : exec first s with
      | mk outcome mid =>
          rw [hfirst] at hfront hstep
          cases outcome with
          | error raised => cases hfront
          | ok _ =>
              rw [List.cons_append, inOrder, exec_bind_of_ok hfirst]
              exact ih hfront hstep

/-- The session as the first addon finds it. -/
def startSession (settings : Settings) (before : Trees) : Session Trees :=
  announced settings (cleanedSession settings (fresh { storage := before }))

/-- Bundling fails in the phase of an addon, behind the phases of the addons before it. -/
structure FailsIn (settings : Settings) (before : Trees) (earlier : List Text) (addon : Text)
    (later : List Text) (failure : Failure) : Prop where
  addons_eq : settings.addons = earlier ++ addon :: later
  earlier_ok : (exec (bundleAddons Places.memory settings earlier)
    (startSession settings before)).1 = .ok ()
  fails : (exec (addonPhase settings addon) (exec (bundleAddons Places.memory settings earlier)
    (startSession settings before)).2).1 = .error failure

theorem FailsIn.exec_eq {earlier later : List Text} {addon : Text} {failure : Failure}
    (h : FailsIn settings before earlier addon later failure) :
    exec (bundleAddons Places.memory settings settings.addons) (startSession settings before) =
      (.error failure, (exec (addonPhase settings addon) (exec
        (bundleAddons Places.memory settings earlier) (startSession settings before)).2).2) := by
  have hearlier := h.earlier_ok
  have hfails := h.fails
  rw [bundleAddons_eq] at hearlier hfails
  rw [h.addons_eq, bundleAddons_eq, bundleAddons_eq, List.map_append, List.map_cons]
  exact exec_inOrder_of_failing hearlier (Prod.ext hfails rfl)

/-- A session behind the addons, with the version record as it was. -/
structure IsBehind (before : Trees) (settings : Settings) (s : Session Trees) : Prop where
  settled : Settled before s
  steady : IsSteady before.source (due before.source settings) s
  accounts : Accounts before settings (cleaned settings before.output) s
  record : s.storage.output.get? recordFile = before.output.get? recordFile
  made : ∀ addon ∈ settings.addons, ∀ key ∈ addonFiles before.source addon,
    s.storage.output.Holds (due before.source settings) key

theorem IsBehind.closePhase (h : IsBehind before settings s) :
    IsBehind before settings (Build.closePhase s) where
  settled := ⟨h.settled.source_eq, h.settled.host_eq, h.settled.libraries⟩
  steady := h.steady.congr rfl rfl
  accounts := h.accounts.same (fun _ _ => rfl) (fun _ _ => .rfl) rfl fun _ _ => rfl
  record := h.record
  made := h.made

section Failed

variable (hnormal : before.source.Normal)
  (hsegments : ∀ addon ∈ settings.addons, Path.IsSegment addon)

include hnormal hsegments

theorem IsBehind.writeCatalogs (h : IsBehind before settings s) :
    IsBehind before settings (exec (Bundle.writeCatalogs Places.memory settings.addons) s).2 := by
  have hplan := hasPlan_writeCatalogs settings hnormal hsegments
  have hmade := makes_writeCatalogs hnormal hsegments s h.steady
  constructor
  case settled => exact hplan.settled h.settled
  case steady => exact hmade.steady
  case accounts => exact hplan.accounts h.settled h.accounts
  case record => exact (hplan.get?_of_not_stale h.settled isStale_recordFile).trans h.record
  case made => exact fun addon haddon key hkey => hmade.trees.holds (h.made addon haddon key hkey)

end Failed

end AddonBundle.Bundle
