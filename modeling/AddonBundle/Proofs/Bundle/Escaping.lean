import AddonBundle.Proofs.Bundle.Fixed
import AddonBundle.Proofs.Json.Minimal
import AddonBundle.Proofs.Markup
/-!
# Runs that fail without a fault

A run over trees in memory gives a report, or fails with a fault, or something escapes it: the
imports of a stylesheet nest too deep, a catalog or the manifest is a directory, passes a limit or
holds half of a surrogate pair, or the version cannot be shown. Which it is can be read off the
collection and the host, whatever the keys and the bytes of the trees and whatever the addons are.
-/

namespace AddonBundle.Bundle

open Build Text
open Stylesheet (Finishes)

variable {before : Trees} {settings : Settings} {α β : Type}

/-! ## What escapes -/

/-- Of some items in order one that escapes is reached, as those before it pass. -/
def Reaches (passes escapes : α → Prop) (items : List α) : Prop :=
  ∃ front item back, items = front ++ item :: back ∧ (∀ other ∈ front, passes other) ∧ escapes item

/-- The imports of a stylesheet of the host nest as deep as the limit. -/
def NestsTooDeep (before : Trees) (path : Text) : Prop :=
  before.host.isDir path = false ∧
    ∃ text calls, textAt before.host (Path.key path) = some text ∧
      List.IsChain (Stylesheet.Enters Places.memory.host before)
        (⟨Limit.maxNesting, [Path.normalize path], path, text⟩ :: calls) ∧
      calls.length = Limit.maxNesting

/-- The files of an addon are bundled, and of the stylesheets that its markers name one that nests
too deep is reached. -/
def AddonEscapes (before : Trees) (settings : Settings) (addon : Text) : Prop :=
  let directory := addonsDir ++ '/' :: addon
  before.source.isDir directory = true ∧
    ∃ markers,
      outcome before (bundleFiles Places.memory settings directory (before.source.walk directory)) =
        .ok markers ∧
      Reaches
        (fun mapping => ∃ rules, Stylesheet.restyleSheet Places.memory.host before
          Stylesheet.componentsDir mapping = .ok rules)
        (fun mapping =>
          NestsTooDeep before (Stylesheet.sheetPath Stylesheet.componentsDir mapping.sheet))
        (Stylesheet.groupMarkers markers)

/-- A path is there but cannot be read as JSON, without that being a fault: it is a directory and no
file, or its text passes a limit. -/
inductive JsonEscapes (tree : Tree) (path : Text) : Prop
  | directory (hfile : tree.isFile path = false) (hdir : tree.isDir path = true)
  | limit {text : Text} {passed : Limit} (htext : textAt tree (Path.key path) = some text)
    (hread : Json.read text = .error (.limit passed))

/-- A catalog cannot be read, or has a lone half of a surrogate pair in a string. -/
inductive CatalogEscapes (source : Tree) (path : Text) : Prop
  | read (h : JsonEscapes source path)
  | write {catalog : Json.Value} (hcatalog : catalogAt source (Path.key path) = some catalog)
    (hhalf : ¬ catalog.All Json.Value.HasCharacters)

/-- There is no catalog, or one that can be read and written anew. -/
def CatalogPasses (source : Tree) (path : Text) : Prop :=
  source.present path = false ∨
    ∃ catalog, catalogAt source (Path.key path) = some catalog ∧
      catalog.All Json.Value.HasCharacters

/-- All catalogs of a language are written. -/
def LanguagePasses (source : Tree) (addons : List Text) (language : Text) : Prop :=
  ∀ addon ∈ addons, CatalogPasses source (catalogPath language addon)

/-- Of the catalogs of a language one that escapes is reached. -/
def LanguageEscapes (source : Tree) (addons : List Text) (language : Text) : Prop :=
  Reaches (fun addon => CatalogPasses source (catalogPath language addon))
    (fun addon => CatalogEscapes source (catalogPath language addon)) addons

/-- Not a failure to decode bytes, nor one of the file system. -/
def InMemory : Failure → Prop
  | .undecodable _ | .refused _ => False
  | _ => True

/-! ## Outcomes -/

/-- An outcome is a result or a fault unless something is so, and no failure of a disk. -/
structure EscapesIff (result : Except Failure α) (escapes : Prop) : Prop where
  finishes_iff : Finishes result ↔ ¬ escapes
  inMemory : ∀ failure, result = .error failure → InMemory failure

theorem escapesIff_of_finishes {result : Except Failure α} {escapes : Prop} (h : Finishes result)
    (hnot : ¬ escapes) : EscapesIff result escapes := by
  refine ⟨iff_of_true h hnot, ?_⟩
  rintro failure rfl
  obtain ⟨a, hok⟩ | ⟨fault, heq⟩ := h
  · cases hok
  · cases heq
    trivial

theorem escapesIff_of_error {failure : Failure} {escapes : Prop}
    (hfault : ∀ fault, failure ≠ .fault fault) (hmemory : InMemory failure) (h : escapes) :
    EscapesIff (.error failure : Except Failure α) escapes := by
  refine ⟨iff_of_false ?_ (not_not_intro h), ?_⟩
  · rintro (⟨a, hok⟩ | ⟨fault, heq⟩)
    · cases hok
    · exact hfault fault (Except.error.inj heq)
  · rintro other ⟨⟩
    exact hmemory

theorem EscapesIff.congr {result : Except Failure α} {escapes escapes' : Prop}
    (h : EscapesIff result escapes) (hiff : escapes ↔ escapes') : EscapesIff result escapes' :=
  ⟨h.finishes_iff.trans (not_congr hiff), h.inMemory⟩

/-- Of two steps the first escapes, or it gives a result and the second escapes. -/
theorem EscapesIff.bind {result : Except Failure α} {next : α → Except Failure β}
    {escapes : Prop} {escapes' : α → Prop} (h : EscapesIff result escapes)
    (hnext : ∀ a, result = .ok a → EscapesIff (next a) (escapes' a)) :
    EscapesIff (result.bind next) (escapes ∨ ∃ a, result = .ok a ∧ escapes' a) := by
  cases result with
  | error failure =>
      refine ⟨?_, fun other heq => h.inMemory other (congrArg Except.error (Except.error.inj heq))⟩
      have hfinishes : Finishes ((Except.error failure).bind next) ↔
          Finishes (.error failure : Except Failure α) := by
        constructor
        · rintro (⟨b, hok⟩ | ⟨fault, heq⟩)
          · cases hok
          · exact .inr ⟨fault, congrArg Except.error (Except.error.inj heq)⟩
        · rintro (⟨a, hok⟩ | ⟨fault, heq⟩)
          · cases hok
          · exact .inr ⟨fault, congrArg Except.error (Except.error.inj heq)⟩
      rw [hfinishes, h.finishes_iff]
      simp
  | ok a =>
      have hnot : ¬ escapes := h.finishes_iff.mp (.inl ⟨a, rfl⟩)
      refine (hnext a rfl).congr ⟨fun hescapes => .inr ⟨a, rfl, hescapes⟩, ?_⟩
      rintro (hescapes | ⟨_, heq, hescapes⟩)
      · exact absurd hescapes hnot
      · cases heq
        exact hescapes

theorem EscapesIff.map {result : Except Failure α} {escapes : Prop} (h : EscapesIff result escapes)
    (f : α → β) : EscapesIff (result.map f) escapes := by
  have hbind : result.map f = result.bind fun a => .ok (f a) := by cases result <;> rfl
  rw [hbind]
  refine (h.bind fun a _ => escapesIff_of_finishes (.inl ⟨f a, rfl⟩) not_false).congr ?_
  simp

theorem EscapesIff.inAddon {result : Except Failure α} {escapes : Prop}
    (h : EscapesIff result escapes) (addon : Text) :
    EscapesIff (result.mapError (Failure.inAddon addon)) escapes := by
  cases result with
  | ok a => exact h
  | error failure =>
      cases failure with
      | fault fault =>
          exact escapesIff_of_finishes (.inr ⟨_, rfl⟩) (h.finishes_iff.mp (.inr ⟨fault, rfl⟩))
      | _ => exact h

@[simp] theorem reaches_nil {passes escapes : α → Prop} : ¬ Reaches passes escapes [] := by
  rintro ⟨front, item, back, heq, -⟩
  cases front <;> cases heq

theorem reaches_cons {passes escapes : α → Prop} {item : α} {rest : List α} :
    Reaches passes escapes (item :: rest) ↔
      escapes item ∨ (passes item ∧ Reaches passes escapes rest) := by
  constructor
  · rintro ⟨front, found, back, heq, hfront, hfound⟩
    cases front with
    | nil =>
        cases heq
        exact .inl hfound
    | cons other front =>
        cases heq
        rw [List.forall_mem_cons] at hfront
        exact .inr ⟨hfront.1, front, found, back, rfl, hfront.2, hfound⟩
  · rintro (hitem | ⟨hitem, front, found, back, rfl, hfront, hfound⟩)
    · exact ⟨[], item, rest, rfl, by simp, hitem⟩
    · exact ⟨item :: front, found, back, rfl, List.forall_mem_cons.mpr ⟨hitem, hfront⟩, hfound⟩

/-! ## Steps -/

/-- A step whose outcome is fixed, and escapes when something is so. -/
structure StepEscapes (before : Trees) (step : Build Trees α) (escapes : Prop) : Prop
    extends IsFixed before step where
  escapesIff : EscapesIff (outcome before step) escapes

theorem Settles.stepEscapes {step : Build Trees α} {escapes : Prop} (h : Settles before step)
    (hnot : ¬ escapes) : StepEscapes before step escapes :=
  ⟨h.toIsFixed, escapesIff_of_finishes h.finishes hnot⟩

theorem StepEscapes.congr {step : Build Trees α} {escapes escapes' : Prop}
    (h : StepEscapes before step escapes) (hiff : escapes ↔ escapes') :
    StepEscapes before step escapes' :=
  ⟨h.toIsFixed, h.escapesIff.congr hiff⟩

theorem StepEscapes.bind {step : Build Trees α} {next : α → Build Trees β} {escapes : Prop}
    {escapes' : α → Prop} (h : StepEscapes before step escapes)
    (hnext : ∀ a, StepEscapes before (next a) (escapes' a)) :
    StepEscapes before (step >>= next)
      (escapes ∨ ∃ a, outcome before step = .ok a ∧ escapes' a) := by
  refine ⟨h.toIsFixed.bind fun a _ => (hnext a).toIsFixed, ?_⟩
  rw [outcome_bind h.toIsFixed fun a _ => (hnext a).toIsFixed]
  exact h.escapesIff.bind fun a _ => (hnext a).escapesIff

/-- Behind a step that settles nothing but the second step escapes. -/
theorem Settles.bindEscapes {step : Build Trees α} {next : α → Build Trees β} {escapes : α → Prop}
    (h : Settles before step) (hnext : ∀ a, StepEscapes before (next a) (escapes a)) :
    StepEscapes before (step >>= next) (∃ a, outcome before step = .ok a ∧ escapes a) :=
  ((h.stepEscapes not_false).bind hnext).congr (by simp)

theorem StepEscapes.thenPure {step : Build Trees α} {escapes : Prop}
    (h : StepEscapes before step escapes) (f : α → β) :
    StepEscapes before (step >>= fun a => pure (f a)) escapes :=
  (h.bind fun a => (settles_pure (f a)).stepEscapes not_false).congr (by simp)

theorem StepEscapes.storage {next : Trees → Build Trees α} {escapes : Prop}
    (houtput : ∀ output, next { before with output } = next (blank before).storage)
    (h : StepEscapes before (next (blank before).storage) escapes) :
    StepEscapes before (Build.storage >>= next) escapes :=
  ⟨h.toIsFixed.storage houtput, h.escapesIff⟩

/-- Steps in order escape when one that escapes is reached. -/
theorem stepEscapes_inOrder {step : β → Build Trees Unit} {escapes : β → Prop} {items : List β}
    (h : ∀ item ∈ items, StepEscapes before (step item) (escapes item)) :
    StepEscapes before (inOrder (items.map step))
      (Reaches (fun item => outcome before (step item) = .ok ()) escapes items) := by
  induction items with
  | nil => exact (settles_pure ()).stepEscapes reaches_nil
  | cons item rest ih =>
      rw [List.forall_mem_cons] at h
      rw [List.map_cons, inOrder]
      refine (h.1.bind fun _ => ih h.2).congr ?_
      rw [reaches_cons]
      refine or_congr_right ⟨?_, fun h => ⟨(), h⟩⟩
      rintro ⟨_, h⟩
      exact h

/-! ## Addons -/

private theorem isFile_of_textAt {tree : Tree} {path text : Text}
    (h : textAt tree (Path.key path) = some text) : tree.isFile path = true := by
  obtain ⟨bytes, hget, -⟩ := Option.bind_eq_some_iff.mp h
  rw [Tree.isFile, hget]
  rfl

private theorem readSheet_eq_ok_iff {path text : Text} :
    Stylesheet.readSheet Places.memory.host before path = .ok text ↔
      textAt before.host (Path.key path) = some text := by
  unfold Stylesheet.readSheet
  rw [Places.memory, View.readText_memory, textAt]
  cases before.host.get? (Path.key path) with
  | none => simp [Failure.isUnreadable, Failure.isRefusal]
  | some bytes =>
      rw [Option.bind_some]
      dsimp only
      cases Utf8.decode bytes with
      | ok found => simp [Except.toOption, Except.mapError]
      | error e => simp [Except.toOption, Except.mapError, Failure.isUnreadable]

private theorem flattenText_eq_limit_iff {path text : Text} :
    Stylesheet.flattenText Places.memory.host before path text = .error (.limit .nesting) ↔
      Stylesheet.inlineImports Places.memory.host before Limit.maxNesting [Path.normalize path] path
        text = .error (.limit .nesting) := by
  unfold Stylesheet.flattenText
  cases Stylesheet.inlineImports Places.memory.host before Limit.maxNesting [Path.normalize path]
    path text with
  | error failure => simp
  | ok result =>
      dsimp only
      cases Stylesheet.substituteVariables [] (some path) result.1 <;> simp

private theorem flatten_eq_limit_iff {path : Text} :
    Stylesheet.flatten Places.memory.host before path = .error (.limit .nesting) ↔
      NestsTooDeep before path := by
  have hfile : Places.memory.host.isFile before path =
      .ok (before.host.isFile path && !before.host.isDir path) := by
    simp only [Places.memory, View.isFile_memory]
  have hunlimited : Stylesheet.Unlimited Places.memory.host before := by
    simp only [Places.memory]
    exact Stylesheet.unlimited_memory
  have hnest : ∀ text, Stylesheet.flattenText Places.memory.host before path text =
      .error (.limit .nesting) ↔ ∃ calls, List.IsChain (Stylesheet.Enters Places.memory.host before)
        (⟨Limit.maxNesting, [Path.normalize path], path, text⟩ :: calls) ∧
        calls.length = Limit.maxNesting := fun text =>
    flattenText_eq_limit_iff.trans (Stylesheet.inlineImports_eq_limit hunlimited)
  unfold Stylesheet.flatten
  rw [hfile]
  constructor
  · intro h
    split at h
    · rename_i hnone
      cases hnone
    · cases h
    · rename_i hsheet
      rw [Except.ok.injEq, Bool.and_eq_true, Bool.not_eq_true'] at hsheet
      cases hread : Stylesheet.readSheet Places.memory.host before path with
      | error failure =>
          rw [hread] at h
          cases h
          exact absurd hread (hunlimited path .nesting).2
      | ok text =>
          rw [hread] at h
          obtain ⟨calls, hcalls⟩ := (hnest text).mp h
          exact ⟨hsheet.2, text, calls, readSheet_eq_ok_iff.mp hread, hcalls⟩
  · rintro ⟨hdir, text, calls, htext, hcalls⟩
    have hsheet : (before.host.isFile path && !before.host.isDir path) = true := by
      rw [isFile_of_textAt htext, hdir]
      rfl
    rw [hsheet]
    dsimp only
    rw [readSheet_eq_ok_iff.mpr htext]
    exact (hnest text).mpr ⟨calls, hcalls⟩

theorem escapesIff_restyleSheet (directory : Text) (mapping : Stylesheet.ClassMapping) :
    EscapesIff (Stylesheet.restyleSheet Places.memory.host before directory mapping)
      (NestsTooDeep before (Stylesheet.sheetPath directory mapping.sheet)) := by
  have hlimit : Stylesheet.restyleSheet Places.memory.host before directory mapping =
      .error (.limit .nesting) ↔
      NestsTooDeep before (Stylesheet.sheetPath directory mapping.sheet) := by
    have hpresent : Places.memory.host.present before (Stylesheet.sheetPath directory mapping.sheet) =
        .ok (before.host.present (Stylesheet.sheetPath directory mapping.sheet)) := rfl
    unfold Stylesheet.restyleSheet
    dsimp only
    rw [hpresent, ← flatten_eq_limit_iff]
    cases hcase : before.host.present (Stylesheet.sheetPath directory mapping.sheet) with
    | false =>
        refine iff_of_false (by simp) fun hflatten => ?_
        obtain ⟨-, text, -, htext, -⟩ := flatten_eq_limit_iff.mp hflatten
        rw [Tree.present, isFile_of_textAt htext] at hcase
        cases hcase
    | true =>
        dsimp only
        cases Stylesheet.flatten Places.memory.host before
            (Stylesheet.sheetPath directory mapping.sheet) with
        | ok text => simp
        | error failure => simp
  cases houtcome : Stylesheet.restyleSheet Places.memory.host before directory mapping with
  | ok rules => exact escapesIff_of_finishes (.inl ⟨rules, rfl⟩) (by rw [← hlimit, houtcome]; simp)
  | error failure =>
      have hfailure := houtcome
      simp only [Places.memory] at hfailure
      rcases Stylesheet.failure_of_restyleSheet hfailure with rfl | ⟨fault, -, rfl⟩
      · exact escapesIff_of_error (by simp) trivial (hlimit.mp houtcome)
      · exact escapesIff_of_finishes (.inr ⟨fault, rfl⟩) (by rw [← hlimit, houtcome]; simp)

theorem outcome_restyleOne (directory : Text) (mapping : Stylesheet.ClassMapping) :
    outcome before (restyleOne Places.memory.host directory mapping) =
      (Stylesheet.restyleSheet Places.memory.host before directory mapping).map List.length := by
  have hbefore : { before with output := before.output } = before := rfl
  rw [outcome, ← hbefore, restyleSheet_output directory mapping before.output]
  cases h : Stylesheet.restyleSheet Places.memory.host (blank before).storage directory mapping with
  | error failure =>
      rw [hbefore, exec_restyleOne_of_error h]
      rfl
  | ok rules =>
      rw [hbefore, exec_restyleOne_of_ok h]
      rfl

/-- Restyling escapes when a stylesheet that nests too deep is reached. -/
theorem stepEscapes_restyle (directory : Text) (mappings : List Stylesheet.ClassMapping) :
    StepEscapes before (restyle Places.memory.host directory mappings)
      (Reaches (fun mapping => ∃ rules,
          Stylesheet.restyleSheet Places.memory.host before directory mapping = .ok rules)
        (fun mapping => NestsTooDeep before (Stylesheet.sheetPath directory mapping.sheet))
        mappings) := by
  induction mappings with
  | nil => exact (settles_pure 0).stepEscapes reaches_nil
  | cons mapping rest ih =>
      have hsheet : StepEscapes before (restyleOne Places.memory.host directory mapping)
          (NestsTooDeep before (Stylesheet.sheetPath directory mapping.sheet)) := by
        have hplan : HasPlan before { addons := [] } ∅
            (restyleOne Places.memory.host directory mapping) := hasPlan_restyleOne directory mapping
        refine ⟨hplan.isFixed, ?_⟩
        rw [outcome_restyleOne]
        exact (escapesIff_restyleSheet directory mapping).map List.length
      refine (hsheet.bind fun rules => ih.thenPure (rules + ·)).congr ?_
      rw [reaches_cons, outcome_restyleOne, exists_and_right]
      refine or_congr_right (and_congr_left' ?_)
      cases Stylesheet.restyleSheet Places.memory.host before directory mapping with
      | error failure => simp [Except.map]
      | ok rules => simp [Except.map]

private theorem stepEscapes_bundleAddon (settings : Settings) (addon : Text) :
    StepEscapes before (bundleAddon Places.memory settings addon)
      (AddonEscapes before settings addon) := by
  have hstep : StepEscapes before
      (if before.source.isDir (addonsDir ++ '/' :: addon) then do
        let markers ← bundleFiles Places.memory settings (addonsDir ++ '/' :: addon)
          (before.source.walk (addonsDir ++ '/' :: addon))
        let _ ← restyle Places.memory.host Stylesheet.componentsDir (Stylesheet.groupMarkers markers)
      else Build.fault (.addonMissing (addonsDir ++ '/' :: addon) addon))
      (AddonEscapes before settings addon) := by
    split
    · rename_i hdir
      refine ((settles_bundleFiles settings (addonsDir ++ '/' :: addon)
        (before.source.walk (addonsDir ++ '/' :: addon))).bindEscapes fun markers =>
          (stepEscapes_restyle Stylesheet.componentsDir (Stylesheet.groupMarkers markers)).thenPure
            fun _ => ()).congr (and_iff_right hdir).symm
    · rename_i hdir
      exact (settles_fault _).stepEscapes fun h => hdir h.1
  exact StepEscapes.storage (fun _ => rfl) hstep

theorem stepEscapes_addonPhase (settings : Settings) (addon : Text) :
    StepEscapes before (addonPhase settings addon) (AddonEscapes before settings addon) := by
  have hbundle : StepEscapes before (bundleAddon Places.memory settings addon)
      (AddonEscapes before settings addon) := stepEscapes_bundleAddon settings addon
  have hphase : ∀ s, Settled before s → ∃ s', exec (addonPhase settings addon) s =
      ((outcome before (bundleAddon Places.memory settings addon)).mapError
        (Failure.inAddon addon), s') ∧ Settled before s' := by
    intro s hs
    have hstart : Settled before { s with trace := s.trace.startPhase ("Addon: ".toList ++ addon) [] } :=
      ⟨hs.source_eq, hs.host_eq, hs.libraries⟩
    have hsettled := hbundle.settled _ hstart
    rw [addonPhase, exec_bind_of_ok (exec_startPhase _ _), exec_always, exec_mapFailure,
      hbundle.exec_fst _ hstart]
    exact ⟨_, rfl, hsettled.source_eq, hsettled.host_eq, hsettled.libraries⟩
  obtain ⟨hfixed, houtcome⟩ := isFixed_of_exec _ hphase
  refine ⟨hfixed, ?_⟩
  rw [houtcome]
  exact hbundle.escapesIff.inAddon addon

theorem stepEscapes_bundleAddons (settings : Settings) :
    StepEscapes before (bundleAddons Places.memory settings settings.addons)
      (Reaches (fun addon => outcome before (addonPhase settings addon) = .ok ())
        (AddonEscapes before settings) settings.addons) := by
  rw [bundleAddons_eq]
  exact stepEscapes_inOrder fun addon _ => stepEscapes_addonPhase settings addon

/-! ## Catalogs -/

private theorem eq_ok_of_toOption {ε : Type} {result : Except ε α} {a : α}
    (h : result.toOption = some a) : result = .ok a := by
  cases result with
  | ok b => exact congrArg Except.ok (Option.some.inj h)
  | error e => cases h

theorem readJson_eq_ok_iff {path : Text} {invalid : Text → Fault} {value : Json.Value} :
    readJson Places.memory.source before path invalid = .ok value ↔
      catalogAt before.source (Path.key path) = some value := by
  refine ⟨readJson_ok, fun h => ?_⟩
  obtain ⟨text, htext, hvalue⟩ := Option.bind_eq_some_iff.mp h
  obtain ⟨bytes, hget, hdecode⟩ := Option.bind_eq_some_iff.mp htext
  simp only [readJson, Places.memory, View.readText_memory, hget, eq_ok_of_toOption hdecode,
    Except.mapError, eq_ok_of_toOption hvalue]

theorem escapesIff_readJson {path : Text} (invalid : Text → Fault)
    (hpresent : before.source.present path = true) :
    EscapesIff (readJson Places.memory.source before path invalid)
      (JsonEscapes before.source path) := by
  have htext : textAt before.source (Path.key path) =
      (before.source.get? (Path.key path)).bind fun bytes => (Utf8.decode bytes).toOption := rfl
  simp only [readJson, Places.memory, View.readText_memory]
  cases hget : before.source.get? (Path.key path) with
  | none =>
      have hfile : before.source.isFile path = false := by rw [Tree.isFile, hget]; rfl
      rw [Tree.present, hfile, Bool.false_or] at hpresent
      exact escapesIff_of_error (by simp) trivial (.directory hfile hpresent)
  | some bytes =>
      have hfile : before.source.isFile path = true := by rw [Tree.isFile, hget]; rfl
      rw [hget, Option.bind_some] at htext
      dsimp only
      cases hdecode : Utf8.decode bytes with
      | error e =>
          rw [hdecode] at htext
          refine escapesIff_of_finishes (.inr ⟨invalid e.message, rfl⟩) ?_
          rintro (⟨hnot, -⟩ | ⟨hsome, -⟩)
          · rw [hfile] at hnot
            cases hnot
          · rw [htext] at hsome
            cases hsome
      | ok text =>
          rw [hdecode] at htext
          have hnot : ∀ result, Json.read text = result → (∀ passed, result ≠ .error (.limit passed)) →
              ¬ JsonEscapes before.source path := by
            rintro result hresult hlimit (⟨hnot, -⟩ | ⟨hsome, hread⟩)
            · rw [hfile] at hnot
              cases hnot
            · rw [htext] at hsome
              cases hsome
              exact hlimit _ (hresult.symm.trans hread)
          dsimp only [Except.mapError]
          cases hread : Json.read text with
          | ok value => exact escapesIff_of_finishes (.inl ⟨value, rfl⟩) (hnot _ hread (by simp))
          | error e =>
              cases e with
              | malformed fault =>
                  exact escapesIff_of_finishes (.inr ⟨_, rfl⟩) (hnot _ hread (by simp))
              | limit passed =>
                  exact escapesIff_of_error (by simp) trivial (.limit htext hread)

/-- The bytes that are written for a text. -/
def writing (text : CodeText) : Except Failure Bytes :=
  (Utf8.encodeCode text).mapError .unencodable

theorem exists_writing_iff {text : CodeText} :
    (∃ bytes, writing text = .ok bytes) ↔ CodePoint.IsWhole text := by
  rw [← Utf8.exists_encodeCode_iff, writing]
  cases Utf8.encodeCode text <;> simp [Except.mapError]

theorem escapesIff_writing (text : CodeText) :
    EscapesIff (writing text) (¬ CodePoint.IsWhole text) := by
  rw [← exists_writing_iff]
  cases hwriting : writing text with
  | ok bytes => exact escapesIff_of_finishes (.inl ⟨bytes, rfl⟩) (by simp)
  | error failure =>
      unfold writing at hwriting
      cases hencode : Utf8.encodeCode text with
      | ok bytes =>
          rw [hencode] at hwriting
          cases hwriting
      | error e =>
          rw [hencode] at hwriting
          cases hwriting
          exact escapesIff_of_error (by simp) trivial (by simp)

private theorem present_of_textAt {tree : Tree} {path text : Text}
    (h : textAt tree (Path.key path) = some text) : tree.present path = true := by
  rw [Tree.present, isFile_of_textAt h, Bool.true_or]

private theorem present_of_catalogAt {tree : Tree} {path : Text} {catalog : Json.Value}
    (h : catalogAt tree (Path.key path) = some catalog) : tree.present path = true := by
  obtain ⟨text, htext, -⟩ := Option.bind_eq_some_iff.mp h
  exact present_of_textAt htext

theorem JsonEscapes.present {tree : Tree} {path : Text} (h : JsonEscapes tree path) :
    tree.present path = true := by
  cases h with
  | directory hfile hdir => rw [Tree.present, hdir, Bool.or_true]
  | limit htext hread => exact present_of_textAt htext

theorem CatalogEscapes.present {source : Tree} {path : Text} (h : CatalogEscapes source path) :
    source.present path = true := by
  cases h with
  | read h => exact h.present
  | write hcatalog hhalf => exact present_of_catalogAt hcatalog

theorem outcome_writeCatalog (language addon : Text) :
    IsFixed before (writeCatalog Places.memory language addon) ∧
      outcome before (writeCatalog Places.memory language addon) =
        if before.source.present (catalogPath language addon) then
          (readJson Places.memory.source before (catalogPath language addon)
            (Fault.catalogInvalid · (catalogPath language addon) addon)).bind
            fun catalog => (writing (Json.minimal catalog)).map fun _ => ()
        else .ok () := by
  apply isFixed_of_exec
  intro s hs
  have hpresent : exec (Build.ofExcept
      (Places.memory.source.present s.storage (catalogPath language addon))) s =
      (.ok (before.source.present (catalogPath language addon)), s) := by
    rw [exec_ofExcept, ← hs.source_eq]
    rfl
  have hread : ∀ invalid, readJson Places.memory.source s.storage (catalogPath language addon) invalid =
      readJson Places.memory.source before (catalogPath language addon) invalid := by
    intro invalid
    have hstorage : s.storage = { before with output := s.storage.output } := by
      rw [← hs.source_eq, ← hs.host_eq]
    rw [hstorage]
    rfl
  rw [writeCatalog, exec_bind_of_ok (exec_storage s), exec_bind_of_ok hpresent]
  split
  · rw [exec_bind, exec_ofExcept, hread]
    cases readJson Places.memory.source before (catalogPath language addon)
        (Fault.catalogInvalid · (catalogPath language addon) addon) with
    | error failure => exact ⟨s, rfl, hs⟩
    | ok catalog =>
        dsimp only [Except.bind]
        rw [exec_bind_of_ok (exec_modify _ _), exec_bind, exec_write]
        simp only [Places.memory, View.memory, writing]
        cases Utf8.encodeCode (Json.minimal catalog) with
        | ok bytes => exact ⟨_, rfl, hs.source_eq, hs.host_eq, hs.libraries⟩
        | error e => exact ⟨_, rfl, hs.source_eq, hs.host_eq, hs.libraries⟩
  · exact ⟨s, rfl, hs⟩

theorem stepEscapes_writeCatalog (language addon : Text) :
    StepEscapes before (writeCatalog Places.memory language addon)
      (CatalogEscapes before.source (catalogPath language addon)) := by
  refine ⟨(outcome_writeCatalog language addon).1, ?_⟩
  rw [(outcome_writeCatalog language addon).2]
  split
  · rename_i hpresent
    refine ((escapesIff_readJson _ hpresent).bind fun catalog _ =>
      (escapesIff_writing _).map fun _ => ()).congr ?_
    constructor
    · rintro (h | ⟨catalog, hcatalog, hhalf⟩)
      · exact .read h
      · rw [Json.isWhole_minimal] at hhalf
        exact .write (readJson_eq_ok_iff.mp hcatalog) hhalf
    · rintro (h | ⟨hcatalog, hhalf⟩)
      · exact .inl h
      · rw [← Json.isWhole_minimal] at hhalf
        exact .inr ⟨_, readJson_eq_ok_iff.mpr hcatalog, hhalf⟩
  · rename_i hpresent
    exact escapesIff_of_finishes (.inl ⟨(), rfl⟩) fun h => hpresent h.present

theorem outcome_writeCatalog_eq_ok_iff {language addon : Text} :
    outcome before (writeCatalog Places.memory language addon) = .ok () ↔
      CatalogPasses before.source (catalogPath language addon) := by
  have hwriting : ∀ catalog : Json.Value,
      (writing (Json.minimal catalog)).map (fun _ => ()) = .ok () ↔
        catalog.All Json.Value.HasCharacters := by
    intro catalog
    rw [← Json.isWhole_minimal, ← exists_writing_iff]
    cases writing (Json.minimal catalog) <;> simp [Except.map]
  rw [(outcome_writeCatalog language addon).2, CatalogPasses]
  split
  · rename_i hpresent
    rw [hpresent]
    constructor
    · intro h
      cases hread : readJson Places.memory.source before (catalogPath language addon)
          (Fault.catalogInvalid · (catalogPath language addon) addon) with
      | error failure =>
          rw [hread] at h
          cases h
      | ok catalog =>
          rw [hread] at h
          exact .inr ⟨catalog, readJson_eq_ok_iff.mp hread, (hwriting catalog).mp h⟩
    · rintro (hnot | ⟨catalog, hcatalog, hcharacters⟩)
      · cases hnot
      · rw [readJson_eq_ok_iff.mpr hcatalog]
        exact (hwriting catalog).mpr hcharacters
  · rename_i hpresent
    exact iff_of_true rfl (.inl (by simpa using hpresent))

section

variable (addons : List Text) (language : Text)

private theorem settles_newLanguage : Settles before
    (modify fun s => { s with catalogs := Assoc.putNew language [] s.catalogs } :
      Build Trees Unit) :=
  settles_of_keeps (fun s => exec_modify _ s) (fun _ => rfl) (fun _ => rfl) fun _ => rfl

theorem stepEscapes_languagePhase :
    StepEscapes before (languagePhase addons language)
      (LanguageEscapes before.source addons language) := by
  have hcatalogs : StepEscapes before (writeLanguage Places.memory language addons)
      (Reaches (fun addon => outcome before (writeCatalog Places.memory language addon) = .ok ())
        (fun addon => CatalogEscapes before.source (catalogPath language addon)) addons) := by
    rw [writeLanguage_eq]
    exact stepEscapes_inOrder fun addon _ => stepEscapes_writeCatalog language addon
  simp only [outcome_writeCatalog_eq_ok_iff] at hcatalogs
  refine ((settles_newLanguage language).bindEscapes fun _ => hcatalogs).congr ?_
  exact ⟨fun ⟨_, _, h⟩ => h, fun h => ⟨(), rfl, h⟩⟩

theorem outcome_languagePhase_eq_ok_iff :
    outcome before (languagePhase addons language) = .ok () ↔
      LanguagePasses before.source addons language := by
  have hfixed : ∀ step ∈ addons.map (writeCatalog Places.memory language), IsFixed before step :=
    List.forall_mem_map.mpr fun addon _ => (stepEscapes_writeCatalog language addon).toIsFixed
  have hopen : outcome before (modify fun s =>
      { s with catalogs := Assoc.putNew language [] s.catalogs } : Build Trees Unit) = .ok () := rfl
  rw [languagePhase, writeLanguage_eq, outcome_bind (settles_newLanguage language).toIsFixed
    fun _ _ => isFixed_inOrder hfixed, hopen, Except.bind, outcome_inOrder_ok_iff hfixed,
    List.forall_mem_map]
  exact forall₂_congr fun addon _ => outcome_writeCatalog_eq_ok_iff

end

theorem stepEscapes_writeCatalogs (addons : List Text) :
    StepEscapes before (writeCatalogs Places.memory addons)
      (Reaches (LanguagePasses before.source addons) (LanguageEscapes before.source addons)
        (treeLanguages before.source)) := by
  have hlanguages : StepEscapes before
      (writeLanguages Places.memory addons (treeLanguages before.source))
      (Reaches (fun language => outcome before (languagePhase addons language) = .ok ())
        (LanguageEscapes before.source addons) (treeLanguages before.source)) := by
    rw [writeLanguages_eq]
    exact stepEscapes_inOrder fun language _ => stepEscapes_languagePhase addons language
  simp only [outcome_languagePhase_eq_ok_iff] at hlanguages
  apply StepEscapes.storage
  · intro output
    rw [languages_memory, languages_memory]
    rfl
  · rw [languages_memory]
    exact hlanguages.thenPure fun _ => treeLanguages before.source

/-- What is given when the closing message is shown. -/
def shown (settings : Settings) (report : Report) : Except Failure Report :=
  (closing settings report).fault?.elim (.ok report) fun fault => .error (.unshowable fault)

/-- Whether an outcome is a result or a fault. -/
def finishes : Except Failure α → Bool
  | .ok _ | .error (.fault _) => true
  | .error _ => false

theorem finishes_iff {result : Except Failure α} : finishes result = true ↔ Finishes result := by
  constructor
  · intro h
    unfold finishes at h
    split at h
    · exact .inl ⟨_, rfl⟩
    · exact .inr ⟨_, rfl⟩
    · cases h
  · rintro (⟨a, rfl⟩ | ⟨fault, rfl⟩) <;> rfl

instance (result : Except Failure α) : Decidable (Finishes result) :=
  decidable_of_iff _ finishes_iff

end AddonBundle.Bundle
