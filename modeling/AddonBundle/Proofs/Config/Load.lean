import AddonBundle.Config.Load
import AddonBundle.Proofs.Assoc
import AddonBundle.Proofs.Config.Allowlist
import Mathlib.Data.List.Infix
import Mathlib.Data.List.Permutation
/-!
# Layers of a configuration

A field has the value that an override gives it, else the one that the nearest project document
gives it, else its default. No layer reaches past the ones before it, but for one case: a file of
addons given as an override takes the addons listed in the document out.
-/

namespace AddonBundle.Config

open Text

/-! ## The nearest document -/

/-- The table of this program in a document; a document that has none counts as one with an empty
table. -/
inductive OwnTable (document : Toml.Table) : Toml.Table → Prop
  | table {tools own : Toml.Table}
    (htools : Assoc.get? "tool".toList document = some (.table tools))
    (hown : Assoc.get? "addon_porter".toList tools = some (.table own)) : OwnTable document own
  | noTable {tools : Toml.Table}
    (htools : Assoc.get? "tool".toList document = some (.table tools))
    (hown : Assoc.get? "addon_porter".toList tools = none) : OwnTable document []
  | noTools (htools : Assoc.get? "tool".toList document = none) : OwnTable document []

/-- Of the directories from a place upwards, a directory is the nearest one with a document, and
the document has a table. Where there is no document at all the table is empty. -/
inductive Nearest (disk : Disk) (start dir : List Text) : Toml.Table → Prop
  | document {bytes : Bytes} {text : Text} {document own : Toml.Table} (habove : dir <+: start)
    (hnearer : ∀ nearer, nearer <+: start → dir.length < nearer.length →
      disk.isFile [] (documentIn nearer) = .ok false)
    (hbytes : disk.readBytes [] (documentIn dir) = .ok bytes)
    (hdecode : Utf8.decode bytes = .ok text) (hread : Toml.read text = .ok document)
    (hown : OwnTable document own) : Nearest disk start dir own
  | none (hnone : ∀ above, above <+: start → disk.isFile [] (documentIn above) = .ok false) :
    Nearest disk start dir []

theorem isFile_of_readBytes {disk : Disk} {cwd : List Text} {l : Location} {bytes : Bytes}
    (h : disk.readBytes cwd l = .ok bytes) : disk.isFile cwd l = .ok true := by
  unfold Disk.readBytes at h
  split at h
  · rename_i place content hlookup
    rw [Disk.isFile, Disk.find?, hlookup]
    rfl
  · cases h
  · cases h

theorem mem_upwards {parts dir : List Text} : dir ∈ upwards parts ↔ dir <+: parts := by
  rw [upwards, List.mem_map]
  constructor
  · rintro ⟨n, -, rfl⟩
    exact List.take_prefix _ _
  · intro h
    have hle := h.length_le
    refine ⟨parts.length - dir.length, List.mem_range.mpr (by omega), ?_⟩
    rw [Nat.sub_sub_self hle]
    exact (List.prefix_iff_eq_take.mp h).symm

/-- The longest directories come first. -/
theorem pairwise_upwards (parts : List Text) :
    (upwards parts).Pairwise fun near far => far.length < near.length := by
  rw [upwards, List.pairwise_map]
  refine List.pairwise_lt_range.imp_of_mem fun {n m} _ hm hlt => ?_
  rw [List.mem_range] at hm
  rw [List.length_take, List.length_take]
  omega

theorem documentDir_eq_some {disk : Disk} {dir : List Text} {dirs : List (List Text)}
    (hsorted : dirs.Pairwise fun near far => far.length < near.length) (hmem : dir ∈ dirs)
    (hnearer : ∀ nearer ∈ dirs, dir.length < nearer.length →
      disk.isFile [] (documentIn nearer) = .ok false)
    (hdir : disk.isFile [] (documentIn dir) = .ok true) :
    documentDir disk dirs = .ok (some dir) := by
  induction dirs with
  | nil => cases hmem
  | cons first rest ih =>
      obtain ⟨hfirst, hrest⟩ := List.pairwise_cons.mp hsorted
      rw [documentDir]
      obtain rfl | hmem := List.mem_cons.mp hmem
      · rw [hdir]
        rfl
      · rw [hnearer first List.mem_cons_self (hfirst dir hmem)]
        exact ih hrest hmem fun nearer hnear => hnearer nearer (List.mem_cons_of_mem _ hnear)

theorem documentDir_eq_none {disk : Disk} {dirs : List (List Text)}
    (h : ∀ dir ∈ dirs, disk.isFile [] (documentIn dir) = .ok false) :
    documentDir disk dirs = .ok none := by
  induction dirs with
  | nil => rfl
  | cons first rest ih =>
      obtain ⟨hfirst, hrest⟩ := List.forall_mem_cons.mp h
      rw [documentDir, hfirst]
      exact ih hrest

theorem OwnTable.eq_ok {document own : Toml.Table} (h : OwnTable document own) :
    ownTable document = .ok own := by
  cases h with
  | table htools hown => simp only [ownTable, htools, hown]
  | noTable htools hown => simp only [ownTable, htools, hown]
  | noTools htools => simp only [ownTable, htools]

/-- The settings come from the nearest document, without a warning. -/
theorem Nearest.settings_eq {disk : Disk} {cwd dir : List Text} {search : Location}
    {own : Toml.Table} {settings : Settings} (h : Nearest disk (search.resolve cwd).parts dir own)
    (hsearch : '\x00' ∉ search.text) (hsettings : documentSettings dir own = .ok settings) :
    nearestSettings cwd disk search = ([], .ok settings) := by
  rw [nearestSettings, if_neg (by simpa using hsearch)]
  cases h with
  | document habove hnearer hbytes hdecode hread hown =>
      have hdir := documentDir_eq_some (pairwise_upwards _) (mem_upwards.mpr habove)
        (fun nearer hnear => hnearer nearer (mem_upwards.mp hnear)) (isFile_of_readBytes hbytes)
      simp only [hdir, settingsIn, hbytes, hdecode, hread, hown.eq_ok]
      exact congrArg _ hsettings
  | none hnone =>
      have hdir := documentDir_eq_none fun dir hdir => hnone dir (mem_upwards.mp hdir)
      cases hsettings
      rw [hdir]

/-! ## The values in a table -/

/-- An entry that is a path. A relative one is seen from the directory of the document and has no
null character, which no path can have. -/
inductive ReadsLocation (dir : List Text) : Toml.Value → Location → Prop
  | absolute {s : Text} (h : (Location.ofText s).isAbsolute = true) :
    ReadsLocation dir (.string s) (Location.ofText s)
  | relative {s : Text} (h : (Location.ofText s).isAbsolute = false) (hnull : '\x00' ∉ s) :
    ReadsLocation dir (.string s) ((Location.ofText s).resolve dir)

/-- An entry that is a text. -/
inductive ReadsText : Toml.Value → Text → Prop
  | string (s : Text) : ReadsText (.string s) s

/-- An entry that is read as yes or no. -/
def ReadsBool (value : Toml.Value) (b : Bool) : Prop :=
  checkBool (.ofToml value) = .ok b

/-- An entry that lists addons, none of them blank. -/
inductive ReadsAddons : Toml.Value → List Text → Prop
  | array {names : List Text} (h : ∀ name ∈ names, trim name ≠ []) :
    ReadsAddons (.array (names.map .string)) (distinct (names.map trim))

/-- An entry that lists extensions. -/
inductive ReadsExtensions : Toml.Value → List Text → Prop
  | array (names : List Text) :
    ReadsExtensions (.array (names.map .string)) (names.filterMap cleanExtension)

/-- The entry of each field is of its type. An entry that no field has may be anything. -/
structure IsTyped (dir : List Text) (own : Toml.Table) : Prop where
  location : ∀ name ∈ pathFields, ∀ value, (name, value) ∈ own → ∃ l, ReadsLocation dir value l
  addons : ∀ value, ("addons".toList, value) ∈ own → ∃ addons, ReadsAddons value addons
  extensions : ∀ value, ("asset_extensions".toList, value) ∈ own →
    ∃ extensions, ReadsExtensions value extensions
  header : ∀ value, ("license_header".toList, value) ∈ own → ∃ header, ReadsText value header
  clean : ∀ value, ("clean_output".toList, value) ∈ own → ∃ clean, ReadsBool value clean
  cloneUrl : ∀ value, ("upstream_url".toList, value) ∈ own → ∃ url, ReadsText value url
  cloneBranch : ∀ value, ("upstream_branch".toList, value) ∈ own → ∃ branch, ReadsText value branch

theorem documentSetting_of_not_path {dir : List Text} {name : Text} (h : name ∉ pathFields)
    (value : Toml.Value) : documentSetting dir name value = .ok (.ofToml value) := by
  unfold documentSetting
  rw [if_neg (by simpa using h)]

theorem ReadsLocation.setting_eq {dir : List Text} {name : Text} {value : Toml.Value} {l : Location}
    (h : ReadsLocation dir value l) (hname : name ∈ pathFields) :
    documentSetting dir name value = .ok (.location l) := by
  unfold documentSetting
  rw [if_pos (by simpa using hname)]
  cases h with
  | absolute habsolute => simp [habsolute]
  | relative hrelative hnull => simp [hrelative, hnull]

/-- The settings are those of a table, entry by entry. -/
def AreSettingsOf (dir : List Text) (own : Toml.Table) (settings : Settings) : Prop :=
  ∀ name, Option.Rel (fun entry setting => documentSetting dir name entry = .ok setting)
    (Assoc.get? name own) (Assoc.get? name settings)

/-- Entries that give settings one by one give them together. -/
theorem exists_documentSettings {dir : List Text} {own : Toml.Table}
    (h : ∀ entry ∈ own, ∃ setting, documentSetting dir entry.1 entry.2 = .ok setting) :
    ∃ settings, documentSettings dir own = .ok settings ∧ AreSettingsOf dir own settings := by
  induction own with
  | nil => exact ⟨[], rfl, fun _ => .none⟩
  | cons entry own ih =>
      obtain ⟨key, value⟩ := entry
      obtain ⟨⟨setting, hsetting⟩, hrest⟩ := List.forall_mem_cons.mp h
      obtain ⟨settings, hsettings, hget⟩ := ih hrest
      refine ⟨(key, setting) :: settings, ?_, fun name => ?_⟩
      · rw [documentSettings, hsetting, hsettings]
        rfl
      · by_cases hkey : key = name
        · subst hkey
          simpa [Assoc.get?] using Option.Rel.some hsetting
        · simpa [Assoc.get?, hkey] using hget name

theorem IsTyped.exists_settings {dir : List Text} {own : Toml.Table} (h : IsTyped dir own) :
    ∃ settings, documentSettings dir own = .ok settings ∧ AreSettingsOf dir own settings := by
  refine exists_documentSettings fun entry hentry => ?_
  by_cases hname : entry.1 ∈ pathFields
  · obtain ⟨l, hl⟩ := h.location entry.1 hname entry.2 hentry
    exact ⟨_, hl.setting_eq hname⟩
  · exact ⟨_, documentSetting_of_not_path hname entry.2⟩

/-! ## Overrides -/

/-- When each step puts what is given, the settings given take the places of the others. -/
theorem get?_foldl_put {step : Settings → Text × Option Setting → Settings}
    (hsome : ∀ settings key setting, step settings (key, some setting) =
      Assoc.put key setting settings)
    (hnone : ∀ settings key, step settings (key, none) = settings)
    {entries : List (Text × Option Setting)} (h : (entries.map (·.1)).Nodup)
    (settings : Settings) (name : Text) :
    Assoc.get? name (entries.foldl step settings) =
      (Assoc.get? name entries).join.or (Assoc.get? name settings) := by
  induction entries generalizing settings with
  | nil => rfl
  | cons entry entries ih =>
      obtain ⟨key, given⟩ := entry
      rw [List.map_cons, List.nodup_cons] at h
      rw [List.foldl_cons, ih h.2]
      by_cases hkey : key = name
      · subst hkey
        have hlast : Assoc.get? key entries = none :=
          Option.not_isSome_iff_eq_none.mp (mt (Assoc.isSome_get? key entries).mp h.1)
        cases given <;> simp [Assoc.get?, hlast, hsome, hnone, Assoc.get?_put]
      · cases given <;> simp [Assoc.get?, hkey, hsome, hnone, Assoc.get?_put, Ne.symm hkey]

/-- An override stands for the setting of its field, and a file of addons for that of the addons. -/
theorem get?_override (o : Overrides) (settings : Settings) (name : Text) :
    Assoc.get? name (override o settings) =
      if o.addonsFile.isSome ∧ name = "addons".toList then none
      else (Assoc.get? name o.settings).join.or (Assoc.get? name settings) := by
  have hkeys : (o.settings.map (·.1)).Nodup := by
    rw [Overrides.settings]
    simp only [List.map_cons, List.map_nil]
    decide
  have hfilter : ∀ pairs : Settings,
      Assoc.get? name (pairs.filter fun entry => entry.1 ≠ "addons".toList) =
        if name ≠ "addons".toList then Assoc.get? name pairs else none := by
    intro pairs
    rw [Assoc.get?_filter (fun key => decide (key ≠ "addons".toList)) name pairs]
    simp only [decide_eq_true_eq]
  rw [override]
  split
  · rename_i hfile
    rw [hfilter, get?_foldl_put (fun _ _ _ => rfl) (fun _ _ => rfl) hkeys]
    by_cases hname : name = "addons".toList
    · rw [if_neg (not_not.mpr hname), if_pos ⟨hfile, hname⟩]
    · rw [if_pos hname, if_neg fun h => hname h.2]
  · rename_i hfile
    rw [get?_foldl_put (fun _ _ _ => rfl) (fun _ _ => rfl) hkeys, if_neg fun h => hfile h.1]

/-! ## Layers -/

/-- A field has the value of an override, else what the entry in the table reads as, else the
default. -/
inductive Chosen {α : Type} (Reads : Toml.Value → α → Prop) (default : α) :
    Option α → Option Toml.Value → α → Prop
  | override (value : α) (entry : Option Toml.Value) :
    Chosen Reads default (some value) entry value
  | table {entry : Toml.Value} {value : α} (h : Reads entry value) :
    Chosen Reads default none (some entry) value
  | default : Chosen Reads default none none default

/-- A value that may also be left out. -/
def ReadsSome {α : Type} (Reads : Toml.Value → α → Prop) (entry : Toml.Value) (value : Option α) :
    Prop :=
  ∃ a, value = some a ∧ Reads entry a

/-- Each field of a configuration has the value of its first layer: overrides, the table of the
document in a directory, defaults. A file of addons given as an override stands for an empty list
of addons too. -/
structure Layers (dir : List Text) (own : Toml.Table) (o : Overrides) (config : Config) : Prop where
  source : Chosen (ReadsLocation dir) ({} : Config).source o.source
    (Assoc.get? "source_root".toList own) config.source
  output : Chosen (ReadsLocation dir) ({} : Config).output o.output
    (Assoc.get? "output_root".toList own) config.output
  host : Chosen (ReadsLocation dir) ({} : Config).host o.host
    (Assoc.get? "host_root".toList own) config.host
  addons : Chosen ReadsAddons ({} : Config).addons (o.addonsFile.map fun _ => [])
    (Assoc.get? "addons".toList own) config.addons
  addonsFile : Chosen (ReadsSome (ReadsLocation dir)) ({} : Config).addonsFile
    (o.addonsFile.map some) (Assoc.get? "addons_file".toList own) config.addonsFile
  extensions : Chosen ReadsExtensions ({} : Config).extensions none
    (Assoc.get? "asset_extensions".toList own) config.extensions
  header : Chosen ReadsText ({} : Config).header none
    (Assoc.get? "license_header".toList own) config.header
  clean : Chosen ReadsBool ({} : Config).clean o.clean
    (Assoc.get? "clean_output".toList own) config.clean
  cloneUrl : Chosen (ReadsSome ReadsText) ({} : Config).cloneUrl (o.cloneUrl.map some)
    (Assoc.get? "upstream_url".toList own) config.cloneUrl
  cloneBranch : Chosen (ReadsSome ReadsText) ({} : Config).cloneBranch (o.cloneBranch.map some)
    (Assoc.get? "upstream_branch".toList own) config.cloneBranch

/-- The value of a field from its layers, when the check of the field takes each of them. -/
theorem exists_chosen {α : Type} {Reads : Toml.Value → α → Prop} {dir : List Text}
    {own : Toml.Table} {settings final : Settings} {name : Text} {given : Option Setting}
    {value? : Option α} {check : Setting → Checked α} (default : α)
    (hfinal : Assoc.get? name final = given.or (Assoc.get? name settings))
    (hgiven : Option.Rel (fun setting value => check setting = .ok value) given value?)
    (hsettings : Option.Rel (fun entry setting => documentSetting dir name entry = .ok setting)
      (Assoc.get? name own) (Assoc.get? name settings))
    (hreads : ∀ entry setting, (name, entry) ∈ own → documentSetting dir name entry = .ok setting →
      ∃ value, Reads entry value ∧ check setting = .ok value) :
    ∃ value, Chosen Reads default value? (Assoc.get? name own) value ∧
      field final name default check = .ok value := by
  cases hgiven with
  | some hcheck =>
      exact ⟨_, .override _ _, (field_of_some hfinal default).mpr hcheck⟩
  | none =>
      rw [Option.none_or] at hfinal
      cases hown : Assoc.get? name own with
      | none =>
          rw [hown] at hsettings
          generalize hget : Assoc.get? name settings = setting? at hsettings hfinal
          cases hsettings
          exact ⟨default, .default, field_of_none hfinal default check⟩
      | some entry =>
          rw [hown] at hsettings
          generalize hget : Assoc.get? name settings = setting? at hsettings hfinal
          cases hsettings with
          | some hsetting =>
              obtain ⟨value, hvalue, hcheck⟩ := hreads entry _ (Assoc.mem_of_get? hown) hsetting
              exact ⟨value, .table hvalue, (field_of_some hfinal default).mpr hcheck⟩

/-! ## Checks of the layers -/

/-- An override passes the check of its field. -/
theorem rel_given {α β : Type} (check : Setting → Checked β) (toSetting : α → Setting) {f : α → β}
    (h : ∀ a, check (toSetting a) = .ok (f a)) (given : Option α) :
    Option.Rel (fun setting value => check setting = .ok value) (given.map toSetting)
      (given.map f) := by
  cases given with
  | none => exact .none
  | some a => exact .some (h a)

theorem rel_given_self {α : Type} (check : Setting → Checked α) (toSetting : α → Setting)
    (h : ∀ a, check (toSetting a) = .ok a) (given : Option α) :
    Option.Rel (fun setting value => check setting = .ok value) (given.map toSetting) given := by
  have hrel := rel_given check toSetting h given
  rwa [Option.map_id'] at hrel

theorem get?_override_of_ne {o : Overrides} {settings : Settings} {name : Text}
    {given : Option Setting} (hname : name ≠ "addons".toList)
    (hgiven : (Assoc.get? name o.settings).join = given) :
    Assoc.get? name (override o settings) = given.or (Assoc.get? name settings) := by
  rw [get?_override, if_neg fun h => hname h.2, hgiven]

theorem ne_addons_of_mem {name : Text} (h : name ∈ pathFields) : name ≠ "addons".toList := by
  rintro rfl
  exact absurd h (by decide)

theorem settingsOfToml_strings (names : List Text) :
    settingsOfToml (names.map .string) = names.map .text := by
  induction names with
  | nil => rfl
  | cons name names ih => rw [List.map_cons, settingsOfToml, ih]; rfl

section

variable {dir : List Text} {own : Toml.Table} {name : Text} {entry : Toml.Value} {setting : Setting}

theorem IsTyped.reads_location (h : IsTyped dir own) (hname : name ∈ pathFields)
    (hentry : (name, entry) ∈ own) (hsetting : documentSetting dir name entry = .ok setting) :
    ∃ l, ReadsLocation dir entry l ∧ setting = .location l := by
  obtain ⟨l, hl⟩ := h.location name hname entry hentry
  exact ⟨l, hl, Except.ok.inj (hsetting.symm.trans (hl.setting_eq hname))⟩

theorem setting_eq_ofToml (hname : name ∉ pathFields)
    (hsetting : documentSetting dir name entry = .ok setting) : setting = .ofToml entry :=
  Except.ok.inj (hsetting.symm.trans (documentSetting_of_not_path hname entry))

theorem ReadsText.check_eq {s : Text} (h : ReadsText entry s) :
    checkText (.ofToml entry) = .ok s := by
  cases h
  rfl

theorem ReadsSome.check_eq {s : Option Text} (h : ReadsSome ReadsText entry s) :
    checkOptional checkText (.ofToml entry) = .ok s := by
  obtain ⟨s, rfl, ⟨⟩⟩ := h
  rfl

theorem ReadsAddons.check_eq {addons : List Text} (h : ReadsAddons entry addons) :
    (checkList (.ofToml entry) >>= cleanAddons) = .ok addons := by
  obtain ⟨hblank⟩ := h
  rename_i names
  refine addons_eq_ok_iff.mpr ⟨names, ?_, hblank, rfl⟩
  rw [Setting.ofToml, settingsOfToml_strings]

theorem ReadsExtensions.check_eq {extensions : List Text} (h : ReadsExtensions entry extensions) :
    (fun texts => texts.filterMap cleanExtension) <$> checkList (.ofToml entry) =
      .ok extensions := by
  obtain ⟨names⟩ := h
  have hlist : checkList (.ofToml (.array (names.map .string))) = .ok names := by
    rw [checkList_eq_ok_iff, Setting.ofToml, settingsOfToml_strings]
  rw [hlist]
  rfl

end

section

variable {dir : List Text} {own : Toml.Table} {settings final : Settings} {name : Text} {α : Type}
  {Reads : Toml.Value → α → Prop} {given : Option Setting} {value? : Option α}

/-- A field that is no path. -/
theorem exists_plain (check : Setting → Checked α) (hsettings : AreSettingsOf dir own settings)
    (htyped : ∀ entry, (name, entry) ∈ own → ∃ value, Reads entry value)
    (hreads : ∀ entry value, Reads entry value → check (.ofToml entry) = .ok value)
    (hname : name ∉ pathFields)
    (hgiven : Option.Rel (fun setting value => check setting = .ok value) given value?)
    (hfinal : Assoc.get? name final = given.or (Assoc.get? name settings)) (default : α) :
    ∃ value, Chosen Reads default value? (Assoc.get? name own) value ∧
      field final name default check = .ok value := by
  refine exists_chosen default hfinal hgiven (hsettings name)
    fun entry setting hentry hsetting => ?_
  obtain ⟨value, hvalue⟩ := htyped entry hentry
  rw [setting_eq_ofToml hname hsetting]
  exact ⟨value, hvalue, hreads entry value hvalue⟩

theorem exists_location (htyped : IsTyped dir own) (hsettings : AreSettingsOf dir own settings)
    (o : Overrides) (name : Text) (given : Option Location) (hname : name ∈ pathFields)
    (hgiven : (Assoc.get? name o.settings).join = given.map .location) (default : Location) :
    ∃ l, Chosen (ReadsLocation dir) default given (Assoc.get? name own) l ∧
      field (override o settings) name default checkLocation = .ok l := by
  refine exists_chosen default (get?_override_of_ne (ne_addons_of_mem hname) hgiven)
    (rel_given_self checkLocation .location (fun _ => rfl) given) (hsettings name)
    fun entry setting hentry hsetting => ?_
  obtain ⟨l, hl, rfl⟩ := htyped.reads_location hname hentry hsetting
  exact ⟨l, hl, rfl⟩

theorem exists_addonsFile (htyped : IsTyped dir own) (hsettings : AreSettingsOf dir own settings)
    (o : Overrides) (default : Option Location) :
    ∃ file, Chosen (ReadsSome (ReadsLocation dir)) default (o.addonsFile.map some)
        (Assoc.get? "addons_file".toList own) file ∧
      field (override o settings) "addons_file".toList default (checkOptional checkLocation) =
        .ok file := by
  have hname : "addons_file".toList ∈ pathFields := by decide
  refine exists_chosen default (get?_override_of_ne (ne_addons_of_mem hname) rfl)
    (rel_given (checkOptional checkLocation) .location (fun _ => rfl) o.addonsFile) (hsettings _)
    fun entry setting hentry hsetting => ?_
  obtain ⟨l, hl, rfl⟩ := htyped.reads_location hname hentry hsetting
  exact ⟨some l, ⟨l, rfl, hl⟩, rfl⟩

/-- A text that may be left out. -/
theorem exists_text (hsettings : AreSettingsOf dir own settings) (o : Overrides) (name : Text)
    (given : Option Text) (htyped : ∀ entry, (name, entry) ∈ own → ∃ s, ReadsText entry s)
    (hname : name ∉ pathFields) (hne : name ≠ "addons".toList)
    (hgiven : (Assoc.get? name o.settings).join = given.map .text) (default : Option Text) :
    ∃ s, Chosen (ReadsSome ReadsText) default (given.map some) (Assoc.get? name own) s ∧
      field (override o settings) name default (checkOptional checkText) = .ok s := by
  have hsome : ∀ entry, (name, entry) ∈ own → ∃ s, ReadsSome ReadsText entry s := by
    intro entry hentry
    obtain ⟨s, hs⟩ := htyped entry hentry
    exact ⟨some s, s, rfl, hs⟩
  exact exists_plain (checkOptional checkText) hsettings hsome (fun _ _ h => h.check_eq) hname
    (rel_given (checkOptional checkText) .text (fun _ => rfl) given)
    (get?_override_of_ne hne hgiven) default

/-- The addons; a file of addons given as an override stands for none. -/
theorem exists_addons (htyped : IsTyped dir own) (hsettings : AreSettingsOf dir own settings)
    (o : Overrides) :
    ∃ addons, Chosen ReadsAddons [] (o.addonsFile.map fun _ => [])
        (Assoc.get? "addons".toList own) addons ∧
      (field (override o settings) "addons".toList [] fun s => checkList s >>= cleanAddons) =
        .ok addons := by
  have hget := get?_override o settings "addons".toList
  cases hgiven : o.addonsFile with
  | some l =>
      rw [if_pos ⟨by rw [hgiven]; rfl, rfl⟩] at hget
      exact ⟨[], .override [] _, field_of_none hget _ _⟩
  | none =>
      rw [if_neg (by simp [hgiven])] at hget
      exact exists_plain (fun s => checkList s >>= cleanAddons) hsettings htyped.addons
        (fun _ _ h => h.check_eq) (by decide) .none hget []

/-- A typed table and overrides give a configuration with the values of their layers. -/
theorem exists_layers (htyped : IsTyped dir own) (hsettings : AreSettingsOf dir own settings)
    (o : Overrides) :
    ∃ config, ofSettings (override o settings) = .ok config ∧ Layers dir own o config := by
  have hlocation := exists_location htyped hsettings o
  have htext := exists_text hsettings o
  have hget : ∀ {name given}, name ≠ "addons".toList →
      (Assoc.get? name o.settings).join = given →
      Assoc.get? name (override o settings) = given.or (Assoc.get? name settings) :=
    get?_override_of_ne
  obtain ⟨source, hsource, hsourceField⟩ :=
    hlocation "source_root".toList o.source (by decide) rfl ({} : Config).source
  obtain ⟨output, houtput, houtputField⟩ :=
    hlocation "output_root".toList o.output (by decide) rfl ({} : Config).output
  obtain ⟨host, hhost, hhostField⟩ :=
    hlocation "host_root".toList o.host (by decide) rfl ({} : Config).host
  obtain ⟨addons, haddons, haddonsField⟩ := exists_addons htyped hsettings o
  obtain ⟨file, hfile, hfileField⟩ := exists_addonsFile htyped hsettings o none
  obtain ⟨extensions, hextensions, hextensionsField⟩ := exists_plain
    (fun s => (fun texts => texts.filterMap cleanExtension) <$> checkList s) hsettings
    htyped.extensions (fun _ _ h => h.check_eq) (by decide) .none (hget (by decide) rfl)
    ({} : Config).extensions
  obtain ⟨header, hheader, hheaderField⟩ := exists_plain checkText hsettings htyped.header
    (fun _ _ h => h.check_eq) (by decide) .none (hget (by decide) rfl) ({} : Config).header
  obtain ⟨clean, hclean, hcleanField⟩ := exists_plain checkBool hsettings htyped.clean
    (fun _ _ h => h) (by decide) (rel_given_self checkBool .bool (fun _ => rfl) o.clean)
    (hget (by decide) rfl) ({} : Config).clean
  obtain ⟨url, hurl, hurlField⟩ :=
    htext "upstream_url".toList o.cloneUrl htyped.cloneUrl (by decide) (by decide) rfl none
  obtain ⟨branch, hbranch, hbranchField⟩ :=
    htext "upstream_branch".toList o.cloneBranch htyped.cloneBranch (by decide) (by decide) rfl none
  refine ⟨⟨source, output, host, addons, file, extensions, header, clean, url, branch⟩,
    ofSettings_eq_ok_iff.mpr ?_, ?_⟩
  · exact ⟨hsourceField, houtputField, hhostField, haddonsField, hfileField, hextensionsField,
      hheaderField, hcleanField, hurlField, hbranchField⟩
  · exact ⟨hsource, houtput, hhost, haddons, hfile, hextensions, hheader, hclean, hurl, hbranch⟩

end

/-! ## Loading -/

/-- Where the addons come from: the file given as an override, else the addons in the table if
there are any, else the file named in the table. -/
inductive AddonsFrom (cwd : List Text) (disk : Disk) (dir : List Text) (own : Toml.Table)
    (o : Overrides) : Except Failure (List CodeText) → Prop
  | override {l : Location} (hgiven : o.addonsFile = some l) :
    AddonsFrom cwd disk dir own o (readAllowlist cwd disk l)
  | listed {entry : Toml.Value} {addons : List Text} (hgiven : o.addonsFile = none)
    (hentry : Assoc.get? "addons".toList own = some entry) (hreads : ReadsAddons entry addons)
    (hne : addons ≠ []) : AddonsFrom cwd disk dir own o (.ok (addons.map CodePoint.ofText))
  | file {entry : Toml.Value} {l : Location} (hgiven : o.addonsFile = none)
    (hempty : ∀ entry, Assoc.get? "addons".toList own = some entry → ReadsAddons entry [])
    (hentry : Assoc.get? "addons_file".toList own = some entry)
    (hreads : ReadsLocation dir entry l) : AddonsFrom cwd disk dir own o (readAllowlist cwd disk l)
  | unset (hgiven : o.addonsFile = none)
    (hempty : ∀ entry, Assoc.get? "addons".toList own = some entry → ReadsAddons entry [])
    (hentry : Assoc.get? "addons_file".toList own = none) :
    AddonsFrom cwd disk dir own o (.error (.fault .allowlistUnset))

theorem resolveAddons_of_nil {config : Config} (h : config.addons = []) (cwd : List Text)
    (disk : Disk) :
    resolveAddons cwd disk config =
      match config.addonsFile with
      | some l => readAllowlist cwd disk l
      | none => .error (.fault .allowlistUnset) := by
  rw [resolveAddons, h]
  rfl

theorem Layers.addonsFrom {dir : List Text} {own : Toml.Table} {o : Overrides} {config : Config}
    (h : Layers dir own o config) (cwd : List Text) (disk : Disk) :
    AddonsFrom cwd disk dir own o (resolveAddons cwd disk config) := by
  have haddons := h.addons
  have hfile := h.addonsFile
  cases hgiven : o.addonsFile with
  | some l =>
      rw [hgiven] at haddons hfile
      generalize haddonsEq : config.addons = addons at haddons
      generalize hfileEq : config.addonsFile = file at hfile
      cases haddons
      cases hfile
      rw [resolveAddons_of_nil haddonsEq, hfileEq]
      exact .override hgiven
  | none =>
      rw [hgiven] at haddons hfile
      by_cases hnil : config.addons = []
      · have hempty : ∀ entry, Assoc.get? "addons".toList own = some entry →
            ReadsAddons entry [] := by
          intro entry hentry
          rw [hentry, hnil] at haddons
          cases haddons with
          | table hreads => exact hreads
        rw [resolveAddons_of_nil hnil]
        generalize config.addonsFile = file at hfile
        generalize hentry : Assoc.get? "addons_file".toList own = entry at hfile
        cases hfile with
        | table hreads =>
            obtain ⟨l, rfl, hreads⟩ := hreads
            exact .file hgiven hempty hentry hreads
        | default => exact .unset hgiven hempty hentry
      · rw [resolveAddons_of_ne_nil hnil]
        generalize config.addons = addons at haddons hnil
        generalize hentry : Assoc.get? "addons".toList own = entry at haddons
        cases haddons with
        | table hreads => exact .listed hgiven hentry hreads hnil
        | default => exact absurd rfl hnil

/-- The configuration is the one of the settings that the nearest document gives. -/
theorem load_eq {cwd : List Text} {disk : Disk} {search : Location} {dir : List Text}
    {own : Toml.Table} {o : Overrides} {config : Config} (hsearch : '\x00' ∉ search.text)
    (hnearest : Nearest disk (search.resolve cwd).parts dir own)
    (hconfig : (documentSettings dir own).toOption.map (fun settings =>
      ofSettings (override o settings)) = some (.ok config)) :
    load cwd disk search o = ([], .ok config) := by
  cases hdocument : documentSettings dir own with
  | error failure =>
      rw [hdocument] at hconfig
      cases hconfig
  | ok settings =>
      rw [hdocument] at hconfig
      have hsettings : ofSettings (override o settings) = .ok config := Option.some.inj hconfig
      rw [load, hnearest.settings_eq hsearch hdocument]
      dsimp only
      rw [hsettings]

/-- A search that meets a typed table, or no document, gives a configuration without a warning. Each
field has the value of its first layer, and the addons come from the first place that has any. -/
theorem load_layers {cwd : List Text} {disk : Disk} {search : Location} {dir : List Text}
    {own : Toml.Table} (o : Overrides) (hsearch : '\x00' ∉ search.text)
    (hnearest : Nearest disk (search.resolve cwd).parts dir own) (htyped : IsTyped dir own) :
    ∃ config, load cwd disk search o = ([], .ok config) ∧ Layers dir own o config ∧
      AddonsFrom cwd disk dir own o (resolveAddons cwd disk config) := by
  obtain ⟨settings, hdocument, hsettings⟩ := htyped.exists_settings
  obtain ⟨config, hconfig, hlayers⟩ := exists_layers htyped hsettings o
  refine ⟨config, load_eq hsearch hnearest ?_, hlayers, hlayers.addonsFrom cwd disk⟩
  rw [hdocument]
  exact congrArg some hconfig

/-- The document of the nearer of two directories. -/
def nearText : Text :=
  ("[tool.addon_porter]\nsource_root = \"../up\"\nclean_output = true\n" ++
    "addons = [\" a\", \"b\", \"a \"]\n").toList

/-- The document of the other one. -/
def farText : Text :=
  "[tool.addon_porter]\nhost_root = \"far\"\n".toList

/-- The table of the nearer document. -/
def nearTable : Toml.Table :=
  [("source_root".toList, .string "../up".toList), ("clean_output".toList, .bool true),
    ("addons".toList, .array ([" a".toList, "b".toList, "a ".toList].map .string))]

/-- A disk with the two documents. -/
def layeredDisk : Disk :=
  { dirs := [["work".toList], ["work".toList, "host".toList]]
    files := [(["pyproject.toml".toList], Utf8.encode farText),
      (["work".toList, "pyproject.toml".toList], Utf8.encode nearText)] }

/-- A directory below the nearer document. -/
def hostDir : List Text := ["work".toList, "host".toList]

theorem nearest_layeredDisk :
    Nearest layeredDisk (({} : Location).resolve hostDir).parts ["work".toList] nearTable := by
  have hread : Toml.read nearText =
      .ok [("tool".toList, .table [("addon_porter".toList, .table nearTable)])] := by cbv
  refine .document ⟨["host".toList], rfl⟩ (fun nearer hnearer hlength => ?_) rfl
    (Utf8.decode_encode nearText) hread (.table rfl rfl)
  have hlong : nearer.length = 2 := le_antisymm hnearer.length_le hlength
  obtain rfl : nearer = hostDir := hnearer.eq_of_length hlong
  decide +kernel

theorem isTyped_nearTable : IsTyped ["work".toList] nearTable := by
  have hentry : ∀ {name : Text} {value : Toml.Value}, (name, value) ∈ nearTable →
      name = "source_root".toList ∧ value = .string "../up".toList ∨
        name = "clean_output".toList ∧ value = .bool true ∨
        name = "addons".toList ∧
          value = .array ([" a".toList, "b".toList, "a ".toList].map .string) := by
    intro name value h
    simpa only [nearTable, List.mem_cons, Prod.mk.injEq, List.not_mem_nil, or_false] using h
  have hkey : ∀ {name : Text}, name ∉ nearTable.map (·.1) → ∀ value, (name, value) ∉ nearTable :=
    fun hname value hmem => hname (List.mem_map_of_mem hmem)
  refine ⟨fun name hname value hmem => ?_, fun value hmem => ?_, fun value hmem => ?_,
    fun value hmem => ?_, fun value hmem => ?_, fun value hmem => ?_, fun value hmem => ?_⟩
  · obtain ⟨rfl, rfl⟩ | ⟨rfl, -⟩ | ⟨rfl, -⟩ := hentry hmem
    · exact ⟨_, .relative rfl (by decide)⟩
    · exact absurd hname (by decide)
    · exact absurd hname (by decide)
  · obtain ⟨hname, -⟩ | ⟨hname, -⟩ | ⟨-, rfl⟩ := hentry hmem
    · exact absurd hname (by decide)
    · exact absurd hname (by decide)
    · exact ⟨_, .array (by decide)⟩
  · exact absurd hmem (hkey (by decide) value)
  · exact absurd hmem (hkey (by decide) value)
  · obtain ⟨hname, -⟩ | ⟨-, rfl⟩ | ⟨hname, -⟩ := hentry hmem
    · exact absurd hname (by decide)
    · exact ⟨true, rfl⟩
    · exact absurd hname (by decide)
  · exact absurd hmem (hkey (by decide) value)
  · exact absurd hmem (hkey (by decide) value)

theorem load_layers_nearest :
    '\x00' ∉ ({} : Location).text ∧
      Nearest layeredDisk (({} : Location).resolve hostDir).parts ["work".toList] nearTable ∧
      IsTyped ["work".toList] nearTable ∧
      ∃ config : Config, config.source = ⟨1, ["up".toList]⟩ ∧ config.clean = false ∧
        config.addons = ["a".toList, "b".toList] ∧
        load hostDir layeredDisk {} { clean := some false } = ([], .ok config) ∧
        Layers ["work".toList] nearTable { clean := some false } config ∧
        AddonsFrom hostDir layeredDisk ["work".toList] nearTable { clean := some false }
          (resolveAddons hostDir layeredDisk config) := by
  have hsearch : '\x00' ∉ ({} : Location).text := by decide
  obtain ⟨config, hload, hlayers, haddons⟩ :=
    load_layers { clean := some false } hsearch nearest_layeredDisk isTyped_nearTable
  have hconfig : load hostDir layeredDisk {} { clean := some false } =
      ([], .ok { source := ⟨1, ["up".toList]⟩, clean := false
                 addons := ["a".toList, "b".toList] }) :=
    load_eq hsearch nearest_layeredDisk (by decide +kernel)
  obtain rfl := Except.ok.inj (Prod.mk.inj (hload.symm.trans hconfig)).2
  exact ⟨hsearch, nearest_layeredDisk, isTyped_nearTable, _, rfl, rfl, rfl, hload, hlayers,
    haddons⟩

/-- A document with a null character in a path. -/
def nullText : Text :=
  "[tool.addon_porter]\nsource_root = \"a\\u0000b\"\n".toList

/-- A directory whose path is nearly as long as a path may be. -/
def deepDir : List Text :=
  List.replicate 15 (List.replicate 255 'a') ++ [List.replicate 250 'a']

/-- A disk with that directory and those above it. -/
def deepDisk : Disk := { dirs := deepDir.inits }

theorem isFile_of_long {disk : Disk} {cwd : List Text} {l : Location} (hnull : '\x00' ∉ l.text)
    (hlong : Disk.maxPath < Disk.byteLength l.text) :
    disk.isFile cwd l = .error (Disk.refusal l .nameTooLong) := by
  have hplace : disk.place cwd l = .error .nameTooLong := by
    rw [Disk.place, if_neg (by simpa using hnull), if_pos hlong]
  rw [Disk.isFile, Disk.find?, Disk.lookup, hplace]
  rfl

theorem documentDir_upwards_error {disk : Disk} {parts : List Text} {refusal : Refusal}
    (h : disk.isFile [] (documentIn parts) = .error refusal) :
    documentDir disk (upwards parts) = .error refusal := by
  rw [upwards, List.range_succ_eq_map, List.map_cons, Nat.sub_zero, List.take_length, documentDir,
    h]
  rfl

/-- The addons in the table are dropped for a file given as an override. A relative path with a
null character ends the search even when it is overridden, and so does a directory in which the name
of the document makes too long a path. -/
theorem load_exceptions :
    (Nearest layeredDisk (({} : Location).resolve hostDir).parts ["work".toList] nearTable ∧
        IsTyped ["work".toList] nearTable ∧
        (∃ entry, Assoc.get? "addons".toList nearTable = some entry ∧
          ReadsAddons entry ["a".toList, "b".toList]) ∧
        load hostDir layeredDisk {} { addonsFile := some listFile } =
          ([], .ok { source := ⟨1, ["up".toList]⟩, addons := [], addonsFile := some listFile })) ∧
      load [] { files := [(["pyproject.toml".toList], Utf8.encode nullText)] } {}
          { source := some ⟨0, ["c".toList]⟩ } = ([], .error .nullCharacter) ∧
      deepDisk.isDir [] ⟨1, deepDir⟩ = .ok true ∧
        load [] deepDisk ⟨1, deepDir⟩ {} =
          ([], .error (.refused (Disk.refusal (documentIn deepDir) .nameTooLong))) := by
  refine ⟨⟨nearest_layeredDisk, isTyped_nearTable, ⟨_, rfl, .array (by decide)⟩,
    load_eq (by decide) nearest_layeredDisk (by decide +kernel)⟩, by decide +kernel,
    by decide +kernel, ?_⟩
  have hparts : ((Location.mk 1 deepDir).resolve []).parts = deepDir := by decide +kernel
  have hfile : deepDisk.isFile [] (documentIn deepDir) =
      .error (Disk.refusal (documentIn deepDir) .nameTooLong) :=
    isFile_of_long (by decide +kernel) (by decide +kernel)
  have hsearch : (Location.mk 1 deepDir).text.contains '\x00' = false := by decide +kernel
  rw [load, nearestSettings, hsearch, hparts, documentDir_upwards_error hfile]
  rfl

end AddonBundle.Config
