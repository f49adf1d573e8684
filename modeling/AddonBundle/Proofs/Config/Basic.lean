import AddonBundle.Config.Basic
/-!
# Fields of a configuration

Settings give a configuration exactly when each field has a value by itself: a check that refuses a
setting always says why, so no refusal is lost among the issues.
-/

namespace AddonBundle.Config

variable {α : Type}

/-! ## Refusals -/

/-- A check that refuses a setting says why. -/
def Explains (check : Setting → Checked α) : Prop :=
  ∀ setting, check setting ≠ .error []

theorem explains_checkLocation : Explains checkLocation := by
  intro setting
  cases setting <;> simp [checkLocation, misfit]

theorem explains_checkText : Explains checkText := by
  intro setting
  cases setting <;> simp [checkText, misfit]

theorem explains_checkBool : Explains checkBool := by
  intro setting
  unfold checkBool misfit
  dsimp only
  repeat' split
  all_goals simp

private theorem map_ne_error {β : Type} {outcome : Checked α} (h : outcome ≠ .error [])
    (f : α → β) : f <$> outcome ≠ .error [] := by
  cases outcome with
  | ok value => exact nofun
  | error issues =>
      intro herror
      cases herror
      exact h rfl

theorem Explains.optional {check : Setting → Checked α} (h : Explains check) :
    Explains (checkOptional check) := by
  intro setting
  unfold checkOptional
  split
  · simp
  · exact map_ne_error (h _) some

theorem checkTexts_ne_error (index : Nat) (items : List Setting) :
    checkTexts index items ≠ .error [] := by
  induction items generalizing index with
  | nil => simp [checkTexts]
  | cons item items ih =>
      have hitem := explains_checkText item
      have hrest := ih (index + 1)
      rw [checkTexts]
      split
      · simp
      · rename_i issues _ hissues
        rwa [hissues] at hrest
      · rename_i found _ hfound _
        rw [hfound] at hitem
        simpa using hitem
      · rename_i found _ hfound _
        rw [hfound] at hitem
        simp only [ne_eq, Except.error.injEq, List.append_eq_nil_iff, List.map_eq_nil_iff, not_and]
        exact fun hnil => absurd (by rw [hnil]) hitem

theorem explains_checkList : Explains checkList := by
  intro setting
  unfold checkList
  split
  · exact checkTexts_ne_error 0 _
  · simp [misfit]

theorem explains_addons : Explains fun setting => checkList setting >>= cleanAddons := by
  intro setting
  have hlist := explains_checkList setting
  dsimp only
  cases hcheck : checkList setting with
  | error issues => rwa [hcheck] at hlist
  | ok texts =>
      change cleanAddons texts ≠ .error []
      rw [cleanAddons]
      split <;> simp [misfit]

theorem explains_extensions :
    Explains fun setting => (fun texts => texts.filterMap cleanExtension) <$> checkList setting :=
  fun setting => map_ne_error (explains_checkList setting) _

theorem field_ne_error {check : Setting → Checked α} (h : Explains check) (settings : Settings)
    (name : Text) (default : α) : field settings name default check ≠ .error [] := by
  unfold field
  split
  · simp
  · rename_i setting _
    split
    · simp
    · rename_i issues hissues
      have := h setting
      rw [hissues] at this
      simpa using this

/-! ## Fields -/

theorem field_of_none {settings : Settings} {name : Text} (h : Assoc.get? name settings = none)
    (default : α) (check : Setting → Checked α) :
    field settings name default check = .ok default := by
  rw [field, h]

theorem field_of_some {settings : Settings} {name : Text} {setting : Setting} {value : α}
    {check : Setting → Checked α} (h : Assoc.get? name settings = some setting)
    (default : α) : field settings name default check = .ok value ↔ check setting = .ok value := by
  rw [field, h]
  dsimp only
  cases check setting <;> simp

/-- Each field has the value that its setting or its default gives it. -/
structure FieldsAre (settings : Settings) (config : Config) : Prop where
  source : field settings "source_root".toList ({} : Config).source checkLocation =
    .ok config.source
  output : field settings "output_root".toList ({} : Config).output checkLocation =
    .ok config.output
  host : field settings "host_root".toList ({} : Config).host checkLocation = .ok config.host
  addons : (field settings "addons".toList ({} : Config).addons fun s =>
    checkList s >>= cleanAddons) = .ok config.addons
  addonsFile : field settings "addons_file".toList ({} : Config).addonsFile
    (checkOptional checkLocation) = .ok config.addonsFile
  extensions : (field settings "asset_extensions".toList ({} : Config).extensions fun s =>
    (fun texts => texts.filterMap cleanExtension) <$> checkList s) = .ok config.extensions
  header : field settings "license_header".toList ({} : Config).header checkText = .ok config.header
  clean : field settings "clean_output".toList ({} : Config).clean checkBool = .ok config.clean
  cloneUrl : field settings "upstream_url".toList ({} : Config).cloneUrl (checkOptional checkText) =
    .ok config.cloneUrl
  cloneBranch : field settings "upstream_branch".toList ({} : Config).cloneBranch
    (checkOptional checkText) = .ok config.cloneBranch

/-- A field without an issue has a value. -/
theorem field_eq_ok_getD {settings : Settings} {name : Text} {default : α}
    {check : Setting → Checked α} (h : Explains check)
    (hissues : (field settings name default check).issues = []) :
    field settings name default check = .ok ((field settings name default check).getD default) := by
  have hne := field_ne_error h settings name default
  cases hfield : field settings name default check with
  | ok value => rfl
  | error issues =>
      rw [hfield, Checked.issues] at hissues
      rw [hfield, hissues] at hne
      exact absurd rfl hne

theorem ofSettings_eq_ok_iff {settings : Settings} {config : Config} :
    ofSettings settings = .ok config ↔ FieldsAre settings config := by
  constructor
  · intro h
    unfold ofSettings at h
    dsimp only at h
    split at h
    · rename_i hissues
      simp only [List.isEmpty_iff, List.append_eq_nil_iff] at hissues
      obtain ⟨⟨⟨⟨⟨⟨⟨⟨⟨hsource, houtput⟩, hhost⟩, haddons⟩, hfile⟩, hextensions⟩, hheader⟩, hclean⟩,
        hurl⟩, hbranch⟩ := hissues
      cases h
      exact {
        source := field_eq_ok_getD explains_checkLocation hsource
        output := field_eq_ok_getD explains_checkLocation houtput
        host := field_eq_ok_getD explains_checkLocation hhost
        addons := field_eq_ok_getD explains_addons haddons
        addonsFile := field_eq_ok_getD explains_checkLocation.optional hfile
        extensions := field_eq_ok_getD explains_extensions hextensions
        header := field_eq_ok_getD explains_checkText hheader
        clean := field_eq_ok_getD explains_checkBool hclean
        cloneUrl := field_eq_ok_getD explains_checkText.optional hurl
        cloneBranch := field_eq_ok_getD explains_checkText.optional hbranch }
    · cases h
  · intro h
    unfold ofSettings
    dsimp only
    rw [h.source, h.output, h.host, h.addons, h.addonsFile, h.extensions, h.header, h.clean,
      h.cloneUrl, h.cloneBranch]
    rfl

/-! ## Lists of texts -/

theorem checkText_eq_ok_iff {setting : Setting} {text : Text} :
    checkText setting = .ok text ↔ setting = .text text := by
  cases setting <;> simp [checkText, misfit]

theorem checkTexts_eq_ok_iff {index : Nat} {items : List Setting} {texts : List Text} :
    checkTexts index items = .ok texts ↔ items = texts.map .text := by
  induction items generalizing index texts with
  | nil => simp [checkTexts, eq_comm]
  | cons item items ih =>
      cases texts with
      | nil =>
          rw [checkTexts]
          split <;> simp
      | cons text texts =>
          rw [List.map_cons, List.cons.injEq, ← @ih (index + 1) texts, ← checkText_eq_ok_iff,
            checkTexts]
          split <;> rename_i hitem hrest <;> simp [hitem, hrest]

theorem checkList_eq_ok_iff {setting : Setting} {texts : List Text} :
    checkList setting = .ok texts ↔ setting = .list (texts.map .text) := by
  cases setting <;> simp [checkList, checkTexts_eq_ok_iff, misfit]

/-- What the field of addons takes: a list of texts, none of them blank. -/
theorem addons_eq_ok_iff {setting : Setting} {addons : List Text} :
    (checkList setting >>= cleanAddons) = .ok addons ↔
      ∃ texts : List Text, setting = .list (texts.map .text) ∧
        (∀ text ∈ texts, Text.trim text ≠ []) ∧ addons = Text.distinct (texts.map Text.trim) := by
  simp only [← checkList_eq_ok_iff]
  cases hcheck : checkList setting with
  | error issues => exact ⟨nofun, nofun⟩
  | ok texts =>
      change cleanAddons texts = .ok addons ↔ _
      rw [cleanAddons]
      split
      · rename_i hblank
        obtain ⟨text, htext, hempty⟩ := List.any_eq_true.mp hblank
        constructor
        · exact nofun
        · rintro ⟨_, heq, hnone, -⟩
          cases heq
          exact absurd (List.isEmpty_iff.mp hempty) (hnone text htext)
      · rename_i hblank
        have hnone : ∀ text ∈ texts, Text.trim text ≠ [] := fun text htext hnil =>
          hblank (List.any_eq_true.mpr ⟨text, htext, List.isEmpty_iff.mpr hnil⟩)
        constructor
        · intro h
          exact ⟨texts, rfl, hnone, (Except.ok.inj h).symm⟩
        · rintro ⟨_, heq, -, rfl⟩
          cases heq
          rfl

end AddonBundle.Config
