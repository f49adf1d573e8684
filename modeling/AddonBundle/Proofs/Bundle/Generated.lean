import AddonBundle.Proofs.Bundle.Restyling
import AddonBundle.Proofs.Stylesheet.Rendering
/-!
# The generated stylesheet is read back

Restyling appends rules to the generated stylesheet. When the stylesheets of the host are nested and
the new selectors are flat, splitting what was appended gives one block for each rule, in order, with
the declarations of the rule that it was made from.
-/

namespace AddonBundle.Bundle

open Build Text Stylesheet

variable {σ : Type}

/-- The rules of a flat stylesheet that are restyled, each with what becomes of it. -/
def restyledBlocks (mapping : ClassMapping) (text : Text) : List (Block × RestyledRule) :=
  (blocks text).filterMap fun block => (restyleBlock mapping block).map (Prod.mk block)

/-- The rules of the host that are restyled, up to the first stylesheet that cannot be. -/
def restyled (host : View σ) (s : σ) (directory : Text) :
    List ClassMapping → List (Block × RestyledRule)
  | [] => []
  | mapping :: rest =>
    match restyleSheet host s directory mapping,
      flatten host s (sheetPath directory mapping.sheet) with
    | .ok _, .ok text => restyledBlocks mapping text ++ restyled host s directory rest
    | _, _ => []

theorem map_restyledBlocks (mapping : ClassMapping) (text : Text) :
    (restyledBlocks mapping text).map (·.2) = restyleText mapping text := by
  rw [restyledBlocks, restyleText, List.map_filterMap]
  congr 1
  funext block
  cases restyleBlock mapping block <;> rfl

theorem restyleSheet_ok {host : View σ} {s : σ} {directory : Text} {mapping : ClassMapping}
    {rules : List RestyledRule} (h : restyleSheet host s directory mapping = .ok rules) :
    ∃ text, flatten host s (sheetPath directory mapping.sheet) = .ok text ∧
      rules = restyleText mapping text := by
  unfold restyleSheet at h
  dsimp only at h
  split at h
  · cases h
  · cases h
  · cases hflatten : flatten host s (sheetPath directory mapping.sheet) with
    | error failure =>
        rw [hflatten] at h
        cases h
    | ok text =>
        rw [hflatten] at h
        cases h
        exact ⟨text, rfl, rfl⟩

theorem rules_restyle (host : View σ) (directory : Text) (mappings : List ClassMapping)
    (s : Session σ) :
    (exec (restyle host directory mappings) s).2.sheet.rules =
      s.sheet.rules ++ (restyled host s.storage directory mappings).map (·.2.text) := by
  induction mappings generalizing s with
  | nil => simp [restyle, restyled]
  | cons mapping rest ih =>
      rw [restyled]
      cases hsheet : restyleSheet host s.storage directory mapping with
      | error failure =>
          rw [exec_restyle_cons_of_error rest hsheet]
          simp
      | ok rules =>
          obtain ⟨text, hflatten, rfl⟩ := restyleSheet_ok hsheet
          rw [exec_restyle_cons_of_ok rest hsheet, hflatten]
          dsimp only
          rw [ih, withRules_storage, withRules_sheet, List.map_append, ← map_restyledBlocks,
            List.map_map, List.map_map, List.append_assoc]
          rfl

/-- The stylesheets of the host that mappings belong to are nested, as far as they can be
flattened. -/
def AreNested (host : View σ) (s : σ) (directory : Text) (mappings : List ClassMapping) : Prop :=
  ∀ mapping ∈ mappings, ∀ text,
    flatten host s (sheetPath directory mapping.sheet) = .ok text → IsNested text

theorem mem_restyled {host : View σ} {s : σ} {directory : Text} {mappings : List ClassMapping}
    {source : Block × RestyledRule} (h : source ∈ restyled host s directory mappings) :
    ∃ mapping ∈ mappings, ∃ text, flatten host s (sheetPath directory mapping.sheet) = .ok text ∧
      source.1 ∈ blocks text ∧ restyleBlock mapping source.1 = some source.2 := by
  induction mappings with
  | nil => cases h
  | cons mapping rest ih =>
      rw [restyled] at h
      split at h
      · rename_i hflatten
        rcases List.mem_append.mp h with h | h
        · obtain ⟨block, hblock, hpair⟩ := List.mem_filterMap.mp h
          obtain ⟨rule, hrule, rfl⟩ := Option.map_eq_some_iff.mp hpair
          exact ⟨mapping, List.mem_cons_self, _, hflatten, hblock, hrule⟩
        · obtain ⟨other, hother, hsource⟩ := ih h
          exact ⟨other, List.mem_cons_of_mem _ hother, hsource⟩
      · cases h

theorem text_of_restyleBlock {mapping : ClassMapping} {block : Block} {rule : RestyledRule}
    (h : restyleBlock mapping block = some rule) :
    rule.text = renderRule rule.after (declarations block.body) := by
  unfold restyleBlock at h
  split at h
  · cases h
  · simp only [Option.bind_eq_bind, Option.bind_eq_some_iff] at h
    obtain ⟨before, -, after, -, hrule⟩ := h
    cases hrule
    rfl

/-- The rules that restyling appends are read back: as one block each, in order, with the new
selector less the white space at its ends, and with the declarations of the rule of the host. -/
theorem restyle_read_back (host : View σ) (directory : Text) (mappings : List ClassMapping)
    (s : Session σ) (hnested : AreNested host s.storage directory mappings)
    (hflat : ∀ source ∈ restyled host s.storage directory mappings, IsFlat source.2.after) :
    (exec (restyle host directory mappings) s).2.sheet.rules =
        s.sheet.rules ++ (restyled host s.storage directory mappings).map (·.2.text) ∧
      (blocks ((restyled host s.storage directory mappings).map (·.2.text)).flatten).map
          (fun block => (block.prelude, declarations block.body)) =
        (restyled host s.storage directory mappings).map fun source =>
          (trim source.2.after, declarations source.1.body) := by
  refine ⟨rules_restyle host directory mappings s, ?_⟩
  have hreadable : ∀ source ∈ restyled host s.storage directory mappings,
      AreReadable (declarations source.1.body) := by
    intro source hsource
    obtain ⟨mapping, hmapping, text, hflatten, hblock, -⟩ := mem_restyled hsource
    exact ((hnested mapping hmapping text hflatten).body _ hblock).areReadable
  have htexts : ((restyled host s.storage directory mappings).map (·.2.text)).flatten =
      ((restyled host s.storage directory mappings).map fun source =>
        (source.2.after, declarations source.1.body)).flatMap fun rule =>
          renderRule rule.1 rule.2 := by
    rw [List.flatMap_map, List.flatMap_def]
    congr 1
    apply List.map_congr_left
    intro source hsource
    obtain ⟨mapping, -, -, -, -, hrule⟩ := mem_restyled hsource
    exact text_of_restyleBlock hrule
  have hrules : ∀ rule ∈ (restyled host s.storage directory mappings).map fun source =>
      (source.2.after, declarations source.1.body), IsFlat rule.1 ∧ AreReadable rule.2 :=
    List.forall_mem_map.mpr fun source hsource => ⟨hflat source hsource, hreadable source hsource⟩
  rw [htexts, blocks, blocksOutside_renderRules hrules isBlankText_nil, List.map_map, List.map_map]
  apply List.map_congr_left
  intro source hsource
  simp [declarations_bodyText (hreadable source hsource)]

/-- A host with one stylesheet. -/
def hostOf (sheet : Text) : Session Tree :=
  { storage := .ofFiles [("components/c/c.css".toList, Utf8.encode sheet)] }

def letterMapping : ClassMapping :=
  ⟨['c'], [(['a'], "s_a_h".toList)]⟩

/-- Strings with brackets in them, a nested rule, and a semicolon in round brackets. -/
def nestedSheet : Text :=
  ".a \x7b content: \"\x7d\"; .b \x7b x: y \x7d src: url(m;n); \x7d .a .a \x7b\x7d".toList

theorem restyle_read_back_nested :
    AreNested (.memory id fun tree _ => tree) (hostOf nestedSheet).storage componentsDir
        [letterMapping] ∧
      (blocks ((restyled (.memory id fun tree _ => tree) (hostOf nestedSheet).storage componentsDir
        [letterMapping]).map (·.2.text)).flatten).map
          (fun block => (block.prelude, declarations block.body)) =
        [(".s_a_h".toList, [⟨"content".toList, "\"\x7d\"".toList⟩,
          ⟨"src".toList, "url(m;n)".toList⟩]), (".s_a_h .s_a_h".toList, [])] := by
  have hflatten : flatten (.memory id fun tree _ => tree) (hostOf nestedSheet).storage
      (sheetPath componentsDir letterMapping.sheet) = .ok nestedSheet := by decide +kernel
  have hnested : AreNested (.memory id fun tree _ => tree) (hostOf nestedSheet).storage
      componentsDir [letterMapping] := by
    intro mapping hmapping text htext
    rw [List.mem_singleton.mp hmapping, hflatten] at htext
    cases htext
    decide +kernel
  refine ⟨hnested, ?_⟩
  rw [(restyle_read_back _ componentsDir [letterMapping] (hostOf nestedSheet) hnested
    (by decide +kernel)).2]
  decide +kernel

/-- A class whose name ends with an escaped no-break space. -/
def blankSheet : Text :=
  ".a\\a0 \x7b color: red \x7d".toList

/-- The new selector ends with that space, and the block that is read does not. -/
theorem restyle_read_back_blank :
    AreNested (.memory id fun tree _ => tree) (hostOf blankSheet).storage componentsDir
        [letterMapping] ∧
      (∀ source ∈ restyled (.memory id fun tree _ => tree) (hostOf blankSheet).storage componentsDir
        [letterMapping], IsFlat source.2.after) ∧
      (blocks ((restyled (.memory id fun tree _ => tree) (hostOf blankSheet).storage componentsDir
        [letterMapping]).map (·.2.text)).flatten).map (·.prelude) ≠
          (restyled (.memory id fun tree _ => tree) (hostOf blankSheet).storage componentsDir
            [letterMapping]).map (·.2.after) := by
  have hflatten : flatten (.memory id fun tree _ => tree) (hostOf blankSheet).storage
      (sheetPath componentsDir letterMapping.sheet) = .ok blankSheet := by decide +kernel
  refine ⟨?_, by decide +kernel, by decide +kernel⟩
  intro mapping hmapping text htext
  rw [List.mem_singleton.mp hmapping, hflatten] at htext
  cases htext
  decide +kernel

end AddonBundle.Bundle
