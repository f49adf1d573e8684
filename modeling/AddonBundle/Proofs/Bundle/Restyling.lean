import AddonBundle.Bundle.Restyling
import AddonBundle.Proofs.Session
import AddonBundle.Proofs.Stylesheet.ClassMapping
/-!
# Restyling stylesheets

The rules of a stylesheet of the host are recorded and appended to the generated stylesheet, all of
them or, when it cannot be restyled, none. Nothing is stored by that. Stylesheets are restyled in the
order of their first markers, up to the first that cannot be.
-/

namespace AddonBundle.Bundle

open Build Text Stylesheet

variable {σ : Type}

/-! ## Recorded and appended rules -/

/-- How a rule restyled in a session is recorded, with the name of its stylesheet. -/
def fixEntry (s : Session σ) (sheet : Text) (rule : RestyledRule) : Trace.Entry :=
  ⟨.classFix sheet rule.before rule.after, s.trace.openPhases.head?⟩

/-- The session when restyled rules, each with the name of its stylesheet, are recorded and
appended to the generated stylesheet. -/
def withRules (s : Session σ) (rules : List (Text × RestyledRule)) : Session σ :=
  { s with
    trace := { s.trace with
      entries := s.trace.entries ++ rules.map fun rule => fixEntry s rule.1 rule.2 }
    sheet := ⟨s.sheet.rules ++ rules.map (·.2.text)⟩ }

@[simp] theorem withRules_nil (s : Session σ) : withRules s [] = s := by
  simp [withRules]

theorem withRules_append (s : Session σ) (front back : List (Text × RestyledRule)) :
    withRules s (front ++ back) = withRules (withRules s front) back := by
  simp only [withRules, List.map_append, List.append_assoc]
  rfl

@[simp] theorem withRules_storage (s : Session σ) (rules : List (Text × RestyledRule)) :
    (withRules s rules).storage = s.storage := rfl

@[simp] theorem withRules_sheet (s : Session σ) (rules : List (Text × RestyledRule)) :
    (withRules s rules).sheet.rules = s.sheet.rules ++ rules.map (·.2.text) := rfl

/-- Every rule that is recorded is an event of its kind. -/
theorem length_ofKind_withRules (s : Session σ) (rules : List (Text × RestyledRule)) :
    ((withRules s rules).trace.ofKind .classFix).length =
      (s.trace.ofKind .classFix).length + rules.length := by
  have hkinds : ((rules.map fun rule => fixEntry s rule.1 rule.2).filter
      fun entry => entry.event.kind = .classFix) = rules.map fun rule => fixEntry s rule.1 rule.2 := by
    rw [List.filter_eq_self]
    intro entry hentry
    obtain ⟨rule, -, rfl⟩ := List.mem_map.mp hentry
    rfl
  rw [Trace.ofKind, withRules, List.filter_append, hkinds, List.length_append, List.length_map]
  rfl

theorem exec_recordRules (sheet : Text) (rules : List RestyledRule) (s : Session σ) :
    exec (recordRules sheet rules) s =
      (.ok (), { s with trace := { s.trace with
        entries := s.trace.entries ++ rules.map (fixEntry s sheet) } }) := by
  induction rules generalizing s with
  | nil => simp [recordRules]
  | cons rule rest ih =>
      rw [recordRules, exec_bind_of_ok (exec_record _ s), ih, Trace.record, List.append_assoc]
      rfl

theorem foldl_append_rules (rules : List RestyledRule) (sheet : FixedSheet) :
    rules.foldl (fun sheet rule => sheet.append rule.text) sheet =
      ⟨sheet.rules ++ rules.map (·.text)⟩ := by
  induction rules generalizing sheet with
  | nil => simp
  | cons rule rest ih =>
      rw [List.foldl_cons, ih]
      simp [FixedSheet.append]

/-! ## One stylesheet -/

variable {host : View σ} {directory : Text} {mapping : ClassMapping} {s : Session σ}

theorem exec_restyleOne_of_error {failure : Failure}
    (h : restyleSheet host s.storage directory mapping = .error failure) :
    exec (restyleOne host directory mapping) s = (.error failure, s) := by
  rw [restyleOne, exec_bind_of_ok (exec_storage s), exec_bind, exec_ofExcept, h]

theorem exec_restyleOne_of_ok {rules : List RestyledRule}
    (h : restyleSheet host s.storage directory mapping = .ok rules) :
    exec (restyleOne host directory mapping) s =
      (.ok rules.length, withRules s (rules.map (Prod.mk mapping.sheet))) := by
  rw [restyleOne, exec_bind_of_ok (exec_storage s), exec_bind, exec_ofExcept, h]
  dsimp only
  rw [exec_bind_of_ok (exec_recordRules _ _ s), exec_bind_of_ok (exec_modify _ _), exec_pure,
    foldl_append_rules]
  simp [withRules, Function.comp_def]

/-! ## Stylesheets in order -/

theorem exec_restyle_cons_of_error {failure : Failure} (rest : List ClassMapping)
    (h : restyleSheet host s.storage directory mapping = .error failure) :
    exec (restyle host directory (mapping :: rest)) s = (.error failure, s) := by
  rw [restyle, exec_bind, exec_restyleOne_of_error h]

theorem exec_restyle_cons_of_ok {rules : List RestyledRule} (rest : List ClassMapping)
    (h : restyleSheet host s.storage directory mapping = .ok rules) :
    exec (restyle host directory (mapping :: rest)) s =
      let after := exec (restyle host directory rest)
        (withRules s (rules.map (Prod.mk mapping.sheet)))
      (after.1.map (rules.length + ·), after.2) := by
  rw [restyle, exec_bind_of_ok (exec_restyleOne_of_ok h), exec_bind]
  obtain ⟨outcome, s'⟩ := exec (restyle host directory rest)
    (withRules s (rules.map (Prod.mk mapping.sheet)))
  cases outcome <;> rfl

/-- The rules of stylesheets that were restyled one after the other. -/
def batchRules (done : List (ClassMapping × List RestyledRule)) : List (Text × RestyledRule) :=
  done.flatMap fun entry => entry.2.map (Prod.mk entry.1.sheet)

/-- Stylesheets are restyled in order, up to the first that cannot be. The rules of those before it
are recorded and appended, and nothing else changes. -/
theorem exists_done_of_restyle (host : View σ) (directory : Text) (mappings : List ClassMapping)
    (s : Session σ) :
    ∃ done : List (ClassMapping × List RestyledRule),
      (∀ entry ∈ done, restyleSheet host s.storage directory entry.1 = .ok entry.2) ∧
      (exec (restyle host directory mappings) s).2 = withRules s (batchRules done) ∧
      (mappings = done.map (·.1) ∧
          (exec (restyle host directory mappings) s).1 = .ok (batchRules done).length ∨
        ∃ mapping rest failure, mappings = done.map (·.1) ++ mapping :: rest ∧
          restyleSheet host s.storage directory mapping = .error failure ∧
          (exec (restyle host directory mappings) s).1 = .error failure) := by
  induction mappings generalizing s with
  | nil => exact ⟨[], by simp, by simp [restyle, batchRules], .inl ⟨rfl, rfl⟩⟩
  | cons mapping rest ih =>
      cases hsheet : restyleSheet host s.storage directory mapping with
      | error failure =>
          rw [exec_restyle_cons_of_error rest hsheet]
          exact ⟨[], by simp, by simp [batchRules], .inr ⟨mapping, rest, failure, rfl, hsheet, rfl⟩⟩
      | ok rules =>
          obtain ⟨done, hdone, hafter, houtcome⟩ :=
            ih (withRules s (rules.map (Prod.mk mapping.sheet)))
          have hbatch : batchRules ((mapping, rules) :: done) =
              rules.map (Prod.mk mapping.sheet) ++ batchRules done := rfl
          rw [exec_restyle_cons_of_ok rest hsheet]
          refine ⟨(mapping, rules) :: done, List.forall_mem_cons.mpr ⟨hsheet, hdone⟩, ?_, ?_⟩
          · rw [hbatch, withRules_append]
            exact hafter
          · rcases houtcome with ⟨hall, hcount⟩ | ⟨failing, back, failure, hsplit, hfails, herror⟩
            · refine .inl ⟨by rw [hall, List.map_cons], ?_⟩
              dsimp only
              rw [hcount, hbatch, List.length_append, List.length_map]
              rfl
            · refine .inr ⟨failing, back, failure, by rw [hsplit]; rfl, hfails, ?_⟩
              dsimp only
              rw [herror]
              rfl

/-- Restyling for a list of markers. The stylesheets stand in order of their first markers, each with
the mapping of a class to the name in its last marker. Those before the first that cannot be restyled
are appended whole, with an event for each rule, and nothing else changes; when all can be, the number
of rules is given. -/
theorem restyle_groupMarkers (host : View σ) (directory : Text) (markers : List Script.ClassMarker)
    (s : Session σ) :
    let mappings := groupMarkers markers
    let outcome := (exec (restyle host directory mappings) s).1
    let after := (exec (restyle host directory mappings) s).2
    mappings.map (·.sheet) = distinct (markers.map (·.sheet)) ∧
    (∀ mapping ∈ mappings, ∀ name,
      mapping.get? name = (lastMarker? markers mapping.sheet name).map (·.generated)) ∧
    ∃ done : List (ClassMapping × List RestyledRule),
      (∀ entry ∈ done, restyleSheet host s.storage directory entry.1 = .ok entry.2) ∧
      after = withRules s (batchRules done) ∧
      after.sheet.rules.length = s.sheet.rules.length + (batchRules done).length ∧
      (after.trace.ofKind .classFix).length =
        (s.trace.ofKind .classFix).length + (batchRules done).length ∧
      (mappings = done.map (·.1) ∧ outcome = .ok (batchRules done).length ∨
        ∃ mapping rest failure, mappings = done.map (·.1) ++ mapping :: rest ∧
          restyleSheet host s.storage directory mapping = .error failure ∧
          outcome = .error failure) := by
  intro mappings outcome after
  obtain ⟨done, hdone, hafter, houtcome⟩ := exists_done_of_restyle host directory mappings s
  refine ⟨sheets_groupMarkers markers, fun mapping hmapping => get?_of_mem_groupMarkers hmapping,
    done, hdone, hafter, ?_, ?_, houtcome⟩
  · calc after.sheet.rules.length
        = (withRules s (batchRules done)).sheet.rules.length := by rw [← hafter]
      _ = s.sheet.rules.length + (batchRules done).length := by
          rw [withRules_sheet, List.length_append, List.length_map]
  · calc (after.trace.ofKind .classFix).length
        = ((withRules s (batchRules done)).trace.ofKind .classFix).length := by rw [← hafter]
      _ = _ := length_ofKind_withRules s (batchRules done)

/-- A class that two markers name, and then a stylesheet that is missing. -/
example :
    let s : Session Tree :=
      { storage := .ofFiles [("components/a/a.css".toList, Utf8.encode ".x \x7b\x7d".toList)] }
    let marker (sheet hash : Char) : Script.ClassMarker :=
      ⟨[sheet], ['x'], [sheet, '_', 'x', '_', hash], [hash]⟩
    let after := exec (restyle (.memory id fun tree _ => tree) componentsDir
      (groupMarkers [marker 'a' '1', marker 'b' '1', marker 'a' '2', marker 'c' '1'])) s
    after.1 = .error (.fault (.markedSheetMissing ['b'] "components/b/b.css".toList)) ∧
      after.2.sheet.rules = [".a_x_2 \x7b\x7d\n".toList] ∧
      after.2.trace.entries = [⟨.classFix ['a'] ".x".toList ".a_x_2".toList, none⟩] := by
  decide +kernel

end AddonBundle.Bundle
