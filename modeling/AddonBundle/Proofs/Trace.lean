import AddonBundle.Proofs.CodePoint
import AddonBundle.Proofs.Text
import AddonBundle.Trace
import Mathlib.Order.Basic
/-!
# Nested phases

Which phases are open can be read off the entries of a trace alone: a phase is open when it has
started and no entry ends it yet. Whatever is recorded, each entry belongs to the phase that was
opened last among those open before it. So every phase is ended once at most, a phase that starts
inside another ends first, and what an entry belongs to comes before it.
-/

namespace AddonBundle.Trace

variable {entries more : List Entry} {entry : Entry} {start index : Nat}

/-! ## Open phases -/

/-- A phase starts with the entry at an index. -/
def StartsAt (entries : List Entry) (start : Nat) : Prop :=
  ∃ entry, entries[start]? = some entry ∧ entry.event.kind = .phaseStart

/-- The phase with the given start ends with the entry at an index. -/
def EndsAt (entries : List Entry) (start index : Nat) : Prop :=
  ∃ entry, entries[index]? = some entry ∧ entry.event.kind = .phaseEnd ∧ entry.parent = some start

/-- The phase with the given start is open when the entry at an index is recorded. -/
def IsOpenAt (entries : List Entry) (index start : Nat) : Prop :=
  start < index ∧ StartsAt entries start ∧ ∀ before < index, ¬ EndsAt entries start before

/-- The phase opened last among those open when the entry at an index is recorded, if any is. -/
def IsInnermost (entries : List Entry) (index : Nat) : Option Nat → Prop
  | some start =>
    IsOpenAt entries index start ∧ ∀ other, IsOpenAt entries index other → other ≤ start
  | none => ∀ start, ¬ IsOpenAt entries index start

/-- Phases nest, and each entry belongs to the innermost phase; the end of a phase belongs to its
start. -/
structure WellNested (entries : List Entry) : Prop where
  innermost : ∀ (index : Nat) (entry : Entry), entries[index]? = some entry →
    IsInnermost entries index entry.parent
  ended : ∀ (index : Nat) (entry : Entry), entries[index]? = some entry →
    entry.event.kind = .phaseEnd → ∃ start, entry.parent = some start ∧ StartsAt entries start
  once : ∀ start index other, EndsAt entries start index → EndsAt entries start other →
    index = other
  inside : ∀ outer inner last, EndsAt entries outer last → StartsAt entries inner →
    outer < inner → inner < last →
    ∃ index, inner < index ∧ index < last ∧ EndsAt entries inner index
  earlier : ∀ (index : Nat) (entry : Entry) (parent : Nat), entries[index]? = some entry →
    entry.parent = some parent → parent < index

/-- Each entry belongs to the innermost phase, and the end of a phase to one that is open. -/
structure Attached (entries : List Entry) : Prop where
  innermost : ∀ (index : Nat) (entry : Entry), entries[index]? = some entry →
    IsInnermost entries index entry.parent
  ended : ∀ (index : Nat) (entry : Entry), entries[index]? = some entry →
    entry.event.kind = .phaseEnd → entry.parent ≠ none

/-- What an entry belongs to is a phase that is open. -/
theorem Attached.isOpenAt (h : Attached entries) {parent : Nat}
    (hentry : entries[index]? = some entry) (hparent : entry.parent = some parent) :
    IsOpenAt entries index parent := by
  have hinnermost := h.innermost index entry hentry
  rw [hparent] at hinnermost
  exact hinnermost.1

theorem Attached.wellNested (h : Attached entries) : WellNested entries where
  innermost := h.innermost
  ended := by
    intro index entry hentry hkind
    obtain ⟨start, hstart⟩ := Option.ne_none_iff_exists'.mp (h.ended index entry hentry hkind)
    exact ⟨start, hstart, (h.isOpenAt hentry hstart).2.1⟩
  once := by
    -- the later of two ends would belong to a phase that is not open any more
    have hnot : ∀ start index other, index < other → EndsAt entries start index →
        ¬ EndsAt entries start other := by
      rintro start index other hlt hend ⟨entry, hentry, -, hparent⟩
      exact (h.isOpenAt hentry hparent).2.2 index hlt hend
    intro start index other hindex hother
    rcases Nat.lt_trichotomy index other with hlt | heq | hlt
    · exact absurd hother (hnot start index other hlt hindex)
    · exact heq
    · exact absurd hindex (hnot start other index hlt hother)
  inside := by
    rintro outer inner last ⟨entry, hentry, -, hparent⟩ hstarts houter hlast
    have hinnermost := h.innermost last entry hentry
    rw [hparent] at hinnermost
    have hclosed : ¬ IsOpenAt entries last inner := fun hopen =>
      absurd (hinnermost.2 inner hopen) (by omega)
    simp only [IsOpenAt, hlast, hstarts, true_and, not_forall, not_not] at hclosed
    obtain ⟨index, hindex, ending, hending, hkind, hbelongs⟩ := hclosed
    exact ⟨index, (h.isOpenAt hending hbelongs).1, hindex, ending, hending, hkind, hbelongs⟩
  earlier := fun index entry parent hentry hparent => (h.isOpenAt hentry hparent).1

/-! ## One more entry -/

theorem startsAt_append (h : start < entries.length) :
    StartsAt (entries ++ more) start ↔ StartsAt entries start := by
  simp only [StartsAt, List.getElem?_append_left h]

theorem endsAt_append (h : index < entries.length) :
    EndsAt (entries ++ more) start index ↔ EndsAt entries start index := by
  simp only [EndsAt, List.getElem?_append_left h]

/-- What is recorded later does not change which phases were open. -/
theorem isOpenAt_append (h : index ≤ entries.length) :
    IsOpenAt (entries ++ more) index start ↔ IsOpenAt entries index start := by
  refine and_congr_right fun hstart => and_congr (startsAt_append (by omega)) ?_
  exact forall₂_congr fun before hbefore => not_congr (endsAt_append (by omega))

theorem isInnermost_append (h : index ≤ entries.length) (parent : Option Nat) :
    IsInnermost (entries ++ more) index parent ↔ IsInnermost entries index parent := by
  cases parent <;> simp only [IsInnermost, isOpenAt_append h]

/-- The phases open behind one more entry: those open before it, but for the one that it ends, and
the one that it starts. -/
theorem Attached.isOpenAt_concat (h : Attached entries) (entry : Entry) (start : Nat) :
    IsOpenAt (entries ++ [entry]) (entries.length + 1) start ↔
      (start = entries.length ∧ entry.event.kind = .phaseStart) ∨
        (IsOpenAt entries entries.length start ∧
          ¬ (entry.event.kind = .phaseEnd ∧ entry.parent = some start)) := by
  have hlast : (entries ++ [entry])[entries.length]? = some entry := List.getElem?_concat_length
  have hends : EndsAt (entries ++ [entry]) start entries.length ↔
      entry.event.kind = .phaseEnd ∧ entry.parent = some start := by
    simp only [EndsAt, hlast, Option.some.injEq, exists_eq_left']
  have hold : IsOpenAt (entries ++ [entry]) entries.length start ↔
      IsOpenAt entries entries.length start := isOpenAt_append (Nat.le_refl _)
  constructor
  · rintro ⟨hlt, hstarts, hopen⟩
    rcases Nat.lt_succ_iff_lt_or_eq.mp hlt with hlt | rfl
    · refine .inr ⟨hold.mp ⟨hlt, hstarts, fun before hbefore => hopen before (by omega)⟩, ?_⟩
      rw [← hends]
      exact hopen _ (by omega)
    · obtain ⟨first, hfirst, hkind⟩ := hstarts
      rw [hlast, Option.some.injEq] at hfirst
      exact .inl ⟨rfl, hfirst ▸ hkind⟩
  · rintro (⟨rfl, hkind⟩ | ⟨hopen, hnot⟩)
    · refine ⟨by omega, ⟨entry, hlast, hkind⟩, fun before hbefore hend => ?_⟩
      rcases Nat.lt_succ_iff_lt_or_eq.mp hbefore with hlt | rfl
      · -- the end of a phase comes behind its start
        obtain ⟨ending, hending, -, hparent⟩ := (endsAt_append hlt).mp hend
        have hbelongs := (h.isOpenAt hending hparent).1
        omega
      · rw [(hends.mp hend).1] at hkind
        cases hkind
    · obtain ⟨hlt, hstarts, hopen⟩ := hold.mpr hopen
      refine ⟨by omega, hstarts, fun before hbefore => ?_⟩
      rcases Nat.lt_succ_iff_lt_or_eq.mp hbefore with hlt | rfl
      · exact hopen before hlt
      · rwa [hends]

theorem Attached.concat (h : Attached entries)
    (hinnermost : IsInnermost entries entries.length entry.parent)
    (hended : entry.event.kind = .phaseEnd → entry.parent ≠ none) :
    Attached (entries ++ [entry]) := by
  have hcases : ∀ (index : Nat) (other : Entry), (entries ++ [entry])[index]? = some other →
      entries[index]? = some other ∨ index = entries.length ∧ other = entry := by
    intro index other hother
    rcases Nat.lt_trichotomy index entries.length with hlt | rfl | hlt
    · rw [List.getElem?_append_left hlt] at hother
      exact .inl hother
    · rw [List.getElem?_concat_length, Option.some.injEq] at hother
      exact .inr ⟨rfl, hother.symm⟩
    · rw [List.getElem?_eq_none (by simp; omega)] at hother
      cases hother
  constructor
  · intro index other hother
    rcases hcases index other hother with hother | ⟨rfl, rfl⟩
    · have hlt := (List.getElem?_eq_some_iff.mp hother).1
      exact (isInnermost_append (Nat.le_of_lt hlt) _).mpr (h.innermost index other hother)
    · exact (isInnermost_append (Nat.le_refl _) _).mpr hinnermost
  · intro index other hother
    rcases hcases index other hother with hother | ⟨rfl, rfl⟩
    · exact h.ended index other hother
    · exact hended

/-! ## Recording -/

/-- Something that is done with a trace. What is recorded inside a phase starts and ends none. -/
inductive Call where
  | startPhase (name detail : Text)
  | endPhase
  | record (event : Event) (starts : event.kind ≠ .phaseStart) (ends : event.kind ≠ .phaseEnd)

/-- The trace after a call. -/
def Call.apply (trace : Trace) : Call → Trace
  | .startPhase name detail => trace.startPhase name detail
  | .endPhase => trace.endPhase
  | .record event _ _ => trace.record event

/-- The trace after calls one after the other on an empty trace. -/
def afterCalls (calls : List Call) : Trace :=
  calls.foldl Call.apply {}

/-- The stack of a trace holds the phases that are open, innermost first. -/
structure Sound (trace : Trace) : Prop where
  attached : Attached trace.entries
  mem_iff : ∀ start, start ∈ trace.openPhases ↔ IsOpenAt trace.entries trace.entries.length start
  sorted : trace.openPhases.Pairwise (· > ·)

variable {trace : Trace}

theorem sound_empty : Sound {} where
  attached := ⟨by simp, by simp⟩
  mem_iff := by simp [IsOpenAt]
  sorted := List.Pairwise.nil

/-- What is recorded next belongs to the top of the stack. -/
theorem Sound.isInnermost (h : trace.Sound) :
    IsInnermost trace.entries trace.entries.length trace.openPhases.head? := by
  have hmem := h.mem_iff
  have hsorted := h.sorted
  cases hopen : trace.openPhases with
  | nil =>
      intro start hstart
      rw [← hmem, hopen] at hstart
      cases hstart
  | cons phase outer =>
      rw [hopen] at hmem hsorted
      refine ⟨(hmem phase).mp List.mem_cons_self, fun other hother => ?_⟩
      rcases List.mem_cons.mp ((hmem other).mpr hother) with rfl | hother
      · exact Nat.le_refl _
      · exact Nat.le_of_lt (List.rel_of_pairwise_cons hsorted hother)

theorem Sound.record (h : trace.Sound) {event : Event} (hstart : event.kind ≠ .phaseStart)
    (hend : event.kind ≠ .phaseEnd) : (trace.record event).Sound where
  attached := h.attached.concat h.isInnermost fun hkind => absurd hkind hend
  mem_iff := by
    intro start
    have hopen := h.attached.isOpenAt_concat ⟨event, trace.openPhases.head?⟩ start
    simp only [Trace.record, List.length_append, List.length_singleton]
    rw [hopen, h.mem_iff]
    simp [hstart, hend]
  sorted := h.sorted

theorem Sound.startPhase (h : trace.Sound) (name detail : Text) :
    (trace.startPhase name detail).Sound where
  attached := h.attached.concat h.isInnermost fun hkind => by cases hkind
  mem_iff := by
    intro start
    have hopen := h.attached.isOpenAt_concat
      ⟨.phaseStart name detail, trace.openPhases.head?⟩ start
    simp only [Trace.startPhase, List.length_append, List.length_singleton, List.mem_cons]
    rw [hopen, h.mem_iff]
    simp [Event.kind]
  sorted := List.pairwise_cons.mpr ⟨fun start hstart => ((h.mem_iff start).mp hstart).1, h.sorted⟩

theorem Sound.endPhase (h : trace.Sound) : trace.endPhase.Sound := by
  have hmem := h.mem_iff
  have hsorted := h.sorted
  have hinnermost := h.isInnermost
  cases hphases : trace.openPhases with
  | nil => rwa [Trace.endPhase, hphases]
  | cons phase outer =>
      rw [hphases] at hmem hsorted hinnermost
      rw [Trace.endPhase, hphases]
      refine ⟨h.attached.concat hinnermost fun _ => by simp, fun start => ?_, hsorted.of_cons⟩
      have hopen := h.attached.isOpenAt_concat ⟨.phaseEnd, some phase⟩ start
      simp only [List.length_append, List.length_singleton]
      rw [hopen, ← hmem, List.mem_cons]
      have hne : start ∈ outer → phase ≠ start := fun hstart =>
        Nat.ne_of_gt (List.rel_of_pairwise_cons hsorted hstart)
      simp only [Event.kind, reduceCtorEq, and_false, false_or, true_and, Option.some.injEq]
      constructor
      · exact fun hstart => ⟨.inr hstart, hne hstart⟩
      · rintro ⟨rfl | hstart, hnot⟩
        · exact absurd rfl hnot
        · exact hstart

theorem Sound.foldl_record (h : trace.Sound) {events : List Event}
    (hevents : ∀ event ∈ events, event.kind ≠ .phaseStart ∧ event.kind ≠ .phaseEnd) :
    (events.foldl Trace.record trace).Sound := by
  induction events generalizing trace with
  | nil => exact h
  | cons event events ih =>
      obtain ⟨hstart, hend⟩ := hevents event List.mem_cons_self
      exact ih (h.record hstart hend) fun other hother =>
        hevents other (List.mem_cons_of_mem _ hother)

theorem Sound.apply (h : trace.Sound) (call : Call) : (call.apply trace).Sound := by
  cases call with
  | startPhase name detail => exact h.startPhase name detail
  | endPhase => exact h.endPhase
  | record event hstart hend => exact h.record hstart hend

theorem sound_afterCalls (calls : List Call) : (afterCalls calls).Sound := by
  have hfold : ∀ trace : Trace, trace.Sound → (calls.foldl Call.apply trace).Sound := by
    induction calls with
    | nil => exact fun _ h => h
    | cons call calls ih => exact fun trace h => ih _ (h.apply call)
  exact hfold {} sound_empty

/-! ## Exported events -/

theorem label_injective : Function.Injective label := by
  intro index other h
  rw [label, label, Json.Value.ofText, Json.Value.ofText, Json.Value.string.injEq] at h
  exact Text.ofNat_injective (List.cons.inj (CodePoint.ofText_injective h)).2

/-- What an exported event says of itself and of the event that it belongs to. -/
structure Shows (json : Json.Value) (index : Nat) (entry : Entry) : Prop where
  id : json.get? "id".toList = some (label index)
  kind : json.get? "type".toList = some (.ofText entry.event.kind.name)
  parent : json.get? "parent_id".toList = some ((entry.parent.map label).getD .null)

theorem length_exportFrom (first : Nat) (entries : List Entry) :
    (exportFrom first entries).length = entries.length := by
  induction entries generalizing first with
  | nil => rfl
  | cons entry entries ih => simp only [exportFrom, List.length_cons, ih]

theorem shows_exportFrom {first : Nat} {json : Json.Value}
    (hjson : (exportFrom first entries)[index]? = some json)
    (hentry : entries[index]? = some entry) : Shows json (first + index) entry := by
  induction entries generalizing first index with
  | nil => cases hentry
  | cons other entries ih =>
      cases index with
      | zero =>
          obtain rfl : other = entry := by simpa using hentry
          obtain rfl := Option.some.inj hjson
          exact ⟨rfl, rfl, rfl⟩
      | succ index =>
          have hrest : Shows json (first + 1 + index) entry := ih hjson hentry
          rwa [Nat.add_right_comm, Nat.add_assoc] at hrest

/-- Exported events are entries in order; each has a name of its own, by which it is referred to. -/
structure IsExport (events : List Json.Value) (entries : List Entry) : Prop where
  length_eq : events.length = entries.length
  shows_entry : ∀ (index : Nat) (json : Json.Value) (entry : Entry), events[index]? = some json →
    entries[index]? = some entry → Shows json index entry
  label_inj : ∀ index other, label index = label other → index = other

theorem isExport_exportFrom (entries : List Entry) : IsExport (exportFrom 0 entries) entries where
  length_eq := length_exportFrom 0 entries
  shows_entry := by
    intro index json entry hjson hentry
    have hshows := shows_exportFrom hjson hentry
    rwa [Nat.zero_add] at hshows
  label_inj := fun _ _ h => label_injective h

end AddonBundle.Trace
