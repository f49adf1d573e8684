import AddonBundle.Proofs.Assoc
import AddonBundle.Proofs.Script.Marker
import AddonBundle.Proofs.Stylesheet.Lengths
import Mathlib.Data.List.Induction
/-!
# Class mappings of markers

There is one mapping for each stylesheet that markers name, in order of the first markers. It sends
a class to the generated name of the last marker that names it. Generated names are made of name
characters, and have at least five. Conversely, any names can be mapped by markers of one stylesheet.
-/

namespace AddonBundle

open Text

namespace Script

/-- What a decomposed name is made of. -/
theorem decompose_eq_some {token : Text} {marker : ClassMarker}
    (h : decompose token = some marker) :
    marker.generated = token ∧ (∀ c ∈ token, isName c = true) ∧ 5 ≤ token.length ∧
      ∀ c ∈ token.head?, isWord c = true := by
  obtain ⟨hcut, hgenerated, -⟩ := isCut_of_decompose h
  have hsheet := List.length_pos_iff.mpr hcut.sheet_ne
  have hplain := List.length_pos_iff.mpr hcut.plain_ne
  have hhash := List.length_pos_iff.mpr hcut.hash_ne
  refine ⟨hgenerated, ?_, ?_, ?_⟩
  · have hmark : isName '_' = true := by decide
    rw [hcut.token_eq]
    simp only [List.forall_mem_append, List.forall_mem_cons]
    exact ⟨fun c hc => isName_of_isWord (hcut.sheet_chars c hc), hmark, hcut.plain_chars, hmark,
      hcut.hash_chars⟩
  · rw [hcut.token_eq]
    simp only [List.length_append, List.length_cons]
    omega
  · intro c hc
    apply hcut.sheet_chars
    obtain ⟨d, inside, hinside⟩ := List.exists_cons_of_ne_nil hcut.sheet_ne
    rw [hcut.token_eq, hinside, List.cons_append, List.head?_cons, Option.mem_some_iff] at hc
    rw [hinside, ← hc]
    exact List.mem_cons_self

private theorem splitLast_append {front last : Text} (hfront : front ≠ []) (hlast : last ≠ [])
    (hmark : '_' ∉ last) : splitLast (front ++ '_' :: last) = some (front, last) := by
  obtain ⟨front', last', hsplit, hlength⟩ := exists_splitLast rfl hfront hlast
  obtain ⟨htext, -⟩ := splitLast_eq_some hsplit
  -- a split further on would be at an underscore of the last part
  obtain ⟨more, rfl, hmore⟩ | ⟨more, rfl, hmore⟩ := List.append_eq_append_iff.mp htext
  · cases more with
    | nil => rw [hsplit, (List.cons.inj hmore).2, List.append_nil]
    | cons c more =>
        rw [(List.cons.inj hmore).2] at hmark
        simp at hmark
  · cases more with
    | nil =>
        rw [← (List.cons.inj hmore).2, List.append_nil] at hsplit ⊢
        exact hsplit
    | cons c more =>
        simp only [List.length_append, List.length_cons] at hlength
        omega

/-- A generated name for a class, with a hash of a given width. -/
def sampleName (width : Nat) (name : Text) : Text :=
  "s_".toList ++ name ++ '_' :: List.replicate (width + 1) 'h'

/-- The marker of such a name. -/
def sampleMarker (width : Nat) (name : Text) : ClassMarker :=
  ⟨['s'], name, sampleName width name, List.replicate (width + 1) 'h'⟩

theorem decompose_sampleName (width : Nat) {name : Text} (hne : name ≠ [])
    (hchars : ∀ c ∈ name, isName c = true) :
    decompose (sampleName width name) = some (sampleMarker width name) := by
  have hshape : sampleName width name =
      's' :: '_' :: (name ++ '_' :: List.replicate (width + 1) 'h') := by
    simp [sampleName]
  have htail : (name ++ '_' :: List.replicate (width + 1) 'h').all isName = true := by
    rw [List.all_eq_true]
    intro c hc
    rcases List.mem_append.mp hc with hc | hc
    · exact hchars c hc
    · rcases List.mem_cons.mp hc with hc | hc
      · rw [hc]
        decide
      · rw [List.eq_of_mem_replicate hc]
        decide
  have hsplit : splitLast (name ++ '_' :: List.replicate (width + 1) 'h') =
      some (name, List.replicate (width + 1) 'h') := by
    apply splitLast_append hne (by simp)
    intro hmem
    exact absurd (List.eq_of_mem_replicate hmem) (by decide)
  rw [hshape]
  simp only [decompose, List.dropWhile_cons, List.takeWhile_cons]
  simp [htail, hsplit, sampleMarker, hshape, show isWord 's' = true by decide]

theorem length_sampleName (width : Nat) (name : Text) :
    (sampleName width name).length = name.length + (width + 4) := by
  simp [sampleName]
  omega

end Script

namespace Stylesheet

/-! ## Mappings by stylesheet -/

theorem groupMarkers_append (markers : List Script.ClassMarker) (marker : Script.ClassMarker) :
    groupMarkers (markers ++ [marker]) = addMarker marker (groupMarkers markers) := by
  simp [groupMarkers]

theorem sheets_addMarker (marker : Script.ClassMarker) (groups : List ClassMapping) :
    (addMarker marker groups).map (·.sheet) =
      if marker.sheet ∈ groups.map (·.sheet) then groups.map (·.sheet)
      else groups.map (·.sheet) ++ [marker.sheet] := by
  induction groups with
  | nil => rfl
  | cons mapping rest ih =>
      rw [addMarker]
      split
      · rename_i hsheet
        rw [List.map_cons, List.map_cons, if_pos (hsheet ▸ List.mem_cons_self)]
        rfl
      · rename_i hsheet
        rw [List.map_cons, ih, List.map_cons]
        simp only [List.mem_cons, Ne.symm hsheet, false_or]
        split <;> rfl

/-- The stylesheets stand in order of their first markers. -/
theorem sheets_groupMarkers (markers : List Script.ClassMarker) :
    (groupMarkers markers).map (·.sheet) = distinct (markers.map (·.sheet)) := by
  induction markers using List.reverseRecOn with
  | nil => rfl
  | append_singleton markers marker ih =>
      rw [groupMarkers_append, sheets_addMarker, ih, List.map_append, List.map_singleton,
        distinct_concat]
      simp only [mem_distinct]

theorem nodup_sheets_groupMarkers (markers : List Script.ClassMarker) :
    ((groupMarkers markers).map (·.sheet)).Nodup := by
  rw [sheets_groupMarkers]
  exact nodup_distinct _

/-- A marker is added to the mapping of its stylesheet, and the other mappings stay. -/
private theorem mem_addMarker {marker : Script.ClassMarker} {mapping : ClassMapping}
    {groups : List ClassMapping} (hnodup : (groups.map (·.sheet)).Nodup)
    (h : mapping ∈ addMarker marker groups) :
    (mapping ∈ groups ∧ mapping.sheet ≠ marker.sheet) ∨
      ∃ old : ClassMapping, mapping = old.add marker.plainClass marker.generated ∧
        old.sheet = marker.sheet ∧
        (old ∈ groups ∨ old.classes = [] ∧ marker.sheet ∉ groups.map (·.sheet)) := by
  induction groups with
  | nil =>
      rw [addMarker, List.mem_singleton] at h
      exact .inr ⟨⟨marker.sheet, []⟩, h, rfl, .inr ⟨rfl, List.not_mem_nil⟩⟩
  | cons first rest ih =>
      rw [List.map_cons, List.nodup_cons] at hnodup
      rw [addMarker] at h
      split at h
      · rename_i hsheet
        rcases List.mem_cons.mp h with h | h
        · exact .inr ⟨first, h, hsheet, .inl List.mem_cons_self⟩
        · refine .inl ⟨List.mem_cons_of_mem _ h, fun hsame => hnodup.1 ?_⟩
          rw [hsheet, ← hsame]
          exact List.mem_map_of_mem h
      · rename_i hsheet
        rcases List.mem_cons.mp h with rfl | h
        · exact .inl ⟨List.mem_cons_self, hsheet⟩
        · rcases ih hnodup.2 h with ⟨hmem, hne⟩ | ⟨old, heq, hsame, hold⟩
          · exact .inl ⟨List.mem_cons_of_mem _ hmem, hne⟩
          · refine .inr ⟨old, heq, hsame, hold.imp (List.mem_cons_of_mem _) fun hnew => ⟨hnew.1, ?_⟩⟩
            rw [List.map_cons, List.mem_cons, not_or]
            exact ⟨Ne.symm hsheet, hnew.2⟩

theorem ClassMapping.get?_add (mapping : ClassMapping) (name generated other : Text) :
    (mapping.add name generated).get? other =
      if other = name then some generated else mapping.get? other :=
  Assoc.get?_put name other generated mapping.classes

/-- The last marker that names a class of a stylesheet. -/
def lastMarker? (markers : List Script.ClassMarker) (sheet name : Text) :
    Option Script.ClassMarker :=
  markers.reverse.find? fun marker => marker.sheet = sheet && marker.plainClass = name

theorem lastMarker?_concat (markers : List Script.ClassMarker) (marker : Script.ClassMarker)
    (sheet name : Text) :
    lastMarker? (markers ++ [marker]) sheet name =
      if marker.sheet = sheet ∧ marker.plainClass = name then some marker
      else lastMarker? markers sheet name := by
  rw [lastMarker?, List.reverse_append, List.reverse_singleton, List.singleton_append,
    List.find?_cons]
  rw [← Bool.decide_and]
  split
  · rename_i h
    rw [if_pos (of_decide_eq_true h)]
  · rename_i h
    rw [if_neg (of_decide_eq_false h), lastMarker?]

theorem lastMarker?_eq_none {markers : List Script.ClassMarker} {sheet : Text} (name : Text)
    (h : sheet ∉ markers.map (·.sheet)) : lastMarker? markers sheet name = none := by
  rw [lastMarker?, List.find?_eq_none]
  intro marker hmarker
  have hsheet : marker.sheet ≠ sheet := by
    rintro rfl
    exact h (List.mem_map_of_mem (List.mem_reverse.mp hmarker))
  simp [hsheet]

/-- A class is mapped to the generated name of the last marker that names it. -/
theorem get?_of_mem_groupMarkers {markers : List Script.ClassMarker} {mapping : ClassMapping}
    (h : mapping ∈ groupMarkers markers) (name : Text) :
    mapping.get? name = (lastMarker? markers mapping.sheet name).map (·.generated) := by
  induction markers using List.reverseRecOn generalizing mapping with
  | nil => cases h
  | append_singleton markers marker ih =>
      rw [groupMarkers_append] at h
      rw [lastMarker?_concat]
      rcases mem_addMarker (nodup_sheets_groupMarkers markers) h with
        ⟨hmem, hne⟩ | ⟨old, rfl, hsheet, hold⟩
      · rw [if_neg fun hsame => hne hsame.1.symm]
        exact ih hmem
      · have hbefore : old.get? name = (lastMarker? markers old.sheet name).map (·.generated) := by
          rcases hold with hmem | ⟨hempty, hnew⟩
          · exact ih hmem
          · rw [sheets_groupMarkers, mem_distinct, ← hsheet] at hnew
            rw [lastMarker?_eq_none name hnew, ClassMapping.get?, hempty]
            rfl
        have hadd : (old.add marker.plainClass marker.generated).sheet = old.sheet := rfl
        rw [ClassMapping.get?_add, hadd, hsheet, hbefore, hsheet]
        by_cases hname : name = marker.plainClass
        · simp [hname]
        · simp [hname, Ne.symm hname]

/-- A class is mapped to the generated name of a marker that names it. -/
theorem exists_marker_of_get? {markers : List Script.ClassMarker} {mapping : ClassMapping}
    {name generated : Text} (hmapping : mapping ∈ groupMarkers markers)
    (h : mapping.get? name = some generated) :
    ∃ marker ∈ markers, marker.plainClass = name ∧ marker.generated = generated := by
  rw [get?_of_mem_groupMarkers hmapping, Option.map_eq_some_iff] at h
  obtain ⟨marker, hlast, hgenerated⟩ := h
  have hnames := List.find?_some hlast
  rw [Bool.and_eq_true, decide_eq_true_eq, decide_eq_true_eq] at hnames
  exact ⟨marker, List.mem_reverse.mp (List.mem_of_find?_eq_some hlast), hnames.2, hgenerated⟩

private theorem lastMarker?_sample (width : Text → Nat) (names : List Text) (name : Text) :
    lastMarker? (names.map fun name => Script.sampleMarker (width name) name) ['s'] name =
      if name ∈ names then some (Script.sampleMarker (width name) name) else none := by
  induction names using List.reverseRecOn with
  | nil => rfl
  | append_singleton names last ih =>
      rw [List.map_append, List.map_singleton, lastMarker?_concat, ih]
      by_cases hname : name = last
      · subst hname
        simp [Script.sampleMarker]
      · simp [Script.sampleMarker, hname, Ne.symm hname]

/-- The mapping of markers of one stylesheet for given names. -/
theorem exists_sample_mapping (width : Text → Nat) {names : List Text} (hnames : names ≠ []) :
    ∃ mapping ∈ groupMarkers (names.map fun name => Script.sampleMarker (width name) name),
      ∀ name, mapping.get? name =
        if name ∈ names then some (Script.sampleName (width name) name) else none := by
  obtain ⟨first, hfirst⟩ := List.exists_mem_of_ne_nil names hnames
  have hsheet : ['s'] ∈ (groupMarkers
      (names.map fun name => Script.sampleMarker (width name) name)).map (·.sheet) := by
    rw [sheets_groupMarkers, mem_distinct, List.map_map]
    exact List.mem_map.mpr ⟨first, hfirst, rfl⟩
  obtain ⟨mapping, hmapping, hsheet⟩ := List.mem_map.mp hsheet
  refine ⟨mapping, hmapping, fun name => ?_⟩
  rw [get?_of_mem_groupMarkers hmapping, hsheet, lastMarker?_sample]
  split <;> rfl

end Stylesheet

end AddonBundle
