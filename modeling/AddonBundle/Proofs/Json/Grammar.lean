import AddonBundle.Json.Reader
import AddonBundle.Proofs.Assoc
import AddonBundle.Proofs.Text
import Mathlib.Algebra.Group.Nat.Defs
/-!
# The grammar of JSON

What a text starts with and what follows it, without regard to how it is read: values, and the
items and members between brackets. Members stand as they are written, also several of one name;
`Value.settled` leaves one of each.
-/

namespace AddonBundle.Json

/-! ## Values -/

theorem Value.induction {P : Value → Prop} (null : P .null) (bool : ∀ b, P (.bool b))
    (int : ∀ n, P (.int n)) (double : ∀ d, P (.double d)) (string : ∀ s, P (.string s))
    (array : ∀ items, (∀ item ∈ items, P item) → P (.array items))
    (object : ∀ members, (∀ member ∈ members, P member.2) → P (.object members)) (v : Value) :
    P v :=
  @Value.rec P (fun items => ∀ item ∈ items, P item) (fun members => ∀ member ∈ members, P member.2)
    (fun member => P member.2) null bool int double string array object (by simp)
    (fun _ _ hitem hitems => List.forall_mem_cons.mpr ⟨hitem, hitems⟩) (by simp)
    (fun _ _ hmember hmembers => List.forall_mem_cons.mpr ⟨hmember, hmembers⟩)
    (fun _ _ hvalue => hvalue) v

/-- The values inside a value, itself included. -/
inductive Value.Within : Value → Value → Prop
  | self (v : Value) : Within v v
  | item {w item : Value} {items : List Value} (hitem : item ∈ items) (h : Within w item) :
    Within w (.array items)
  | member {w : Value} {member : CodeText × Value} {members : List (CodeText × Value)}
    (hmember : member ∈ members) (h : Within w member.2) : Within w (.object members)

/-- Every value inside a value, itself included, has a property. -/
def Value.All (P : Value → Prop) (v : Value) : Prop :=
  ∀ w, Within w v → P w

theorem Value.all_array {P : Value → Prop} {items : List Value} :
    All P (.array items) ↔ P (.array items) ∧ ∀ item ∈ items, All P item := by
  constructor
  · exact fun h => ⟨h _ (.self _), fun item hitem w hw => h w (.item hitem hw)⟩
  · rintro ⟨hself, hitems⟩ w (_ | ⟨hitem, hw⟩)
    · exact hself
    · exact hitems _ hitem w hw

theorem Value.all_object {P : Value → Prop} {members : List (CodeText × Value)} :
    All P (.object members) ↔ P (.object members) ∧ ∀ member ∈ members, All P member.2 := by
  constructor
  · exact fun h => ⟨h _ (.self _), fun member hmember w hw => h w (.member hmember hw)⟩
  · rintro ⟨hself, hmembers⟩ w (_ | _ | ⟨hmember, hw⟩)
    · exact hself
    · exact hmembers _ hmember w hw

theorem Value.all_string {P : Value → Prop} {s : CodeText} :
    All P (.string s) ↔ P (.string s) := by
  constructor
  · exact fun h => h _ (.self _)
  · rintro h w ⟨⟩
    exact h

mutual

/-- How deep arrays and objects nest. -/
def Value.depth : Value → Nat
  | .array items => depthItems items + 1
  | .object members => depthMembers members + 1
  | _ => 0

def depthItems : List Value → Nat
  | [] => 0
  | item :: items => max item.depth (depthItems items)

def depthMembers : List (CodeText × Value) → Nat
  | [] => 0
  | (_, value) :: members => max value.depth (depthMembers members)

end

mutual

/-- The value with one member of each name: the last value at the first place. -/
def Value.settled : Value → Value
  | .array items => .array (settledItems items)
  | .object members => .object (Assoc.ofList (settledMembers members))
  | v => v

def settledItems : List Value → List Value
  | [] => []
  | item :: items => item.settled :: settledItems items

def settledMembers : List (CodeText × Value) → List (CodeText × Value)
  | [] => []
  | (name, value) :: members => (name, value.settled) :: settledMembers members

end

theorem settledItems_cons (item : Value) (items : List Value) :
    settledItems (item :: items) = item.settled :: settledItems items := rfl

theorem settledMembers_cons (member : CodeText × Value) (members : List (CodeText × Value)) :
    settledMembers (member :: members) =
      (member.1, member.2.settled) :: settledMembers members := rfl

theorem depthItems_cons (item : Value) (items : List Value) :
    depthItems (item :: items) = max item.depth (depthItems items) := rfl

theorem depthMembers_cons (member : CodeText × Value) (members : List (CodeText × Value)) :
    depthMembers (member :: members) = max member.2.depth (depthMembers members) := rfl

theorem settledItems_eq (items : List Value) : settledItems items = items.map Value.settled := by
  induction items with
  | nil => rfl
  | cons item items ih => rw [settledItems_cons, ih, List.map_cons]

theorem settledMembers_eq (members : List (CodeText × Value)) :
    settledMembers members = members.map fun member => (member.1, member.2.settled) := by
  induction members with
  | nil => rfl
  | cons member members ih => rw [settledMembers_cons, ih, List.map_cons]

theorem depthItems_le {items : List Value} {levels : Nat} :
    depthItems items ≤ levels ↔ ∀ item ∈ items, item.depth ≤ levels := by
  induction items with
  | nil => exact iff_of_true (Nat.zero_le _) (List.forall_mem_nil _)
  | cons item items ih => rw [depthItems_cons, Nat.max_le, ih, List.forall_mem_cons]

theorem depthMembers_le {members : List (CodeText × Value)} {levels : Nat} :
    depthMembers members ≤ levels ↔ ∀ member ∈ members, member.2.depth ≤ levels := by
  induction members with
  | nil => exact iff_of_true (Nat.zero_le _) (List.forall_mem_nil _)
  | cons member members ih => rw [depthMembers_cons, Nat.max_le, ih, List.forall_mem_cons]

/-- Whether a value that is an integer is below the limit on the digits of integers. -/
def Value.IsShort : Value → Prop
  | .int n => n.natAbs < 10 ^ Limit.maxDigits
  | _ => True

/-- The limits of reading: on the nesting of a value and on the integers in it. -/
structure Value.Fits (levels : Nat) (v : Value) : Prop where
  depth_le : v.depth ≤ levels
  short : v.All IsShort

theorem Value.fits_array {levels : Nat} {items : List Value} :
    Fits (levels + 1) (.array items) ↔ ∀ item ∈ items, Fits levels item := by
  constructor
  · intro h item hitem
    have hdepth : depthItems items ≤ levels := Nat.le_of_succ_le_succ h.depth_le
    exact ⟨depthItems_le.mp hdepth item hitem, (all_array.mp h.short).2 item hitem⟩
  · intro h
    have hdepth : depthItems items ≤ levels := depthItems_le.mpr fun item hitem =>
      (h item hitem).depth_le
    exact ⟨Nat.succ_le_succ hdepth,
      all_array.mpr ⟨trivial, fun item hitem => (h item hitem).short⟩⟩

theorem Value.fits_object {levels : Nat} {members : List (CodeText × Value)} :
    Fits (levels + 1) (.object members) ↔ ∀ member ∈ members, Fits levels member.2 := by
  constructor
  · intro h member hmember
    have hdepth : depthMembers members ≤ levels := Nat.le_of_succ_le_succ h.depth_le
    exact ⟨depthMembers_le.mp hdepth member hmember, (all_object.mp h.short).2 member hmember⟩
  · intro h
    have hdepth : depthMembers members ≤ levels := depthMembers_le.mpr fun member hmember =>
      (h member hmember).depth_le
    exact ⟨Nat.succ_le_succ hdepth,
      all_object.mpr ⟨trivial, fun member hmember => (h member hmember).short⟩⟩

theorem Value.fits_string (levels : Nat) (s : CodeText) : Fits levels (.string s) :=
  ⟨Nat.zero_le _, all_string.mpr trivial⟩

theorem Value.not_fits_array (items : List Value) : ¬ Fits 0 (.array items) := fun h =>
  Nat.not_succ_le_zero _ h.depth_le

theorem Value.not_fits_object (members : List (CodeText × Value)) :
    ¬ Fits 0 (.object members) := fun h =>
  Nat.not_succ_le_zero _ h.depth_le

/-- A value that is written as one word or number. -/
def Value.IsScalar : Value → Prop
  | .null | .bool _ | .int _ | .double _ => True
  | _ => False

theorem Value.IsScalar.settled {v : Value} (h : v.IsScalar) : v.settled = v := by
  cases v <;> first | rfl | exact h.elim

theorem Value.IsScalar.all {P : Value → Prop} {v : Value} (h : v.IsScalar) : All P v ↔ P v := by
  constructor
  · exact fun hall => hall v (.self v)
  · rintro hself w (_ | _ | _)
    · exact hself
    · exact h.elim
    · exact h.elim

theorem Value.IsScalar.fits {v : Value} (h : v.IsScalar) (levels : Nat) :
    Fits levels v ↔ v.IsShort := by
  constructor
  · exact fun hfits => h.all.mp hfits.short
  · intro hshort
    refine ⟨?_, h.all.mpr hshort⟩
    cases v <;> first | exact Nat.zero_le _ | exact h.elim

/-! ## Settled values -/

theorem mem_ofList_settledMembers {members : List (CodeText × Value)} {member : CodeText × Value}
    (h : member ∈ Assoc.ofList (settledMembers members)) :
    ∃ raw ∈ members, member.2 = raw.2.settled := by
  rw [settledMembers_eq] at h
  obtain ⟨raw, hraw, rfl⟩ := List.mem_map.mp (Assoc.mem_ofList h)
  exact ⟨raw, hraw, rfl⟩

theorem Value.Fits.settled {v : Value} {levels : Nat} (h : v.Fits levels) :
    v.settled.Fits levels := by
  induction v using Value.induction generalizing levels with
  | null | bool | int | double | string => exact h
  | array items ih =>
      cases levels with
      | zero => exact absurd h (not_fits_array items)
      | succ levels =>
          rw [fits_array] at h
          rw [Value.settled, settledItems_eq, fits_array]
          intro item hitem
          obtain ⟨raw, hraw, rfl⟩ := List.mem_map.mp hitem
          exact ih raw hraw (h raw hraw)
  | object members ih =>
      cases levels with
      | zero => exact absurd h (not_fits_object members)
      | succ levels =>
          rw [fits_object] at h
          rw [Value.settled, fits_object]
          intro member hmember
          obtain ⟨raw, hraw, heq⟩ := mem_ofList_settledMembers hmember
          rw [heq]
          exact ih raw hraw (h raw hraw)

/-! ## Strings -/

/-- The escapes of one character, and what they stand for. -/
def shortEscapes : List (Char × Nat) :=
  [('"', 34), ('\\', 92), ('/', 47), ('b', 8), ('f', 12), ('n', 10), ('r', 13), ('t', 9)]

/-- The first half of a surrogate pair. -/
def IsHigh (unit : Nat) : Prop := 0xd800 ≤ unit ∧ unit ≤ 0xdbff

/-- The second half of a surrogate pair. -/
def IsLow (unit : Nat) : Prop := 0xdc00 ≤ unit ∧ unit ≤ 0xdfff

/-- The code point of a surrogate pair. -/
def pairPoint (high low : Nat) : CodePoint :=
  pointOf (0x10000 + (high - 0xd800) * 0x400 + (low - 0xdc00))

/-- A text starts, behind an opening quote, with a string and its closing quote. Two escapes that
are the halves of a pair are one code point. -/
inductive WritesString : Text → CodeText → Text → Prop
  | close (rest : Text) : WritesString ('"' :: rest) [] rest
  | plain {c : Char} {text rest : Text} {s : CodeText} (hquote : c ≠ '"') (hescape : c ≠ '\\')
    (hcontrol : 0x1f < c.toNat) (h : WritesString text s rest) :
    WritesString (c :: text) (CodePoint.ofChar c :: s) rest
  | short {c : Char} {n : Nat} {text rest : Text} {s : CodeText} (hc : (c, n) ∈ shortEscapes)
    (h : WritesString text s rest) : WritesString ('\\' :: c :: text) (pointOf n :: s) rest
  | unit {text rest : Text} {n : Nat} {s : CodeText} (hunit : hexUnit? (text.take 4) = some n)
    (halone : ∀ next low, text.drop 4 = '\\' :: 'u' :: next → hexUnit? (next.take 4) = some low →
      ¬ (IsHigh n ∧ IsLow low))
    (h : WritesString (text.drop 4) s rest) :
    WritesString ('\\' :: 'u' :: text) (pointOf n :: s) rest
  | pair {text next rest : Text} {high low : Nat} {s : CodeText}
    (hhigh : hexUnit? (text.take 4) = some high) (hnext : text.drop 4 = '\\' :: 'u' :: next)
    (hlow : hexUnit? (next.take 4) = some low) (hpair : IsHigh high ∧ IsLow low)
    (h : WritesString (next.drop 4) s rest) :
    WritesString ('\\' :: 'u' :: text) (pairPoint high low :: s) rest

theorem WritesString.length_lt {text rest : Text} {s : CodeText} (h : WritesString text s rest) :
    rest.length < text.length := by
  induction h with
  | close => simp
  | plain _ _ _ _ ih => simp only [List.length_cons]; omega
  | short _ _ ih => simp only [List.length_cons]; omega
  | unit _ _ _ ih =>
      simp only [List.length_drop] at ih
      simp only [List.length_cons]
      omega
  | @pair text next _ _ _ _ _ hnext _ _ _ ih =>
      have hlength := congrArg List.length hnext
      simp only [List.length_drop, List.length_cons] at hlength ih ⊢
      omega

/-- An escape by number has four digits in base sixteen, and at least the closing quote follows. -/
theorem WritesString.unit_inv {next rest : Text} {s : CodeText}
    (h : WritesString ('\\' :: 'u' :: next) s rest) :
    5 ≤ next.length ∧ ∃ n, hexUnit? (next.take 4) = some n := by
  cases h with
  | plain _ hescape => exact absurd rfl hescape
  | short hc => simp [shortEscapes] at hc
  | unit hunit _ h =>
      have hlength := h.length_lt
      rw [List.length_drop] at hlength
      exact ⟨by omega, _, hunit⟩
  | pair hhigh hnext =>
      have hlength := congrArg List.length hnext
      simp only [List.length_drop, List.length_cons] at hlength
      exact ⟨by omega, _, hhigh⟩

/-! ## Texts -/

/-- The text without the blanks at its start. -/
def dropSpace (text : Text) : Text :=
  text.dropWhile isSpace

theorem length_dropSpace_le (text : Text) : (dropSpace text).length ≤ text.length :=
  (List.dropWhile_sublist isSpace).length_le

/-- What a text can start with: a value, the items of an array with its closing bracket, or the
members of an object with its closing brace. -/
inductive Phrase where
  | value (v : Value)
  | items (vs : List Value)
  | members (ms : List (CodeText × Value))

/-- The first text starts with a phrase, and the second follows it. -/
inductive Writes : Text → Phrase → Text → Prop
  | scalar {text : Text} {v : Value} {length : Nat} (h : scalarAt text = some (v, length)) :
    Writes text (.value v) (text.drop length)
  | string {text rest : Text} {s : CodeText} (h : WritesString text s rest) :
    Writes ('"' :: text) (.value (.string s)) rest
  | emptyArray {text rest : Text} (h : dropSpace text = ']' :: rest) :
    Writes ('[' :: text) (.value (.array [])) rest
  | array {text rest : Text} {items : List Value}
      (h : Writes (dropSpace text) (.items items) rest) :
    Writes ('[' :: text) (.value (.array items)) rest
  | emptyObject {text rest : Text} (h : dropSpace text = '\x7d' :: rest) :
    Writes ('\x7b' :: text) (.value (.object [])) rest
  | object {text rest : Text} {members : List (CodeText × Value)}
    (h : Writes (dropSpace text) (.members members) rest) :
    Writes ('\x7b' :: text) (.value (.object members)) rest
  | lastItem {text behind rest : Text} {v : Value} (hvalue : Writes text (.value v) behind)
    (hclose : dropSpace behind = ']' :: rest) : Writes text (.items [v]) rest
  | item {text behind next rest : Text} {v : Value} {items : List Value}
    (hvalue : Writes text (.value v) behind) (hcomma : dropSpace behind = ',' :: next)
    (hitems : Writes (dropSpace next) (.items items) rest) : Writes text (.items (v :: items)) rest
  | lastMember {text colon next behind rest : Text} {name : CodeText} {v : Value}
    (hname : WritesString text name colon) (hcolon : dropSpace colon = ':' :: next)
    (hvalue : Writes (dropSpace next) (.value v) behind)
    (hclose : dropSpace behind = '\x7d' :: rest) : Writes ('"' :: text) (.members [(name, v)]) rest
  | member {text colon next behind more rest : Text} {name : CodeText} {v : Value}
    {members : List (CodeText × Value)} (hname : WritesString text name colon)
    (hcolon : dropSpace colon = ':' :: next) (hvalue : Writes (dropSpace next) (.value v) behind)
    (hcomma : dropSpace behind = ',' :: more)
    (hmembers : Writes (dropSpace more) (.members members) rest) :
    Writes ('"' :: text) (.members ((name, v) :: members)) rest

end AddonBundle.Json
