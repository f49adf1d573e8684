import AddonBundle.Proofs.Json.Reading
import AddonBundle.Proofs.Lines
/-!
# Texts that go beyond a limit

Reading ends at a limit only in a text that goes beyond it: one that opens more arrays and objects
than may nest, or one with more digits in a row than an integer may have.
-/

namespace AddonBundle.Json

open Text

/-! ## What is read ends the text -/

theorem dropSpace_suffix (text : Text) : dropSpace text <:+ text :=
  List.dropWhile_suffix isSpace

private theorem suffix_of_dropSpace {front back : Text} {c : Char}
    (h : dropSpace front = c :: back) : back <:+ front :=
  (List.suffix_cons c back).trans (h ▸ dropSpace_suffix front)

theorem WritesString.suffix {text rest : Text} {s : CodeText} (h : WritesString text s rest) :
    rest <:+ text := by
  induction h with
  | close rest => exact List.suffix_cons _ _
  | plain _ _ _ _ ih => exact ih.trans (List.suffix_cons _ _)
  | short _ _ ih => exact (ih.trans (List.suffix_cons _ _)).trans (List.suffix_cons _ _)
  | unit _ _ _ ih =>
      exact ((ih.trans (List.drop_suffix _ _)).trans (List.suffix_cons _ _)).trans
        (List.suffix_cons _ _)
  | @pair text next _ _ _ _ _ hnext _ _ _ ih =>
      have hbehind : next <:+ text :=
        ((List.suffix_cons _ _).trans (List.suffix_cons _ _)).trans
          (hnext ▸ List.drop_suffix 4 text)
      exact (((ih.trans (List.drop_suffix _ _)).trans hbehind).trans (List.suffix_cons _ _)).trans
        (List.suffix_cons _ _)

theorem Writes.suffix {text rest : Text} {phrase : Phrase} (h : Writes text phrase rest) :
    rest <:+ text := by
  induction h with
  | scalar => exact List.drop_suffix _ _
  | string h => exact h.suffix.trans (List.suffix_cons _ _)
  | emptyArray h | emptyObject h => exact (suffix_of_dropSpace h).trans (List.suffix_cons _ _)
  | array _ ih | object _ ih => exact (ih.trans (dropSpace_suffix _)).trans (List.suffix_cons _ _)
  | lastItem _ hclose ih => exact (suffix_of_dropSpace hclose).trans ih
  | item _ hcomma _ ihvalue ihitems =>
      exact ((ihitems.trans (dropSpace_suffix _)).trans (suffix_of_dropSpace hcomma)).trans ihvalue
  | lastMember hname hcolon _ hclose ihvalue =>
      have hbehind := (ihvalue.trans (dropSpace_suffix _)).trans (suffix_of_dropSpace hcolon)
      exact (((suffix_of_dropSpace hclose).trans hbehind).trans hname.suffix).trans
        (List.suffix_cons _ _)
  | member hname hcolon _ hcomma _ ihvalue ihmembers =>
      have hbehind := (ihvalue.trans (dropSpace_suffix _)).trans (suffix_of_dropSpace hcolon)
      have hmore := (ihmembers.trans (dropSpace_suffix _)).trans (suffix_of_dropSpace hcomma)
      exact ((hmore.trans hbehind).trans hname.suffix).trans (List.suffix_cons _ _)

/-! ## Limits -/

/-- The brackets and braces that open arrays and objects. -/
def opens (c : Char) : Bool :=
  c = '[' || c = '\x7b'

/-- A text goes beyond a limit. With so many levels of nesting left it opens more arrays and
objects, or it has more digits in a row than an integer may have. -/
def Exceeds (levels : Nat) (text : Text) : Limit → Prop
  | .nesting => levels < text.countP opens
  | .digits count =>
    Limit.maxDigits < count ∧
      ∃ run, run <:+: text ∧ run.length = count ∧ ∀ c ∈ run, isDecimal c = true

theorem Exceeds.of_suffix {levels : Nat} {back text : Text} {passed : Limit}
    (h : Exceeds levels back passed) (hback : back <:+ text) : Exceeds levels text passed := by
  cases passed with
  | nesting => exact Nat.lt_of_lt_of_le h (hback.sublist.countP_le)
  | digits count =>
      obtain ⟨hcount, run, hrun, hlength, hdigits⟩ := h
      exact ⟨hcount, run, hrun.trans hback.isInfix, hlength, hdigits⟩

/-- One level more is left in front of an opening bracket. -/
theorem Exceeds.opened {levels : Nat} {text : Text} {passed : Limit} {c : Char}
    (h : Exceeds levels text passed) (hc : opens c = true) :
    Exceeds (levels + 1) (c :: text) passed := by
  cases passed with
  | nesting =>
      rw [Exceeds, List.countP_cons_of_pos hc]
      exact Nat.succ_lt_succ h
  | digits count => exact h.of_suffix (List.suffix_cons c text)

theorem exceeds_zero {c : Char} (text : Text) (hc : opens c = true) :
    Exceeds 0 (c :: text) .nesting := by
  rw [Exceeds, List.countP_cons_of_pos hc]
  exact Nat.succ_pos _

private theorem of_map_eq_error {ε α β : Type} {f : α → β} {x : Except ε α} {e : ε}
    (h : f <$> x = .error e) : x = .error e := by
  cases x with
  | error e' => cases h; rfl
  | ok a => cases h

/-! ## Reading -/

theorem exceeds_of_readScalar {at_ : Cursor} {passed : Limit} (levels : Nat)
    (h : readScalar at_ = .error (.limit passed)) : Exceeds levels at_.rest passed := by
  rw [readScalar] at h
  split at h
  · cases h
  · rename_i value length hscalar
    split at h
    · rename_i limit hlimit
      cases h
      cases value with
      | int n =>
          have hnumber := numberAt_of_scalarAt hscalar
          obtain ⟨sign, unsigned, hsigned⟩ := exists_isSigned at_.rest
          have hwhole := isNumeral_wholeAt ((numberAt_eq_int hsigned).mp hnumber).1
          have hrun : wholeAt unsigned <:+: at_.rest := by
            rw [hsigned.eq_append]
            exact (isPrefix_wholeAt unsigned).isInfix.trans (List.suffix_append _ _).isInfix
          rw [limitOf?, filter_take_of_numberAt hsigned hnumber, Limit.ofDigits?] at hlimit
          split at hlimit
          · rename_i hcount
            cases hlimit
            exact ⟨hcount, _, hrun, rfl, fun c hc =>
              (isDecimal_eq_isDigit c).trans (hwhole.isDigit c hc)⟩
          · cases hlimit
      | _ => cases hlimit
    · cases h

/-- A limit that is met in so many steps is exceeded. -/
structure LimitedTo (fuel : Nat) : Prop where
  value : ∀ {levels at_ passed}, readValue fuel levels at_ = .error (.limit passed) →
    Exceeds levels at_.rest passed
  items : ∀ {levels at_ passed}, readItems fuel levels at_ = .error (.limit passed) →
    Exceeds levels at_.rest passed
  members : ∀ {levels map at_ passed}, readMembers fuel levels map at_ = .error (.limit passed) →
    Exceeds levels at_.rest passed

variable {fuel levels : Nat} {at_ : Cursor} {passed : Limit}

theorem LimitedTo.value_succ (ih : LimitedTo fuel)
    (h : readValue (fuel + 1) levels at_ = .error (.limit passed)) :
    Exceeds levels at_.rest passed := by
  by_cases hstring : at_.rest.head? = some '"'
  · obtain ⟨text, hrest⟩ := List.head?_eq_some_iff.mp hstring
    rw [readValue_string hrest] at h
    split at h <;> cases h
  by_cases harray : at_.rest.head? = some '['
  · obtain ⟨text, hrest⟩ := List.head?_eq_some_iff.mp harray
    rw [hrest]
    cases levels with
    | zero =>
        rw [readValue_array_zero hrest] at h
        cases h
        exact exceeds_zero text rfl
    | succ levels =>
        rw [readValue_array hrest] at h
        split at h
        · cases h
        · have hitems := ih.items (of_map_eq_error h)
          rw [skipSpace_behind hrest] at hitems
          exact (hitems.of_suffix (dropSpace_suffix text)).opened rfl
  by_cases hobject : at_.rest.head? = some '\x7b'
  · obtain ⟨text, hrest⟩ := List.head?_eq_some_iff.mp hobject
    rw [hrest]
    cases levels with
    | zero =>
        rw [readValue_object_zero hrest] at h
        cases h
        exact exceeds_zero text rfl
    | succ levels =>
        rw [readValue_object hrest] at h
        split at h
        · cases h
        · have hmembers := ih.members (of_map_eq_error h)
          rw [skipSpace_behind hrest] at hmembers
          exact (hmembers.of_suffix (dropSpace_suffix text)).opened rfl
  · rw [readValue_scalar hstring harray hobject] at h
    exact exceeds_of_readScalar levels h

theorem LimitedTo.items_succ (ih : LimitedTo fuel)
    (h : readItems (fuel + 1) levels at_ = .error (.limit passed)) :
    Exceeds levels at_.rest passed := by
  rw [readItems] at h
  split at h
  · rename_i error hvalue
    cases h
    exact ih.value hvalue
  · rename_i v behind hread
    obtain ⟨raw, hwrites, -⟩ := (soundTo fuel).value hread
    dsimp only at h
    split at h
    · cases h
    · rename_i next hcomma
      have hitems := ih.items (of_map_eq_error h)
      rw [skipSpace_rest, advance_rest hcomma] at hitems
      rw [skipSpace_rest] at hcomma
      exact hitems.of_suffix
        (((dropSpace_suffix next).trans (suffix_of_dropSpace hcomma)).trans hwrites.suffix)
    · cases h

theorem LimitedTo.members_succ {map : List (CodeText × Value)} (ih : LimitedTo fuel)
    (h : readMembers (fuel + 1) levels map at_ = .error (.limit passed)) :
    Exceeds levels at_.rest passed := by
  rw [readMembers] at h
  split at h
  · rename_i text hrest
    split at h
    · cases h
    · rename_i name colon hname
      have hwritesName := writesString_of_readString hname
      rw [advance_rest hrest] at hwritesName
      have hafterName : colon.rest <:+ at_.rest :=
        hrest ▸ hwritesName.suffix.trans (List.suffix_cons _ _)
      dsimp only at h
      split at h
      · rename_i next hcolon
        have hnext : dropSpace next <:+ at_.rest := by
          rw [skipSpace_rest] at hcolon
          exact ((dropSpace_suffix next).trans (suffix_of_dropSpace hcolon)).trans hafterName
        split at h
        · rename_i error hvalue
          cases h
          have hexceeds := ih.value hvalue
          rw [skipSpace_rest, advance_rest hcolon] at hexceeds
          exact hexceeds.of_suffix hnext
        · rename_i v behind hread
          obtain ⟨raw, hwrites, -⟩ := (soundTo fuel).value hread
          rw [skipSpace_rest, advance_rest hcolon] at hwrites
          split at h
          · cases h
          · rename_i more hcomma
            have hmembers := ih.members h
            rw [skipSpace_rest, advance_rest hcomma] at hmembers
            rw [skipSpace_rest] at hcomma
            exact hmembers.of_suffix
              ((((dropSpace_suffix more).trans (suffix_of_dropSpace hcomma)).trans
                hwrites.suffix).trans hnext)
          · cases h
      · cases h
  · cases h

end AddonBundle.Json
