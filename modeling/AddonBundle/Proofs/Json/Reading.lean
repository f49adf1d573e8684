import AddonBundle.Proofs.Json.Grammar
import AddonBundle.Proofs.Json.Number
/-!
# Reading what is written

A text is read exactly when the grammar gives it a value within the limits, and what is read is that
value with one member of each name.
-/

namespace AddonBundle.Json

open Text

/-! ## Words and numbers -/

/-- The characters that words and numbers start with. -/
def startsScalar (c : Char) : Bool :=
  c.isDigit || c ∈ "-ntfNI".toList

private theorem number_of_numberAt {text : Text} {v : Value} {length : Nat}
    (h : numberAt text = some (v, length)) :
    v.IsScalar ∧ 0 < length ∧ ∀ c ∈ text.head?, startsScalar c = true := by
  obtain ⟨sign, unsigned, hsigned⟩ := exists_isSigned text
  have hunsigned : text.drop sign.length = unsigned := by
    rw [hsigned.eq_append, List.drop_left]
  simp only [numberAt, ← hsigned.sign_eq, hunsigned] at h
  rw [show (if unsigned.head? = some '0' then ['0'] else digitsAt unsigned) = wholeAt unsigned
    from rfl] at h
  split at h
  · cases h
  · rename_i hwhole
    have hne : wholeAt unsigned ≠ [] := by simpa using hwhole
    have hpos := List.length_pos_iff.mpr hne
    refine ⟨?_, ?_, fun c hc => ?_⟩
    · split at h <;> (cases h; trivial)
    · split at h <;> (cases h; omega)
    · rw [startsScalar]
      by_cases hminus : text.head? = some '-'
      · obtain rfl : '-' = c := by simpa [hminus] using hc
        rfl
      · have htext : text = unsigned := by
          rw [hsigned.eq_append, hsigned.sign_eq, if_neg hminus, List.nil_append]
        obtain ⟨behind, hbehind⟩ := isPrefix_wholeAt unsigned
        rw [htext, ← hbehind, List.head?_append_of_ne_nil _ hne] at hc
        rw [(isNumeral_wholeAt hne).isDigit c (List.mem_of_mem_head? hc), Bool.true_or]

/-- What a word or number is, how long it is at least, and what it starts with. -/
theorem scalar_of_scalarAt {text : Text} {v : Value} {length : Nat}
    (h : scalarAt text = some (v, length)) :
    v.IsScalar ∧ 0 < length ∧ ∃ c rest, text = c :: rest ∧ startsScalar c = true := by
  rw [scalarAt] at h
  split at h
  · rename_i word value hfind
    cases h
    have hprefix : word.isPrefixOf text = true := by simpa using List.find?_some hfind
    obtain ⟨rest, hrest⟩ := List.isPrefixOf_iff_prefix.mp hprefix
    have hmem := List.mem_of_find?_eq_some hfind
    clear hfind hprefix
    simp only [words, List.mem_cons, Prod.mk.injEq, List.not_mem_nil, or_false] at hmem
    obtain ⟨rfl, rfl⟩ | ⟨rfl, rfl⟩ | ⟨rfl, rfl⟩ | ⟨rfl, rfl⟩ | ⟨rfl, rfl⟩ | ⟨rfl, rfl⟩ := hmem <;>
      exact ⟨trivial, by decide, _, _, hrest.symm, by decide⟩
  · obtain ⟨hscalar, hpos, hhead⟩ := number_of_numberAt h
    refine ⟨hscalar, hpos, ?_⟩
    cases text with
    | nil => cases h
    | cons c rest => exact ⟨c, rest, rfl, hhead c rfl⟩

theorem numberAt_of_scalarAt {text : Text} {n : Int} {length : Nat}
    (h : scalarAt text = some (.int n, length)) : numberAt text = some (.int n, length) := by
  rw [scalarAt] at h
  split at h
  · rename_i hfind
    have hmem := List.mem_of_find?_eq_some hfind
    cases h
    simp [words] at hmem
  · exact h

/-- A word or number is read exactly when it keeps to the limits. -/
theorem limitOf?_eq_none_iff {text : Text} {v : Value} {length : Nat}
    (h : scalarAt text = some (v, length)) (levels : Nat) :
    limitOf? v (text.take length) = none ↔ v.Fits levels := by
  rw [(scalar_of_scalarAt h).1.fits levels]
  cases v with
  | int n => exact limitOf?_eq_none (numberAt_of_scalarAt h)
  | _ => simp [limitOf?, Value.IsShort]

/-! ## Strings -/

private theorem isPrefixOf_unit {text : Text} (h : "\\u".toList.isPrefixOf text = true) :
    ∃ next, text = '\\' :: 'u' :: next := by
  obtain ⟨next, hnext⟩ := List.isPrefixOf_iff_prefix.mp h
  exact ⟨next, hnext.symm⟩

private theorem drop_pair {text next : Text} (h : text.drop 4 = '\\' :: 'u' :: next) :
    ('u' :: text).drop 11 = next.drop 4 := by
  have hnext : next = (text.drop 4).drop 2 := by rw [h]; rfl
  rw [hnext, List.drop_drop, List.drop_drop]
  rfl

private theorem writesString_of_readEscape {pos length : Nat} {text rest : Text} {p : CodePoint}
    {s : CodeText} (h : readEscape pos text = .ok (p, length))
    (hrest : WritesString (text.drop length) s rest) :
    WritesString ('\\' :: text) (p :: s) rest := by
  unfold readEscape at h
  split at h
  · cases h
  · rename_i text
    split at h
    · cases h
    · split at h
      · cases h
      · rename_i unit hunit
        dsimp only at h
        split at h
        · rename_i hcondition
          simp only [Bool.and_eq_true, decide_eq_true_eq] at hcondition
          obtain ⟨⟨hhigh, -⟩, hprefix⟩ := hcondition
          obtain ⟨next, hnext⟩ := isPrefixOf_unit hprefix
          have hbehind : (text.drop 4).drop 2 = next := by rw [hnext]; rfl
          rw [hbehind] at h
          split at h
          · cases h
          · rename_i low hlow
            split at h <;> simp only [Except.ok.injEq, Prod.mk.injEq] at h <;>
              obtain ⟨rfl, rfl⟩ := h
            · rename_i hrange
              rw [drop_pair hnext] at hrest
              exact .pair hunit hnext hlow ⟨hhigh, by simpa [IsLow] using hrange⟩ hrest
            · rename_i hrange
              refine .unit hunit (fun next' low' hnext' hlow' hpair => hrange ?_) hrest
              obtain rfl : next = next' := by simpa [hnext] using hnext'
              obtain rfl : low = low' := by simpa [hlow] using hlow'
              simpa [IsLow] using hpair.2
        · rename_i hcondition
          simp only [Except.ok.injEq, Prod.mk.injEq] at h
          obtain ⟨rfl, rfl⟩ := h
          refine .unit hunit (fun next low hnext hlow hpair => hcondition ?_) hrest
          have hfollows : WritesString ('\\' :: 'u' :: next) s rest := hnext ▸ hrest
          have hlength : 7 ≤ (text.drop 4).length := by
            rw [hnext, List.length_cons, List.length_cons]
            have := hfollows.unit_inv.1
            omega
          rw [hnext] at hlength ⊢
          simp only [hpair.1.1, hpair.1.2, hlength, decide_true, Bool.and_self, Bool.true_and]
          rfl
  · rename_i c text hc
    split at h <;> simp only [Except.ok.injEq, Prod.mk.injEq, reduceCtorEq] at h <;>
      obtain ⟨rfl, rfl⟩ := h <;> exact .short (by simp [shortEscapes]) hrest

private theorem exists_of_map_eq_ok {ε α β : Type} {f : α → β} {x : Except ε α} {b : β}
    (h : f <$> x = .ok b) : ∃ a, x = .ok a ∧ f a = b := by
  cases x with
  | error => cases h
  | ok a =>
      cases h
      exact ⟨a, rfl, rfl⟩

/-- What is read as a string is written there. -/
theorem writesString_of_readString {opening : Nat} {at_ behind : Cursor} {s : CodeText}
    (h : readString opening at_ = .ok (s, behind)) : WritesString at_.rest s behind.rest := by
  fun_induction readString opening at_ generalizing s behind with
  | case1 | case3 | case4 | case6 => cases h
  | case2 at_ rest hrest =>
      cases h
      rw [hrest]
      exact .close rest
  | case5 at_ rest _ point length hescape hrest _ ih =>
      obtain ⟨⟨points, last⟩, hread, heq⟩ := exists_of_map_eq_ok h
      cases heq
      rw [hrest]
      exact writesString_of_readEscape hescape (ih hread)
  | case7 at_ c rest hrest hquote hescape hcontrol ih =>
      obtain ⟨⟨points, last⟩, hread, heq⟩ := exists_of_map_eq_ok h
      cases heq
      rw [hrest]
      exact .plain hquote hescape (Nat.lt_of_not_le hcontrol) (ih hread)

theorem skipSpace_rest (at_ : Cursor) : at_.skipSpace.rest = dropSpace at_.rest := by
  have hdrop : (at_.rest.takeWhile isSpace ++ at_.rest.dropWhile isSpace).drop
      (at_.rest.takeWhile isSpace).length = at_.rest.dropWhile isSpace := List.drop_left
  rwa [List.takeWhile_append_dropWhile] at hdrop

theorem advance_rest {at_ : Cursor} {c : Char} {rest : Text} (h : at_.rest = c :: rest) :
    (at_.advance 1).rest = rest := by
  rw [Cursor.advance, h]
  rfl

/-- The members put one after the other into a map. -/
def putAll (members map : List (CodeText × Value)) : List (CodeText × Value) :=
  members.foldl (fun map p => Assoc.put p.1 p.2 map) map

/-- Whatever is read in so many steps is written there, keeps to the limits, and is read settled. -/
structure SoundTo (fuel : Nat) : Prop where
  value : ∀ {levels at_ v behind}, readValue fuel levels at_ = .ok (v, behind) →
    ∃ raw, Writes at_.rest (.value raw) behind.rest ∧ raw.Fits levels ∧ v = raw.settled
  items : ∀ {levels at_ vs behind}, readItems fuel levels at_ = .ok (vs, behind) →
    ∃ raws, Writes at_.rest (.items raws) behind.rest ∧ (∀ raw ∈ raws, raw.Fits levels) ∧
      vs = settledItems raws
  members : ∀ {levels map at_ ms behind}, readMembers fuel levels map at_ = .ok (ms, behind) →
    ∃ raws, Writes at_.rest (.members raws) behind.rest ∧ (∀ raw ∈ raws, raw.2.Fits levels) ∧
      ms = putAll (settledMembers raws) map

private theorem scalar_of_readScalar {at_ behind : Cursor} {v : Value} (levels : Nat)
    (h : readScalar at_ = .ok (v, behind)) :
    ∃ raw, Writes at_.rest (.value raw) behind.rest ∧ raw.Fits levels ∧ v = raw.settled := by
  rw [readScalar] at h
  split at h
  · cases h
  · rename_i value length hscalar
    split at h
    · cases h
    · rename_i hlimit
      cases h
      exact ⟨v, .scalar hscalar, (limitOf?_eq_none_iff hscalar levels).mp hlimit,
        (scalar_of_scalarAt hscalar).1.settled.symm⟩

section

variable {fuel levels : Nat} {at_ : Cursor} {text : Text}

theorem readValue_string (h : at_.rest = '"' :: text) :
    readValue (fuel + 1) levels at_ =
      match readString at_.pos (at_.advance 1) with
      | .error fault => .error (.malformed fault)
      | .ok (s, behind) => .ok (.string s, behind) := by
  obtain ⟨rest, pos⟩ := at_
  obtain rfl : rest = _ := h
  rfl

theorem readValue_array_zero (h : at_.rest = '[' :: text) :
    readValue (fuel + 1) 0 at_ = .error (.limit .nesting) := by
  simp only [readValue, h]

theorem readValue_object_zero (h : at_.rest = '\x7b' :: text) :
    readValue (fuel + 1) 0 at_ = .error (.limit .nesting) := by
  simp only [readValue, h]

theorem readValue_array (h : at_.rest = '[' :: text) :
    readValue (fuel + 1) (levels + 1) at_ =
      match (at_.advance 1).skipSpace.rest with
      | ']' :: _ => .ok (.array [], (at_.advance 1).skipSpace.advance 1)
      | _ => (fun r => (.array r.1, r.2)) <$> readItems fuel levels (at_.advance 1).skipSpace := by
  obtain ⟨rest, pos⟩ := at_
  obtain rfl : rest = _ := h
  rfl

theorem readValue_object (h : at_.rest = '\x7b' :: text) :
    readValue (fuel + 1) (levels + 1) at_ =
      match (at_.advance 1).skipSpace.rest with
      | '\x7d' :: _ => .ok (.object [], (at_.advance 1).skipSpace.advance 1)
      | _ => (fun r => (.object r.1, r.2)) <$>
          readMembers fuel levels [] (at_.advance 1).skipSpace := by
  obtain ⟨rest, pos⟩ := at_
  obtain rfl : rest = _ := h
  rfl

theorem readValue_scalar (hstring : at_.rest.head? ≠ some '"')
    (harray : at_.rest.head? ≠ some '[') (hobject : at_.rest.head? ≠ some '\x7b') :
    readValue (fuel + 1) levels at_ = readScalar at_ := by
  cases hrest : at_.rest with
  | nil => simp only [readValue, hrest]
  | cons c text =>
      simp only [hrest, List.head?_cons, ne_eq, Option.some.injEq] at hstring harray hobject
      simp [readValue, hrest, hstring, harray, hobject]

end

/-- A value that is read stands there within the limits, and has one member of each name left. -/
private def IsSound (at_ behind : Cursor) (levels : Nat) (v : Value) : Prop :=
  ∃ raw, Writes at_.rest (.value raw) behind.rest ∧ raw.Fits levels ∧ v = raw.settled

section

variable {fuel levels : Nat} {at_ behind : Cursor} {text : Text} {c : Char} {v : Value}

private theorem isSound_string (hrest : at_.rest = '"' :: text)
    (h : readValue (fuel + 1) levels at_ = .ok (v, behind)) : IsSound at_ behind levels v := by
  rw [readValue_string hrest] at h
  split at h
  · cases h
  · rename_i s last hread
    cases h
    have hwrites := writesString_of_readString hread
    rw [advance_rest hrest] at hwrites
    exact ⟨.string s, hrest ▸ .string hwrites, Value.fits_string levels s, rfl⟩

theorem skipSpace_behind (hrest : at_.rest = c :: text) :
    (at_.advance 1).skipSpace.rest = dropSpace text := by
  rw [skipSpace_rest, advance_rest hrest]

private theorem isSound_array (ih : SoundTo fuel) (hrest : at_.rest = '[' :: text)
    (h : readValue (fuel + 1) levels at_ = .ok (v, behind)) : IsSound at_ behind levels v := by
  cases levels with
  | zero =>
      rw [readValue_array_zero hrest] at h
      cases h
  | succ levels =>
      rw [readValue_array hrest] at h
      split at h
      · rename_i rest hclose
        cases h
        rw [IsSound, hrest, advance_rest hclose]
        rw [skipSpace_behind hrest] at hclose
        exact ⟨.array [], .emptyArray hclose, Value.fits_array.mpr (by simp), rfl⟩
      · obtain ⟨⟨vs, last⟩, hread, heq⟩ := exists_of_map_eq_ok h
        cases heq
        obtain ⟨raws, hwrites, hfits, rfl⟩ := ih.items hread
        rw [skipSpace_behind hrest] at hwrites
        rw [IsSound, hrest]
        exact ⟨.array raws, .array hwrites, Value.fits_array.mpr hfits, rfl⟩

private theorem isSound_object (ih : SoundTo fuel) (hrest : at_.rest = '\x7b' :: text)
    (h : readValue (fuel + 1) levels at_ = .ok (v, behind)) : IsSound at_ behind levels v := by
  cases levels with
  | zero =>
      rw [readValue_object_zero hrest] at h
      cases h
  | succ levels =>
      rw [readValue_object hrest] at h
      split at h
      · rename_i rest hclose
        cases h
        rw [IsSound, hrest, advance_rest hclose]
        rw [skipSpace_behind hrest] at hclose
        exact ⟨.object [], .emptyObject hclose, Value.fits_object.mpr (by simp), rfl⟩
      · obtain ⟨⟨ms, last⟩, hread, heq⟩ := exists_of_map_eq_ok h
        cases heq
        obtain ⟨raws, hwrites, hfits, rfl⟩ := ih.members hread
        rw [skipSpace_behind hrest] at hwrites
        rw [IsSound, hrest]
        exact ⟨.object raws, .object hwrites, Value.fits_object.mpr hfits, rfl⟩

theorem SoundTo.value_succ (ih : SoundTo fuel)
    (h : readValue (fuel + 1) levels at_ = .ok (v, behind)) :
    ∃ raw, Writes at_.rest (.value raw) behind.rest ∧ raw.Fits levels ∧ v = raw.settled := by
  by_cases hstring : at_.rest.head? = some '"'
  · obtain ⟨text, hrest⟩ := List.head?_eq_some_iff.mp hstring
    exact isSound_string hrest h
  by_cases harray : at_.rest.head? = some '['
  · obtain ⟨text, hrest⟩ := List.head?_eq_some_iff.mp harray
    exact isSound_array ih hrest h
  by_cases hobject : at_.rest.head? = some '\x7b'
  · obtain ⟨text, hrest⟩ := List.head?_eq_some_iff.mp hobject
    exact isSound_object ih hrest h
  · rw [readValue_scalar hstring harray hobject] at h
    exact scalar_of_readScalar levels h

end

theorem SoundTo.items_succ {fuel levels : Nat} {at_ behind : Cursor} {vs : List Value}
    (ih : SoundTo fuel) (h : readItems (fuel + 1) levels at_ = .ok (vs, behind)) :
    ∃ raws, Writes at_.rest (.items raws) behind.rest ∧ (∀ raw ∈ raws, raw.Fits levels) ∧
      vs = settledItems raws := by
  rw [readItems] at h
  split at h
  · cases h
  · rename_i v last hread
    obtain ⟨raw, hwrites, hfits, rfl⟩ := ih.value hread
    dsimp only at h
    split at h
    · rename_i rest hclose
      cases h
      rw [advance_rest hclose]
      rw [skipSpace_rest] at hclose
      exact ⟨[raw], .lastItem hwrites hclose, by simpa using hfits, rfl⟩
    · rename_i next hcomma
      obtain ⟨⟨vs, last⟩, hread, heq⟩ := exists_of_map_eq_ok h
      cases heq
      obtain ⟨raws, hmore, hfitsMore, rfl⟩ := ih.items hread
      rw [skipSpace_rest, advance_rest hcomma] at hmore
      rw [skipSpace_rest] at hcomma
      exact ⟨raw :: raws, .item hwrites hcomma hmore, List.forall_mem_cons.mpr ⟨hfits, hfitsMore⟩,
        rfl⟩
    · cases h

theorem SoundTo.members_succ {fuel levels : Nat} {map ms : List (CodeText × Value)}
    {at_ behind : Cursor} (ih : SoundTo fuel)
    (h : readMembers (fuel + 1) levels map at_ = .ok (ms, behind)) :
    ∃ raws, Writes at_.rest (.members raws) behind.rest ∧ (∀ raw ∈ raws, raw.2.Fits levels) ∧
      ms = putAll (settledMembers raws) map := by
  rw [readMembers] at h
  split at h
  · rename_i text hrest
    split at h
    · cases h
    · rename_i name colon hname
      have hwritesName := writesString_of_readString hname
      rw [advance_rest hrest] at hwritesName
      dsimp only at h
      split at h
      · rename_i next hcolon
        split at h
        · cases h
        · rename_i v last hread
          obtain ⟨raw, hwrites, hfits, rfl⟩ := ih.value hread
          rw [skipSpace_rest, advance_rest hcolon] at hwrites
          rw [skipSpace_rest] at hcolon
          rw [hrest]
          split at h
          · rename_i rest hclose
            cases h
            rw [advance_rest hclose]
            rw [skipSpace_rest] at hclose
            exact ⟨[(name, raw)], .lastMember hwritesName hcolon hwrites hclose,
              by simpa using hfits, rfl⟩
          · rename_i more hcomma
            obtain ⟨raws, hmore, hfitsMore, rfl⟩ := ih.members h
            rw [skipSpace_rest, advance_rest hcomma] at hmore
            rw [skipSpace_rest] at hcomma
            exact ⟨(name, raw) :: raws, .member hwritesName hcolon hwrites hcomma hmore,
              List.forall_mem_cons.mpr ⟨hfits, hfitsMore⟩, rfl⟩
          · cases h
      · cases h
  · cases h

theorem soundTo (fuel : Nat) : SoundTo fuel := by
  induction fuel with
  | zero =>
      constructor
      · intro levels at_ v behind h
        cases h
      · intro levels at_ vs behind h
        cases h
      · intro levels map at_ ms behind h
        cases h
  | succ fuel ih => exact ⟨ih.value_succ, ih.items_succ, ih.members_succ⟩

/-! ## What is written is read -/

private theorem length_lt_of_dropSpace {front back : Text} {c : Char}
    (h : dropSpace front = c :: back) : back.length < front.length := by
  have hle := length_dropSpace_le front
  rw [h, List.length_cons] at hle
  omega

theorem Writes.length_lt {text rest : Text} {phrase : Phrase} (h : Writes text phrase rest) :
    rest.length < text.length := by
  induction h with
  | scalar h =>
      obtain ⟨-, hpos, c, behind, rfl, -⟩ := scalar_of_scalarAt h
      rw [List.length_drop, List.length_cons]
      omega
  | string h => exact Nat.lt_succ_of_lt h.length_lt
  | emptyArray h | emptyObject h => exact Nat.lt_succ_of_lt (length_lt_of_dropSpace h)
  | array _ ih | object _ ih => exact Nat.lt_succ_of_lt (ih.trans_le (length_dropSpace_le _))
  | lastItem _ hclose ih => exact (length_lt_of_dropSpace hclose).trans ih
  | item _ hcomma _ ihvalue ihitems =>
      exact ihitems.trans_le
        ((length_dropSpace_le _).trans ((length_lt_of_dropSpace hcomma).trans ihvalue).le)
  | lastMember hname hcolon _ hclose ihvalue =>
      have hvalue := ihvalue.trans_le (length_dropSpace_le _)
      exact Nat.lt_succ_of_lt ((length_lt_of_dropSpace hclose).trans
        (hvalue.trans ((length_lt_of_dropSpace hcolon).trans hname.length_lt)))
  | member hname hcolon _ hcomma _ ihvalue ihmembers =>
      have hvalue := ihvalue.trans_le (length_dropSpace_le _)
      have hmembers := ihmembers.trans_le (length_dropSpace_le _)
      exact Nat.lt_succ_of_lt (hmembers.trans ((length_lt_of_dropSpace hcomma).trans
        (hvalue.trans ((length_lt_of_dropSpace hcolon).trans hname.length_lt))))

/-- Reading ends with a result and leaves a text. -/
def Gives {α : Type} (outcome : Except ReadError (α × Cursor)) (result : α) (rest : Text) : Prop :=
  ∃ pos, outcome = .ok (result, ⟨rest, pos⟩)

/-- A phrase within the limits is read from the first text, with the second left, in as many steps
as the first text calls for. -/
def Phrase.IsRead (text rest : Text) : Phrase → Prop
  | .value raw => ∀ fuel levels pos, 2 * text.length + 1 ≤ fuel → raw.Fits levels →
    Gives (readValue fuel levels ⟨text, pos⟩) raw.settled rest
  | .items raws => ∀ fuel levels pos, 2 * text.length + 2 ≤ fuel →
    (∀ raw ∈ raws, raw.Fits levels) →
    Gives (readItems fuel levels ⟨text, pos⟩) (settledItems raws) rest
  | .members raws => ∀ fuel levels pos map, 2 * text.length + 2 ≤ fuel →
    (∀ raw ∈ raws, raw.2.Fits levels) →
    Gives (readMembers fuel levels map ⟨text, pos⟩) (putAll (settledMembers raws) map) rest

private theorem Gives.map {α β : Type} {outcome : Except ReadError (α × Cursor)} {result : α}
    {rest : Text} (h : Gives outcome result rest) (f : α → β) :
    Gives ((fun r => (f r.1, r.2)) <$> outcome) (f result) rest := by
  obtain ⟨pos, rfl⟩ := h
  exact ⟨pos, rfl⟩

end AddonBundle.Json
