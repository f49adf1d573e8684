import AddonBundle.Proofs.Text
import AddonBundle.Stylesheet.Block
/-!
# Brackets of a stylesheet

In a nested stylesheet every string is closed before its line ends, and outside strings round and
curly brackets nest properly. The bodies of its blocks are then nested too, and every segment of a
body is nested and has no semicolon and no curly bracket of its own outside all brackets.
-/

namespace AddonBundle.Stylesheet

open Text

/-! ## Places -/

/-- Where a scan stands: with regard to strings, and inside which open brackets, innermost first. -/
structure Place where
  quoting : Quoting
  opened : List Char
deriving Repr, DecidableEq

/-- Outside strings and brackets. -/
def Place.outside : Place := ⟨.bare, []⟩

/-- The bracket that a closing one belongs to. -/
def opener? (c : Char) : Option Char :=
  if c = ')' then some '(' else if c = '\x7d' then some '\x7b' else none

/-- Whether the line ends inside a string here. -/
def Quoting.breaksAt (quoting : Quoting) (c : Char) : Bool :=
  match quoting with
  | .inside _ => c = '\n'
  | _ => false

/-- The place behind a character, unless a bracket is closed that was not opened last or a string
goes on to the end of its line. -/
def Place.step (place : Place) (c : Char) : Option Place :=
  if place.quoting.isStructure c then
    if c = '(' || c = '\x7b' then some ⟨.bare, c :: place.opened⟩
    else
      match opener? c with
      | none => some ⟨.bare, place.opened⟩
      | some opener =>
        match place.opened with
        | [] => none
        | last :: outer => if last = opener then some ⟨.bare, outer⟩ else none
  else if place.quoting.breaksAt c then none
  else some ⟨place.quoting.step c, place.opened⟩

/-- The ways to go on by a character. -/
inductive Place.Step : Place → Char → Place → Prop
  | quoted {quoting : Quoting} {opened : List Char} {c : Char}
    (hstructure : quoting.isStructure c = false) (hline : quoting.breaksAt c = false) :
    Step ⟨quoting, opened⟩ c ⟨quoting.step c, opened⟩
  | opening {opened : List Char} {c : Char} (hc : c = '(' ∨ c = '\x7b') :
    Step ⟨.bare, opened⟩ c ⟨.bare, c :: opened⟩
  | closing {outer : List Char} {c opener : Char} (hc : opener? c = some opener) :
    Step ⟨.bare, opener :: outer⟩ c ⟨.bare, outer⟩
  | plain {opened : List Char} {c : Char} (hstructure : Quoting.bare.isStructure c = true)
    (hround : c ≠ '(') (hcurly : c ≠ '\x7b') (hc : opener? c = none) :
    Step ⟨.bare, opened⟩ c ⟨.bare, opened⟩

theorem eq_bare_of_isStructure {quoting : Quoting} {c : Char} (h : quoting.isStructure c = true) :
    quoting = .bare := by
  rw [Quoting.isStructure, Bool.and_eq_true] at h
  exact of_decide_eq_true h.1

theorem Place.step_of_eq_some {place next : Place} {c : Char} (h : place.step c = some next) :
    place.Step c next := by
  obtain ⟨quoting, opened⟩ := place
  unfold Place.step at h
  dsimp only at h
  split at h
  · rename_i hstructure
    obtain rfl := eq_bare_of_isStructure hstructure
    split at h
    · rename_i hopen
      cases h
      exact .opening (by simpa using hopen)
    · rename_i hopen
      rw [Bool.or_eq_true, decide_eq_true_eq, decide_eq_true_eq, not_or] at hopen
      split at h
      · rename_i hnone
        cases h
        exact .plain hstructure hopen.1 hopen.2 hnone
      · rename_i opener hopener
        split at h
        · cases h
        · split at h
          · rename_i hlast
            cases h
            exact .closing (hlast ▸ hopener)
          · cases h
  · rename_i hstructure
    split at h
    · cases h
    · rename_i hline
      cases h
      exact .quoted (by simpa using hstructure) (by simpa using hline)

theorem Place.Step.eq_some {place next : Place} {c : Char} (h : place.Step c next) :
    place.step c = some next := by
  cases h with
  | quoted hstructure hline => simp [Place.step, hstructure, hline]
  | opening hc => rcases hc with rfl | rfl <;> rfl
  | @closing outer c opener hc =>
      unfold opener? at hc
      split at hc
      · rename_i heq
        cases hc
        subst heq
        rfl
      · split at hc
        · rename_i heq
          cases hc
          subst heq
          rfl
        · cases hc
  | plain hstructure hround hcurly hc => simp [Place.step, hstructure, hround, hcurly, hc]

theorem Place.step_eq_some_iff {place next : Place} {c : Char} :
    place.step c = some next ↔ place.Step c next :=
  ⟨step_of_eq_some, Step.eq_some⟩

theorem opener?_eq_some {c opener : Char} (h : opener? c = some opener) :
    (c = ')' ∧ opener = '(') ∨ (c = '\x7d' ∧ opener = '\x7b') := by
  unfold opener? at h
  split at h
  · cases h
    exact .inl ⟨‹_›, rfl⟩
  · split at h
    · cases h
      exact .inr ⟨‹_›, rfl⟩
    · cases h

theorem opener?_eq_none {c : Char} (h : opener? c = none) : c ≠ ')' ∧ c ≠ '\x7d' := by
  unfold opener? at h
  split at h
  · cases h
  · split at h
    · cases h
    · exact ⟨‹_›, ‹_›⟩

theorem Place.Step.quoting_eq {place next : Place} {c : Char} (h : place.Step c next) :
    next.quoting = place.quoting.step c := by
  cases h with
  | quoted hstructure hline => rfl
  | opening hc => rcases hc with rfl | rfl <;> rfl
  | closing hc => rcases opener?_eq_some hc with ⟨rfl, -⟩ | ⟨rfl, -⟩ <;> rfl
  | plain hstructure hround hcurly hc =>
      rw [Quoting.isStructure, Bool.and_eq_true] at hstructure
      exact (of_decide_eq_true hstructure.2).symm

theorem Place.Step.bare_of_isStructure {place next : Place} {c : Char} (h : place.Step c next)
    (hstructure : place.quoting.isStructure c = true) : next.quoting = .bare := by
  rw [h.quoting_eq]
  have hbare := eq_bare_of_isStructure hstructure
  rw [Quoting.isStructure, Bool.and_eq_true] at hstructure
  exact of_decide_eq_true hstructure.2

/-- Inside more brackets a step is the same, or closes the innermost of these. -/
theorem Place.Step.of_append {quoting : Quoting} {inner outer : List Char} {c : Char} {next : Place}
    (h : Place.Step ⟨quoting, inner ++ outer⟩ c next) :
    (∃ quoting' inner', Place.Step ⟨quoting, inner⟩ c ⟨quoting', inner'⟩ ∧
      next = ⟨quoting', inner' ++ outer⟩) ∨
    (quoting = .bare ∧ inner = [] ∧ ∃ opener rest, opener? c = some opener ∧
      outer = opener :: rest ∧ next = ⟨.bare, rest⟩) := by
  generalize hopened : inner ++ outer = opened at h
  cases h with
  | quoted hstructure hline => exact .inl ⟨_, _, .quoted hstructure hline, by rw [hopened]⟩
  | opening hc => exact .inl ⟨_, _, .opening hc, by rw [List.cons_append, hopened]⟩
  | plain hstructure hround hcurly hc =>
      exact .inl ⟨_, _, .plain hstructure hround hcurly hc, by rw [hopened]⟩
  | closing hc =>
      cases inner with
      | nil => exact .inr ⟨rfl, rfl, _, _, hc, hopened, rfl⟩
      | cons last inner =>
          obtain ⟨rfl, rfl⟩ := List.cons.inj hopened
          exact .inl ⟨_, _, .closing hc, rfl⟩

/-- Inside a curly bracket a step stays there, or closes it. -/
theorem Place.Step.of_inside {inner next : Place} {outer : List Char} {c : Char}
    (h : Place.Step ⟨inner.quoting, inner.opened ++ '\x7b' :: outer⟩ c next) :
    (∃ inner' : Place, inner.Step c inner' ∧
      next = ⟨inner'.quoting, inner'.opened ++ '\x7b' :: outer⟩) ∨
    (inner = .outside ∧ c = '\x7d' ∧ next = ⟨.bare, outer⟩) := by
  obtain ⟨quoting, opened⟩ := inner
  obtain ⟨quoting', inner', hinner, rfl⟩ | ⟨hbare, hnil, opener, rest, hopener, hout, rfl⟩ :=
    h.of_append
  · exact .inl ⟨⟨quoting', inner'⟩, hinner, rfl⟩
  · dsimp only at hbare hnil
    subst hbare hnil
    obtain ⟨rfl, rfl⟩ := List.cons.inj hout
    obtain ⟨rfl, -⟩ := (opener?_eq_some hopener).resolve_left (by simp)
    exact .inr ⟨rfl, rfl, rfl⟩

/-! ## Nested texts -/

/-- The place behind a text. -/
def Place.scan (place : Place) (text : Text) : Option Place :=
  text.foldlM Place.step place

@[simp] theorem Place.scan_nil (place : Place) : place.scan [] = some place := rfl

theorem Place.scan_cons_eq_some {place last : Place} {c : Char} {rest : Text} :
    place.scan (c :: rest) = some last ↔
      ∃ next, place.Step c next ∧ next.scan rest = some last := by
  simp only [scan, List.foldlM_cons, Option.bind_eq_bind, Option.bind_eq_some_iff,
    step_eq_some_iff]

theorem Place.scan_append_eq_some {place last : Place} {front back : Text} :
    place.scan (front ++ back) = some last ↔
      ∃ next, place.scan front = some next ∧ next.scan back = some last := by
  simp only [scan, List.foldlM_append, Option.bind_eq_bind, Option.bind_eq_some_iff]

/-- Strings are closed before their lines end, and brackets nest properly. -/
def IsNested (text : Text) : Prop :=
  Place.outside.scan text = some .outside

instance (text : Text) : Decidable (IsNested text) :=
  inferInstanceAs (Decidable (_ = _))

/-! ## Blocks -/

/-- How many curly brackets are open. -/
def Place.curly (place : Place) : Nat :=
  place.opened.count '\x7b'

theorem blocksInside_step {place next : Place} {c : Char} (h : place.Step c next)
    (start body rest : Text) :
    blocksInside place.quoting place.curly start body (c :: rest) =
      blocksInside next.quoting next.curly start (c :: body) rest := by
  cases h with
  | quoted hstructure hline => simp [blocksInside, hstructure, Place.curly]
  | opening hc =>
      rcases hc with rfl | rfl <;>
        simp [blocksInside, Place.curly, Quoting.isStructure, Quoting.step]
  | closing hc =>
      rcases opener?_eq_some hc with ⟨rfl, rfl⟩ | ⟨rfl, rfl⟩ <;>
        simp [blocksInside, Place.curly, Quoting.isStructure, Quoting.step]
  | @plain opened c hstructure hround hcurly hc =>
      have hplain : Place.Step ⟨.bare, opened⟩ c ⟨.bare, opened⟩ :=
        .plain hstructure hround hcurly hc
      have hstep : Quoting.bare.step c = .bare := hplain.quoting_eq.symm
      simp [blocksInside, Place.curly, hstructure, hcurly, (opener?_eq_none hc).2, hstep]

theorem blocksInside_scan {place last : Place} {text : Text} (h : place.scan text = some last)
    (start body rest : Text) :
    blocksInside place.quoting place.curly start body (text ++ rest) =
      blocksInside last.quoting last.curly start (text.reverse ++ body) rest := by
  induction text generalizing place body with
  | nil =>
      cases h
      rfl
  | cons c text ih =>
      obtain ⟨next, hstep, hnext⟩ := Place.scan_cons_eq_some.mp h
      rw [List.cons_append, blocksInside_step hstep, ih hnext, List.reverse_cons]
      simp

theorem blocksInside_close (start body rest : Text) :
    blocksInside .bare 0 start body ('\x7d' :: rest) =
      ⟨trim start.reverse, body.reverse⟩ :: blocksOutside .bare [] rest :=
  rfl

/-- Outside all blocks, or inside one. -/
private theorem nested_bodies (rest : Text) :
    (∀ place : Place, ∀ start, place.scan rest = some .outside →
      ∀ block ∈ blocksOutside place.quoting start rest, IsNested block.body) ∧
    ∀ inner : Place, ∀ outer start body, Place.outside.scan body.reverse = some inner →
      Place.scan ⟨inner.quoting, inner.opened ++ '\x7b' :: outer⟩ rest = some .outside →
      ∀ block ∈ blocksInside inner.quoting inner.curly start body rest, IsNested block.body := by
  induction rest with
  | nil =>
      refine ⟨fun place start _ block hblock => by simp [blocksOutside] at hblock, ?_⟩
      intro inner outer start body _ hscan
      have hopened := congrArg Place.opened (Option.some.inj hscan)
      simp [Place.outside] at hopened
  | cons c rest ih =>
      obtain ⟨ihOutside, ihInside⟩ := ih
      constructor
      · intro place start hscan
        obtain ⟨next, hstep, hnext⟩ := Place.scan_cons_eq_some.mp hscan
        rw [blocksOutside]
        split
        · rename_i hsemicolon
          rw [Bool.and_eq_true] at hsemicolon
          rw [← hstep.bare_of_isStructure hsemicolon.1]
          exact ihOutside next _ hnext
        · split
          · rename_i hcurly
            rw [Bool.and_eq_true, decide_eq_true_eq] at hcurly
            obtain ⟨hstructure, rfl⟩ := hcurly
            obtain ⟨quoting, opened⟩ := place
            obtain rfl := eq_bare_of_isStructure hstructure
            have hopen : Place.Step ⟨.bare, opened⟩ '\x7b' ⟨.bare, '\x7b' :: opened⟩ :=
              .opening (.inr rfl)
            obtain rfl : next = ⟨.bare, '\x7b' :: opened⟩ :=
              Option.some.inj (hstep.eq_some.symm.trans hopen.eq_some)
            exact ihInside .outside opened start [] rfl hnext
          · rw [← hstep.quoting_eq]
            exact ihOutside next _ hnext
      · intro inner outer start body hbody hscan
        obtain ⟨next, hstep, hnext⟩ := Place.scan_cons_eq_some.mp hscan
        obtain ⟨inner', hinner, rfl⟩ | ⟨rfl, rfl, rfl⟩ := hstep.of_inside
        · rw [blocksInside_step hinner]
          refine ihInside inner' outer start (c :: body) ?_ hnext
          rw [List.reverse_cons]
          exact Place.scan_append_eq_some.mpr
            ⟨inner, hbody, Place.scan_cons_eq_some.mpr ⟨_, hinner, rfl⟩⟩
        · have hclose := blocksInside_close start body rest
          exact hclose ▸ List.forall_mem_cons.mpr ⟨hbody, ihOutside _ _ hnext⟩

/-- The bodies of the blocks of a nested text are nested. -/
theorem IsNested.body {text : Text} (h : IsNested text) :
    ∀ block ∈ blocks text, IsNested block.body :=
  (nested_bodies text).1 .outside [] h

/-! ## Segments -/

/-- Whether a body is split here. -/
def Place.splitsAt (place : Place) (c : Char) : Bool :=
  place.quoting.isStructure c && place.opened.isEmpty &&
    (c = ';' || c = '\x7b' || c = '\x7d')

/-- The place behind a text in which a body is not split. -/
def Place.stay (place : Place) (text : Text) : Option Place :=
  text.foldlM (fun place c => if place.splitsAt c then none else place.step c) place

@[simp] theorem Place.stay_nil (place : Place) : place.stay [] = some place := rfl

theorem Place.stay_cons_eq_some {place last : Place} {c : Char} {rest : Text} :
    place.stay (c :: rest) = some last ↔
      place.splitsAt c = false ∧ ∃ next, place.Step c next ∧ next.stay rest = some last := by
  simp only [stay, List.foldlM_cons, Option.bind_eq_bind, Option.bind_eq_some_iff]
  cases place.splitsAt c <;> simp [step_eq_some_iff]

theorem Place.stay_append_eq_some {place last : Place} {front back : Text} :
    place.stay (front ++ back) = some last ↔
      ∃ next, place.stay front = some next ∧ next.stay back = some last := by
  simp only [stay, List.foldlM_append, Option.bind_eq_bind, Option.bind_eq_some_iff]

theorem Place.scan_of_stay {place last : Place} {text : Text} (h : place.stay text = some last) :
    place.scan text = some last := by
  induction text generalizing place with
  | nil => exact h
  | cons c rest ih =>
      obtain ⟨-, next, hstep, hnext⟩ := Place.stay_cons_eq_some.mp h
      exact Place.scan_cons_eq_some.mpr ⟨next, hstep, ih hnext⟩

/-- A nested text in which a body is not split. -/
def IsSegment (text : Text) : Prop :=
  Place.outside.stay text = some .outside

/-- How many round brackets are open. -/
def Place.round (place : Place) : Nat :=
  place.opened.count '('

/-- The outermost bracket that is open is a round one. -/
def Place.InRound (place : Place) : Prop :=
  ∀ c ∈ place.opened.getLast?, c = '('

theorem Place.InRound.round_pos {place : Place} (h : place.InRound) (hopened : place.opened ≠ []) :
    0 < place.round := by
  have hlast := List.getLast?_eq_some_getLast hopened
  rw [Place.round, List.count_pos_iff, ← h _ hlast]
  exact List.getLast_mem hopened

theorem Place.InRound.step {place next : Place} {c : Char} (h : place.InRound)
    (hstays : place.splitsAt c = false) (hstep : place.Step c next) : next.InRound := by
  cases hstep with
  | quoted hstructure hline => exact h
  | @opening opened c hc =>
      cases opened with
      | nil =>
          rcases hc with rfl | rfl
          · exact fun d hd => (Option.some.inj hd).symm
          · cases hstays
      | cons last outer => exact fun d hd => h d (by simpa using hd)
  | @closing outer c opener hc =>
      cases outer with
      | nil => exact fun d hd => by cases hd
      | cons last outer => exact fun d hd => h d (by simpa using hd)
  | plain hstructure hround hcurly hc => exact h

theorem segmentsOutside_step {place next : Place} {c : Char} (h : place.InRound)
    (hstays : place.splitsAt c = false) (hstep : place.Step c next) (start rest : Text) :
    segmentsOutside place.quoting place.round start (c :: rest) =
      segmentsOutside next.quoting next.round (c :: start) rest := by
  have hpos : place.quoting.isStructure c = true → (c = ';' ∨ c = '\x7b' ∨ c = '\x7d') →
      place.round ≠ 0 := by
    intro hstructure hc
    apply Nat.ne_of_gt (h.round_pos _)
    rintro hnil
    rw [Place.splitsAt, hstructure, hnil] at hstays
    rcases hc with rfl | rfl | rfl <;> cases hstays
  cases hstep with
  | quoted hstructure hline => simp [segmentsOutside, hstructure, Place.round]
  | @opening opened c hc =>
      rcases hc with rfl | rfl
      · simp [segmentsOutside, Place.round, Quoting.isStructure, Quoting.step]
      · have hround := hpos rfl (by simp)
        simp [segmentsOutside, Place.round, Quoting.isStructure, Quoting.step] at hround ⊢
        simp [hround]
  | @closing outer c opener hc =>
      rcases opener?_eq_some hc with ⟨rfl, rfl⟩ | ⟨rfl, rfl⟩
      · simp [segmentsOutside, Place.round, Quoting.isStructure, Quoting.step]
      · have hround := hpos rfl (by simp)
        simp [segmentsOutside, Place.round, Quoting.isStructure, Quoting.step] at hround ⊢
        simp [hround]
  | @plain opened c hstructure hround hcurly hc =>
      obtain ⟨hclose, hcurly'⟩ := opener?_eq_none hc
      by_cases hsemicolon : c = ';'
      · subst hsemicolon
        have hround := hpos rfl (by simp)
        simp [segmentsOutside, Place.round, Quoting.isStructure, Quoting.step] at hround ⊢
        simp [hround]
      · simp [segmentsOutside, Place.round, hstructure, hround, hcurly, hclose, hcurly', hsemicolon]

theorem inRound_of_stay {place last : Place} {text : Text} (h : place.InRound)
    (hstay : place.stay text = some last) : last.InRound := by
  induction text generalizing place with
  | nil =>
      cases hstay
      exact h
  | cons c text ih =>
      obtain ⟨hstays, next, hstep, hnext⟩ := Place.stay_cons_eq_some.mp hstay
      exact ih (h.step hstays hstep) hnext

theorem segmentsOutside_stay {place last : Place} {text : Text} (h : place.InRound)
    (hstay : place.stay text = some last) (start rest : Text) :
    segmentsOutside place.quoting place.round start (text ++ rest) =
      segmentsOutside last.quoting last.round (text.reverse ++ start) rest := by
  induction text generalizing place start with
  | nil =>
      cases hstay
      rfl
  | cons c text ih =>
      obtain ⟨hstays, next, hstep, hnext⟩ := Place.stay_cons_eq_some.mp hstay
      rw [List.cons_append, segmentsOutside_step h hstays hstep, ih (h.step hstays hstep) hnext,
        List.reverse_cons]
      simp

theorem inRound_outside : Place.outside.InRound := fun _ h => by cases h

/-- A segment before a semicolon is read as it is. -/
theorem IsSegment.segments {text : Text} (h : IsSegment text) (rest : Text) :
    segmentsOutside .bare 0 [] (text ++ ';' :: rest) =
      text :: segmentsOutside .bare 0 [] rest := by
  have hend : ∀ start, segmentsOutside .bare 0 start (';' :: rest) =
      start.reverse :: segmentsOutside .bare 0 [] rest := fun _ => rfl
  have hstay := segmentsOutside_stay inRound_outside h [] (';' :: rest)
  refine hstay.trans ((hend _).trans ?_)
  rw [List.append_nil, List.reverse_reverse]

theorem segmentsInside_step {place next : Place} {c : Char} (h : place.Step c next) (rest : Text) :
    segmentsInside place.quoting place.curly (c :: rest) =
      segmentsInside next.quoting next.curly rest := by
  cases h with
  | quoted hstructure hline => simp [segmentsInside, hstructure, Place.curly]
  | opening hc =>
      rcases hc with rfl | rfl <;>
        simp [segmentsInside, Place.curly, Quoting.isStructure, Quoting.step]
  | closing hc =>
      rcases opener?_eq_some hc with ⟨rfl, rfl⟩ | ⟨rfl, rfl⟩ <;>
        simp [segmentsInside, Place.curly, Quoting.isStructure, Quoting.step]
  | @plain opened c hstructure hround hcurly hc =>
      have hplain : Place.Step ⟨.bare, opened⟩ c ⟨.bare, opened⟩ :=
        .plain hstructure hround hcurly hc
      have hstep : Quoting.bare.step c = .bare := hplain.quoting_eq.symm
      simp [segmentsInside, Place.curly, hstructure, hcurly, (opener?_eq_none hc).2, hstep]

theorem segmentsInside_close (rest : Text) :
    segmentsInside .bare 0 ('\x7d' :: rest) = segmentsOutside .bare 0 [] rest :=
  rfl

/-- Where a nested body is split, a segment ends or a nested block starts. -/
theorem segmentsOutside_split {place next : Place} {c : Char} (hsplits : place.splitsAt c = true)
    (h : place.Step c next) (start rest : Text) :
    place = .outside ∧
      ((next = .outside ∧ segmentsOutside place.quoting place.round start (c :: rest) =
        start.reverse :: segmentsOutside .bare 0 [] rest) ∨
      (next = ⟨.bare, ['\x7b']⟩ ∧ segmentsOutside place.quoting place.round start (c :: rest) =
        segmentsInside .bare 0 rest)) := by
  obtain ⟨quoting, opened⟩ := place
  simp only [Place.splitsAt, Bool.and_eq_true, Bool.or_eq_true, decide_eq_true_eq,
    List.isEmpty_iff] at hsplits
  obtain ⟨⟨hstructure, rfl⟩, hc⟩ := hsplits
  obtain rfl := eq_bare_of_isStructure hstructure
  have hnext := h.eq_some
  have hzero : Place.round ⟨.bare, []⟩ = 0 := rfl
  refine ⟨rfl, ?_⟩
  dsimp only
  rw [hzero, segmentsOutside, if_pos hstructure]
  rcases hc with (rfl | rfl) | rfl
  · cases hnext
    exact .inl ⟨rfl, rfl⟩
  · cases hnext
    exact .inr ⟨rfl, rfl⟩
  · cases hnext

/-- Outside all nested blocks of a body, or inside one. -/
private theorem segments_nested (rest : Text) :
    (∀ place : Place, ∀ start, Place.outside.stay start.reverse = some place →
      place.scan rest = some .outside →
      ∀ segment ∈ segmentsOutside place.quoting place.round start rest, IsSegment segment) ∧
    ∀ inner : Place, Place.scan ⟨inner.quoting, inner.opened ++ ['\x7b']⟩ rest = some .outside →
      ∀ segment ∈ segmentsInside inner.quoting inner.curly rest, IsSegment segment := by
  induction rest with
  | nil =>
      refine ⟨fun place start hstart hscan segment hsegment => ?_,
        fun inner hscan segment hsegment => ?_⟩
      · cases hscan
        rw [segmentsOutside, List.mem_singleton] at hsegment
        exact hsegment ▸ hstart
      · rw [segmentsInside, List.mem_singleton] at hsegment
        rw [hsegment]
        rfl
  | cons c rest ih =>
      obtain ⟨ihOutside, ihInside⟩ := ih
      constructor
      · intro place start hstart hscan
        obtain ⟨next, hstep, hnext⟩ := Place.scan_cons_eq_some.mp hscan
        cases hsplits : place.splitsAt c with
        | false =>
            rw [segmentsOutside_step (inRound_of_stay inRound_outside hstart) hsplits hstep]
            refine ihOutside next _ ?_ hnext
            rw [List.reverse_cons]
            exact Place.stay_append_eq_some.mpr
              ⟨place, hstart, Place.stay_cons_eq_some.mpr ⟨hsplits, next, hstep, rfl⟩⟩
        | true =>
            obtain ⟨rfl, ⟨rfl, hsegments⟩ | ⟨rfl, hsegments⟩⟩ :=
              segmentsOutside_split hsplits hstep start rest
            · rw [hsegments]
              exact List.forall_mem_cons.mpr ⟨hstart, ihOutside .outside [] rfl hnext⟩
            · rw [hsegments]
              exact ihInside .outside hnext
      · intro inner hscan
        obtain ⟨next, hstep, hnext⟩ := Place.scan_cons_eq_some.mp hscan
        obtain ⟨inner', hinner, rfl⟩ | ⟨rfl, rfl, rfl⟩ := hstep.of_inside
        · rw [segmentsInside_step hinner]
          exact ihInside inner' hnext
        · have hclose := segmentsInside_close rest
          exact hclose ▸ ihOutside .outside [] rfl hnext

/-- The segments of a nested body are segments. -/
theorem IsNested.segments {body : Text} (h : IsNested body) :
    ∀ segment ∈ segmentsOutside .bare 0 [] body, IsSegment segment :=
  (segments_nested body).1 .outside [] rfl h

end AddonBundle.Stylesheet
