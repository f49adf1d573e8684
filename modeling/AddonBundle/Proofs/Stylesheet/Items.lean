import AddonBundle.Proofs.Stylesheet.Balanced
import AddonBundle.Proofs.Stylesheet.BlockSpan
import AddonBundle.Proofs.Stylesheet.Rendering
import Mathlib.Data.List.Infix
/-!
# Items written one after the other

A stylesheet is written as statements and blocks, and a body as declarations, nested blocks and
at-statements. Splitting undoes the writing: the blocks of a stylesheet are those of its items, and
the declarations of a body are those of its items, whatever stands between them.
-/

namespace AddonBundle.Stylesheet

open Text

/-! ## The top level -/

/-- What stands at the top level of a stylesheet. -/
inductive TopItem where
  | statement (text : Text)
  | block (prelude body : Text)
deriving Repr, DecidableEq

namespace TopItem

/-- An item as it is written. -/
def text : TopItem → Text
  | .statement text => text ++ [';']
  | .block prelude body => prelude ++ '\x7b' :: (body ++ ['\x7d'])

/-- The block of an item. -/
def block? : TopItem → Option Block
  | .statement _ => none
  | .block prelude body => some ⟨trim prelude, body⟩

/-- The parts of an item are what they are taken for. -/
def IsWritten : TopItem → Prop
  | .statement text => IsHead text
  | .block prelude body => IsHead prelude ∧ IsBody body

end TopItem

/-- No block is open behind any start of the text. -/
def OpensNoBlock (text : Text) : Prop :=
  ∀ front, front <+: text → (levelBehind .top front).nested = 0

/-- A block that is open in front of the text is open behind every start of it. -/
def StaysOpen (text : Text) : Prop :=
  ∀ front, front <+: text → (levelBehind ⟨.bare, 1⟩ front).nested ≠ 0

instance (text : Text) : Decidable (OpensNoBlock text) :=
  decidable_of_iff (∀ front ∈ text.inits, (levelBehind .top front).nested = 0)
    (by simp only [List.mem_inits, OpensNoBlock])

instance (text : Text) : Decidable (StaysOpen text) :=
  decidable_of_iff (∀ front ∈ text.inits, (levelBehind ⟨.bare, 1⟩ front).nested ≠ 0)
    (by simp only [List.mem_inits, StaysOpen])

/-- What holds of the levels behind all starts holds of the next level and of those behind it. -/
private theorem levels_cons {P : Level → Prop} {level : Level} {c : Char} {rest : Text}
    (h : ∀ front, front <+: c :: rest → P (levelBehind level front)) :
    P (level.step c) ∧ ∀ front, front <+: rest → P (levelBehind (level.step c) front) :=
  ⟨h [c] (List.prefix_append [c] rest),
    fun front hfront => h (c :: front) (List.cons_prefix_cons.mpr ⟨rfl, hfront⟩)⟩

theorem blocksOutside_tail {quoting : Quoting} {tail : Text}
    (h : ∀ front, front <+: tail → (levelBehind ⟨quoting, 0⟩ front).nested = 0) (start : Text) :
    blocksOutside quoting start tail = [] := by
  induction tail generalizing quoting start with
  | nil => rfl
  | cons c rest ih =>
      obtain ⟨hnext, hrest⟩ := levels_cons (P := fun level => level.nested = 0) h
      have hopen : ¬ (quoting.isStructure c && c = '\x7b') = true := by
        intro hopen
        rw [Level.step_of_opening hopen] at hnext
        cases hnext
      rw [Level.step_of_top hopen] at hrest
      rw [blocksOutside, if_neg hopen]
      split
      · rename_i hsemicolon
        rw [Bool.and_eq_true] at hsemicolon
        rw [Quoting.step_of_isStructure hsemicolon.1] at hrest
        exact ih hrest []
      · exact ih hrest (c :: start)

theorem blocksInside_open {quoting : Quoting} {nested : Nat} {rest : Text}
    (h : ∀ front, front <+: rest → (levelBehind ⟨quoting, nested + 1⟩ front).nested ≠ 0)
    (start body : Text) :
    blocksInside quoting nested start body rest = [⟨trim start.reverse, body.reverse ++ rest⟩] := by
  induction rest generalizing quoting nested body with
  | nil => rw [blocksInside, List.append_nil]
  | cons c rest ih =>
      obtain ⟨hnext, hrest⟩ := levels_cons (P := fun level => level.nested ≠ 0) h
      have hgoes : ∀ {quoting nested},
          (∀ front, front <+: rest → (levelBehind ⟨quoting, nested + 1⟩ front).nested ≠ 0) →
          blocksInside quoting nested start (c :: body) rest =
            [⟨trim start.reverse, body.reverse ++ c :: rest⟩] := by
        intro quoting nested hlevels
        rw [ih hlevels]
        simp
      rw [blocksInside.eq_def]
      dsimp only
      split
      · rename_i hopen
        rw [Level.step_of_opening hopen] at hrest
        exact hgoes hrest
      · rename_i hopen
        split
        · rename_i hclose
          rw [Level.step_of_closing hclose] at hnext hrest
          cases nested with
          | zero => exact absurd rfl hnext
          | succ nested => exact hgoes hrest
        · rename_i hclose
          rw [Level.step_of_not hopen hclose] at hrest
          exact hgoes hrest

/-- An item that is written in front of a text is split from it. -/
theorem blocks_item {item : TopItem} (h : item.IsWritten) (rest : Text) :
    blocks (item.text ++ rest) = item.block?.toList ++ blocks rest := by
  cases item with
  | statement text =>
      have hend : ∀ start, blocksOutside .bare start (';' :: rest) = blocksOutside .bare [] rest :=
        fun _ => rfl
      rw [TopItem.text, List.append_assoc, List.singleton_append, blocks, blocksOutside_head h,
        hend]
      rfl
  | block prelude body =>
      have hopen : ∀ start rest, blocksOutside .bare start ('\x7b' :: rest) =
          blocksInside .bare 0 start [] rest := fun _ _ => rfl
      rw [TopItem.text, List.append_assoc, List.cons_append, List.append_assoc,
        List.singleton_append, blocks, blocksOutside_head h.1, hopen, blocksInside_balanced h.2,
        blocksInside_close]
      simp [TopItem.block?, blocks]

theorem blocks_items {items : List TopItem} (h : ∀ item ∈ items, item.IsWritten) (rest : Text) :
    blocks (items.flatMap TopItem.text ++ rest) =
      items.filterMap TopItem.block? ++ blocks rest := by
  induction items with
  | nil => rfl
  | cons item items ih =>
      rw [List.forall_mem_cons] at h
      rw [List.flatMap_cons, List.append_assoc, blocks_item h.1, ih h.2, List.filterMap_cons]
      cases item.block? <;> rfl

/-- The blocks of items that are written one after the other are those of the items, and behind them
there are none in a text that opens none. A block that stays open to the end has all that follows
as its body. -/
theorem blocks_written {items : List TopItem} (h : ∀ item ∈ items, item.IsWritten) :
    (∀ tail, OpensNoBlock tail →
      blocks (items.flatMap TopItem.text ++ tail) = items.filterMap TopItem.block?) ∧
    ∀ prelude rest, IsHead prelude → StaysOpen rest →
      blocks (items.flatMap TopItem.text ++ (prelude ++ '\x7b' :: rest)) =
        items.filterMap TopItem.block? ++ [⟨trim prelude, rest⟩] := by
  constructor
  · intro tail htail
    rw [blocks_items h, blocks, blocksOutside_tail htail, List.append_nil]
  · intro prelude rest hprelude hrest
    have hopen : ∀ start, blocksOutside .bare start ('\x7b' :: rest) =
        blocksInside .bare 0 start [] rest := fun _ => rfl
    rw [blocks_items h, blocks, blocksOutside_head hprelude, hopen, blocksInside_open hrest]
    simp

/-- A statement with structure in a string, and a rule with a nested one behind a string. -/
def sheetItems : List TopItem :=
  [.statement "@charset \";\x7b\"".toList,
    .block "\n.a ".toList " content: '\x7d'; .b \x7b x: y \x7d ".toList]

theorem blocks_written_strings :
    (∀ item ∈ sheetItems, item.IsWritten) ∧ OpensNoBlock " \x7d .c \"\x7b".toList ∧
      IsHead " .d[t='\x7b'] ".toList ∧ StaysOpen " .e \x7b x: y \x7d z: '\x7d".toList ∧
      blocks (sheetItems.flatMap TopItem.text ++ " \x7d .c \"\x7b".toList) =
        [⟨".a".toList, " content: '\x7d'; .b \x7b x: y \x7d ".toList⟩] ∧
      blocks (sheetItems.flatMap TopItem.text ++
          (" .d[t='\x7b'] ".toList ++ '\x7b' :: " .e \x7b x: y \x7d z: '\x7d".toList)) =
        [⟨".a".toList, " content: '\x7d'; .b \x7b x: y \x7d ".toList⟩,
          ⟨".d[t='\x7b']".toList, " .e \x7b x: y \x7d z: '\x7d".toList⟩] := by
  have hcharset : IsHead "@charset \";\x7b\"".toList :=
    (hasOnly_of_all "@charset ".toList (by simp [isMark])).append
      (.string "\";\x7b\"".toList ⟨'"', _, rfl, rfl, by decide⟩ .nil)
  have hbody : IsBody " content: '\x7d'; .b \x7b x: y \x7d ".toList :=
    (isBalanced_of_all " content: ".toList (by simp [isMark])).append
      (.string "'\x7d'".toList ⟨'\'', _, rfl, rfl, by decide⟩
        ((isBalanced_of_all "; .b ".toList (by simp [isMark])).append
          (.group (isBalanced_of_all " x: y ".toList (by simp [isMark]))
            (isBalanced_of_all [' '] (by simp [isMark])))))
  have hitems : ∀ item ∈ sheetItems, item.IsWritten := by
    simp only [sheetItems, List.forall_mem_cons]
    exact ⟨hcharset, ⟨hasOnly_of_all "\n.a ".toList (by simp [isMark]), hbody⟩, by simp⟩
  have hhead : IsHead " .d[t='\x7b'] ".toList :=
    (hasOnly_of_all " .d[t=".toList (by simp [isMark])).append
      (.string "'\x7b'".toList ⟨'\'', _, rfl, rfl, by decide⟩
        (hasOnly_of_all "] ".toList (by simp [isMark])))
  have htail : OpensNoBlock " \x7d .c \"\x7b".toList := by decide
  have hrest : StaysOpen " .e \x7b x: y \x7d z: '\x7d".toList := by decide
  obtain ⟨hclosed, hopen⟩ := blocks_written hitems
  exact ⟨hitems, htail, hhead, hrest, hclosed _ htail, hopen _ _ hhead hrest⟩

/-! ## Bodies -/

/-- What stands in a body. -/
inductive BodyItem where
  | declaration (name value : Text)
  | block (prelude body : Text)
  | statement (text : Text)
deriving Repr, DecidableEq

/-- Characters that may not stand in the name of a declaration. -/
def nameStops : List Char := ['"', '\'', '(', ')', '\x7b', '\x7d', ':', ';']

namespace BodyItem

/-- An item as it is written. -/
def text : BodyItem → Text
  | .declaration name value => name ++ ':' :: (value ++ [';'])
  | .block prelude body => prelude ++ '\x7b' :: (body ++ ['\x7d'])
  | .statement text => text ++ [';']

/-- The declaration of an item. -/
def declaration? : BodyItem → Option Declaration
  | .declaration name value => some ⟨trim name, trim value⟩
  | _ => none

/-- The parts of an item are what they are taken for. -/
def IsWritten : BodyItem → Prop
  | .declaration name value =>
    (∀ c ∈ name, c ∉ nameStops) ∧ trim name ≠ [] ∧ (trim name).head? ≠ some '@' ∧ IsPart value
  | .block prelude body => IsPrelude prelude ∧ IsBody body
  | .statement text => (trim text).head? = some '@' ∧ IsPart text

end BodyItem

theorem isPart_declaration {name value : Text} (hname : ∀ c ∈ name, c ∉ nameStops)
    (hvalue : IsPart value) : IsPart (name ++ ':' :: value) := by
  have hpart : IsPart name := by
    refine isBalanced_of_all _ fun c hc => ?_
    have hstops := hname c hc
    simp only [nameStops, List.mem_cons, List.not_mem_nil, or_false, not_or] at hstops
    simp [isMark, splitters, hstops]
  exact hpart.append (.char rfl (by decide) (by decide) (by decide) hvalue)

/-- Name and value are trimmed. -/
theorem declaration?_colon {name : Text} (hcolon : ':' ∉ name) (hname : trim name ≠ [])
    (hat : (trim name).head? ≠ some '@') (value : Text) :
    declaration? (name ++ ':' :: value) = some ⟨trim name, trim value⟩ := by
  obtain ⟨first, before, hfirst, hbefore, hsplit⟩ := exists_trim name
  obtain ⟨last, hlast, hvalue⟩ := exists_trimEnd value
  obtain ⟨c, kept, hkept⟩ := List.exists_cons_of_ne_nil hname
  have htrim : trim (name ++ ':' :: value) = trim name ++ before ++ ':' :: trimEnd value := by
    have hwritten : name ++ ':' :: value =
        first ++ (trim name ++ before ++ ':' :: trimEnd value) ++ last := by
      conv_lhs => rw [hsplit, hvalue]
      simp
    rw [hwritten, trim_append_blank hlast, trim_blank_append hfirst]
    apply trim_eq_self
    · intro d hd
      apply head?_trim name
      rw [hkept] at hd ⊢
      exact hd
    · intro d hd
      rw [List.getLast?_append, List.getLast?_cons, Option.some_or, Option.mem_some_iff] at hd
      subst hd
      cases hend : (trimEnd value).getLast? with
      | none => decide
      | some e => exact getLast?_trimEnd value e hend
  have hfront : ':' ∉ trim name ++ before := by
    intro hmem
    apply hcolon
    rw [hsplit, List.append_assoc]
    exact List.mem_append_right first hmem
  have hproperty : trim (trim name ++ before) = trim name := by
    rw [trim_append_blank hbefore, trim_trim]
  have hstart : (trim name ++ before ++ ':' :: trimEnd value).head? ≠ some '@' := by
    rw [hkept] at hat ⊢
    exact hat
  have hback : trim (trimEnd value) = trim value := by
    conv_rhs => rw [hvalue]
    exact (trim_append_blank hlast _).symm
  rw [declaration?]
  dsimp only
  rw [htrim, if_neg hstart, dropWhile_colon hfront, takeWhile_colon hfront]
  dsimp only
  rw [hproperty, hback, if_neg (by simpa using hname)]

theorem declaration?_statement {text : Text} (h : (trim text).head? = some '@') :
    declaration? text = none := by
  rw [declaration?]
  exact if_pos h

theorem IsPart.segments {text : Text} (h : IsPart text) (rest : Text) :
    segmentsOutside .bare 0 [] (text ++ ';' :: rest) =
      text :: segmentsOutside .bare 0 [] rest := by
  have hend : ∀ start, segmentsOutside .bare 0 start (';' :: rest) =
      start.reverse :: segmentsOutside .bare 0 [] rest := fun _ => rfl
  rw [segmentsOutside_part h, hend, List.append_nil, List.reverse_reverse]

/-- An item that is written in front of a text adds its declaration to those of the text. -/
theorem declarations_item {item : BodyItem} (h : item.IsWritten) (rest : Text) :
    declarations (item.text ++ rest) = item.declaration?.toList ++ declarations rest := by
  cases item with
  | declaration name value =>
      obtain ⟨hname, hne, hat, hvalue⟩ := h
      have hcolon : ':' ∉ name := fun hmem => hname _ hmem (by decide)
      have hwritten : (BodyItem.declaration name value).text ++ rest =
          (name ++ ':' :: value) ++ ';' :: rest := by
        simp [BodyItem.text]
      rw [hwritten, declarations, (isPart_declaration hname hvalue).segments,
        List.filterMap_cons_some (declaration?_colon hcolon hne hat value)]
      rfl
  | statement text =>
      rw [BodyItem.text, List.append_assoc, List.singleton_append, declarations, h.2.segments,
        List.filterMap_cons_none (declaration?_statement h.1)]
      rfl
  | block prelude body =>
      rw [BodyItem.text, List.append_assoc, List.cons_append, List.append_assoc,
        List.singleton_append, declarations, segmentsOutside_prelude h.1 (fun _ hc => hc),
        segmentsInside_balanced h.2, segmentsInside_close]
      rfl

/-- The declarations of items that are written one after the other are those of the items. Nested
blocks and at-statements between them take none with them. -/
theorem declarations_written {items : List BodyItem} (h : ∀ item ∈ items, item.IsWritten) :
    declarations (items.flatMap BodyItem.text) = items.filterMap BodyItem.declaration? := by
  induction items with
  | nil => decide
  | cons item items ih =>
      rw [List.forall_mem_cons] at h
      rw [List.flatMap_cons, declarations_item h.1, ih h.2, List.filterMap_cons]
      cases item.declaration? <;> rfl

/-- Structure in strings and round brackets, with a nested block and an at-statement between two
declarations. -/
def bodyItems : List BodyItem :=
  [.declaration "\n src ".toList " url(a;\x7bb) '\x7d'".toList,
    .block " &:not(;) ".toList " x: y; .z \x7b\x7d ".toList, .statement " @include m(a;b)".toList,
    .declaration "margin".toList " 0 !important".toList]

theorem declarations_written_between :
    (∀ item ∈ bodyItems, item.IsWritten) ∧ declarations (bodyItems.flatMap BodyItem.text) =
      [⟨"src".toList, "url(a;\x7bb) '\x7d'".toList⟩,
        ⟨"margin".toList, "0 !important".toList⟩] := by
  have hsource : IsPart " url(a;\x7bb) '\x7d'".toList :=
    (isBalanced_of_all " url".toList (by simp [isMark, splitters])).append
      (.group (isBalanced_of_all "a;\x7bb".toList (by simp [isMark]))
        (.char rfl (by decide) (by decide) (by decide)
          (.string "'\x7d'".toList ⟨'\'', _, rfl, rfl, by decide⟩ .nil)))
  have hprelude : IsPrelude " &:not(;) ".toList :=
    (isBalanced_of_all " &:not".toList (by simp [isMark])).append
      (.group (isBalanced_of_all [';'] (by simp [isMark]))
        (isBalanced_of_all [' '] (by simp [isMark])))
  have hrule : IsBody " x: y; .z \x7b\x7d ".toList :=
    (isBalanced_of_all " x: y; .z ".toList (by simp [isMark])).append
      (.group .nil (isBalanced_of_all [' '] (by simp [isMark])))
  have hstatement : IsPart " @include m(a;b)".toList :=
    (isBalanced_of_all " @include m".toList (by simp [isMark, splitters])).append
      (.group (isBalanced_of_all "a;b".toList (by simp [isMark])) .nil)
  have hitems : ∀ item ∈ bodyItems, item.IsWritten := by
    simp only [bodyItems, List.forall_mem_cons]
    exact ⟨⟨by simp [nameStops], by decide, by decide, hsource⟩,
      ⟨hprelude, hrule⟩, ⟨by decide, hstatement⟩,
      ⟨by simp [nameStops], by decide, by decide,
        isBalanced_of_all _ (by simp [isMark, splitters])⟩, by simp⟩
  exact ⟨hitems, declarations_written hitems⟩

end AddonBundle.Stylesheet
