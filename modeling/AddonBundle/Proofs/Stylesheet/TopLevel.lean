import AddonBundle.Proofs.Stylesheet.BlockSpan
import AddonBundle.Proofs.Stylesheet.DepthFirst
import AddonBundle.Proofs.Stylesheet.Lexeme
/-!
# Imports at the top level

Putting imports in place counts the braces in front of an import as they are written, and leaves
out those in other imports. Blocks are found by a scan that skips strings and goes on without a
closing brace that closes nothing. What the count has more than the scan has open is the surplus of
the text. The two agree on an import as long as the surplus does not make an empty count of open
braces, or one of none: when every brace in front of it opens a block or closes one.
-/

namespace AddonBundle.Stylesheet

open Text

variable {σ : Type} {view : View σ} {s : σ}

/-! ## Counting braces -/

/-- The brace depth behind pieces. -/
def depthBehind (depth : Int) : List (Piece Import) → Int
  | [] => depth
  | .plain c :: rest => depthBehind (depthAfter depth c) rest
  | .item _ _ :: rest => depthBehind depth rest

/-- What a character adds to the brace depth without a block that it opens or closes: a brace in a
string, and a closing brace outside all blocks. -/
def Level.surplus (level : Level) (c : Char) : Int :=
  if level.quoting.isStructure c then if c = '\x7d' && level.nested = 0 then -1 else 0
  else depthAfter 0 c

/-- What the brace depth has more than blocks are open behind pieces. Braces of an import open and
close blocks, and do not count. -/
def surplus (level : Level) : List (Piece Import) → Int
  | [] => 0
  | .plain c :: rest => level.surplus c + surplus (level.step c) rest
  | .item _ written :: rest =>
    level.nested - (levelBehind level written).nested + surplus (levelBehind level written) rest

theorem levelBehind_append (level : Level) (front back : Text) :
    levelBehind level (front ++ back) = levelBehind (levelBehind level front) back :=
  List.foldl_append

private theorem depthAfter_eq (level : Level) (depth : Int) (c : Char) :
    depthAfter depth c = depth + ((level.step c).nested - level.nested) + level.surplus c := by
  obtain ⟨quoting, nested⟩ := level
  rw [Level.surplus]
  by_cases hopen : (quoting.isStructure c && c = '\x7b') = true
  · rw [Level.step_of_opening hopen]
    rw [Bool.and_eq_true, decide_eq_true_eq] at hopen
    obtain ⟨hstructure, rfl⟩ := hopen
    rw [depthAfter, if_pos rfl, if_pos hstructure, if_neg (by simp)]
    dsimp only
    omega
  · by_cases hclose : (quoting.isStructure c && c = '\x7d') = true
    · rw [Level.step_of_closing hclose]
      rw [Bool.and_eq_true, decide_eq_true_eq] at hclose
      obtain ⟨hstructure, rfl⟩ := hclose
      rw [depthAfter, if_neg (by decide), if_pos rfl, if_pos hstructure]
      cases nested with
      | zero =>
          rw [if_pos (by simp)]
          dsimp only
          omega
      | succ nested =>
          rw [if_neg (by simp)]
          dsimp only
          omega
    · rw [Level.step_of_not hopen hclose]
      dsimp only
      by_cases hstructure : quoting.isStructure c = true
      · rw [hstructure, Bool.true_and, decide_eq_true_eq] at hopen hclose
        rw [if_pos hstructure, depthAfter, if_neg hopen, if_neg hclose, if_neg (by simp [hclose])]
        omega
      · rw [if_neg hstructure, depthAfter, depthAfter]
        split_ifs
        all_goals omega

/-- The brace depth is the number of braces that are open for blocks, and the surplus. -/
theorem depthBehind_eq (level : Level) (depth : Int) (pieces : List (Piece Import)) :
    depthBehind depth pieces =
      depth + ((levelBehind level (pieces.flatMap Piece.text)).nested - level.nested) +
        surplus level pieces := by
  induction pieces generalizing level depth with
  | nil => simp [depthBehind, surplus, levelBehind]
  | cons piece rest ih =>
      rw [List.flatMap_cons, levelBehind_append]
      cases piece with
      | plain c =>
          rw [depthBehind, surplus, ih (level.step c), depthAfter_eq level]
          simp only [Piece.text, levelBehind, List.foldl_cons, List.foldl_nil]
          omega
      | item statement written =>
          rw [depthBehind, surplus, ih (levelBehind level written)]
          simp only [Piece.text]
          omega

/-- Every brace in pieces opens a block or closes one, and none stands in an import. -/
def BracesAreBlocks (level : Level) : List (Piece Import) → Prop
  | [] => True
  | .plain c :: rest =>
    (c = '\x7b' ∨ c = '\x7d' →
      level.quoting.isStructure c = true ∧ (c = '\x7d' → level.nested ≠ 0)) ∧
      BracesAreBlocks (level.step c) rest
  | .item _ written :: rest =>
    ('\x7b' ∉ written ∧ '\x7d' ∉ written) ∧ BracesAreBlocks (levelBehind level written) rest

instance decidableBracesAreBlocks :
    (level : Level) → (pieces : List (Piece Import)) → Decidable (BracesAreBlocks level pieces)
  | _, [] => .isTrue trivial
  | level, .plain c :: rest =>
    have := decidableBracesAreBlocks (level.step c) rest
    inferInstanceAs (Decidable (_ ∧ _))
  | level, .item _ written :: rest =>
    have := decidableBracesAreBlocks (levelBehind level written) rest
    inferInstanceAs (Decidable (_ ∧ _))

theorem nested_levelBehind_eq {level : Level} {text : Text} (hopen : '\x7b' ∉ text)
    (hclose : '\x7d' ∉ text) : (levelBehind level text).nested = level.nested := by
  induction text generalizing level with
  | nil => rfl
  | cons c rest ih =>
      rw [List.mem_cons, not_or] at hopen hclose
      rw [levelBehind, List.foldl_cons]
      refine (ih hopen.2 hclose.2).trans ?_
      simp [Level.step, Ne.symm hopen.1, Ne.symm hclose.1]

theorem surplus_eq_zero {level : Level} {pieces : List (Piece Import)}
    (h : BracesAreBlocks level pieces) : surplus level pieces = 0 := by
  induction pieces generalizing level with
  | nil => rfl
  | cons piece rest ih =>
      cases piece with
      | plain c =>
          obtain ⟨hbrace, hrest⟩ := h
          rw [surplus, ih hrest, Level.surplus, depthAfter]
          grind
      | item statement written =>
          obtain ⟨⟨hopen, hclose⟩, hrest⟩ := h
          rw [surplus, ih hrest, nested_levelBehind_eq hopen hclose]
          omega

/-! ## Slots of imports -/

/-- There is a file in the place of the piece with a given number. -/
def IsPut (slots : List Slot) (n : Nat) : Prop :=
  ∃ path media inner, slots[n]? = some (.put path media inner)

theorem HasSlots.of_append {importer : Text} {depth : Int} {front back : List (Piece Import)}
    {slots : List Slot} (h : HasSlots view s importer depth (front ++ back) slots) :
    HasSlots view s importer depth front (slots.take front.length) ∧
      HasSlots view s importer (depthBehind depth front) back (slots.drop front.length) := by
  induction front generalizing depth slots with
  | nil => exact ⟨.nil, h⟩
  | cons piece front ih =>
      cases h with
      | plain hrest => exact ⟨.plain (ih hrest).1, (ih hrest).2⟩
      | kept hkept hrest => exact ⟨.kept hkept (ih hrest).1, (ih hrest).2⟩
      | left hlocal hrest => exact ⟨.left hlocal (ih hrest).1, (ih hrest).2⟩
      | put hlocal hfile hread hinner hrest =>
          exact ⟨.put hlocal hfile hread hinner (ih hrest).1, (ih hrest).2⟩

theorem meetings_append (front back : List Slot) :
    meetings (front ++ back) = meetings front ++ meetings back := by
  induction front with
  | nil => rfl
  | cons slot front ih => rw [List.cons_append, meetings, meetings, ih, List.append_assoc]

/-- The first import of a file is put in place exactly when the brace depth is zero. -/
theorem HasSlots.isPut_iff {importer : Text} {depth : Int} {front back : List (Piece Import)}
    {statement : Import} {written : Text} {slots : List Slot} {seen : List Text}
    (h : HasSlots view s importer depth (front ++ .item statement written :: back) slots)
    (hfirst : FirstMet seen (meetings slots))
    (hlocal : isRemote (trim statement.target) = false)
    (hnew : importPath importer (trim statement.target) ∉
      (meetings (slots.take front.length)).map (·.path) ++ seen) :
    IsPut slots front.length ↔ depthBehind depth front = 0 := by
  obtain ⟨-, hbehind⟩ := h.of_append
  rw [← List.take_append_drop front.length slots, meetings_append] at hfirst
  have hfirst' := (firstMet_append.mp hfirst).2
  have hslot : slots[front.length]? = (slots.drop front.length).head? := by
    rw [List.head?_drop]
  rw [IsPut, hslot]
  generalize slots.drop front.length = rest at hbehind hfirst' ⊢
  generalize depthBehind depth front = reached at hbehind ⊢
  cases hbehind with
  | kept hkept hrest =>
      exact iff_of_false (by simp) (hkept.resolve_right (by simp [hlocal]))
  | left hlocal' hrest =>
      have hknown := (firstMet_cons.mp hfirst').1
      exact absurd (hknown.mpr hnew) (by simp)
  | put hlocal' hfile hread hinner hrest => exact iff_of_true ⟨_, _, _, rfl⟩ rfl

/-! ## Agreement -/

theorem exists_cons_of_importPieces {text written : Text} {front back : List (Piece Import)}
    {statement : Import} (h : importPieces text = front ++ .item statement written :: back) :
    ∃ c rest, c ≠ '\x7d' ∧
      dropComments text = front.flatMap Piece.text ++ c :: rest := by
  have hmem : Piece.item statement written ∈ importPieces text := by simp [h]
  obtain ⟨before, c, rest, length, hrecognised, rfl⟩ := recognised_of_mem_piecesFrom hmem
  refine ⟨c, rest.take (length - 1) ++ back.flatMap Piece.text, ?_, ?_⟩
  · rintro rfl
    cases hrecognised
  · have htexts := texts_pieces recogniseImport (dropComments text)
    rw [← importPieces, h] at htexts
    rw [← htexts, List.flatMap_append, List.flatMap_cons]
    rfl

/-- The number of braces that are open for blocks behind pieces. -/
def openBraces (pieces : List (Piece Import)) : Nat :=
  (levelBehind .top (pieces.flatMap Piece.text)).nested

/-- The first import of a file is put in place exactly when the braces open for blocks in front of
it and the surplus there come to nothing, and stands in a block exactly when braces are open. So
to be put in place and to stand in no block agree exactly when the surplus turns neither none into
some nor some into none. This is so when every brace in front of the import opens or closes a
block. -/
theorem topLevel_agreement (view : View σ) (s : σ) (limit : Nat) (seen : List Text)
    (importer text written : Text) (outcome : Text × List Text) (front back : List (Piece Import))
    (statement : Import)
    (hinline : inlineImports view s limit seen importer text = .ok outcome)
    (hpieces : importPieces text = front ++ .item statement written :: back)
    (hlocal : isRemote (trim statement.target) = false) :
    ∃ slots, Arranges view s importer 0 seen (importPieces text) outcome slots ∧
      (importPath importer (trim statement.target) ∉
          (meetings (slots.take front.length)).map (·.path) ++ seen →
        (IsPut slots front.length ↔ openBraces front + surplus .top front = 0) ∧
        (Encloses (dropComments text) (front.flatMap Piece.text).length ↔ openBraces front ≠ 0) ∧
        ((IsPut slots front.length ↔
            ¬ Encloses (dropComments text) (front.flatMap Piece.text).length) ↔
          (openBraces front = 0 ↔ openBraces front + surplus .top front = 0)) ∧
        (BracesAreBlocks .top front → (IsPut slots front.length ↔
          ¬ Encloses (dropComments text) (front.flatMap Piece.text).length))) := by
  obtain ⟨slots, hslots⟩ := exists_slots_of_inlineImports hinline
  refine ⟨slots, hslots, fun hnew => ?_⟩
  have hput : IsPut slots front.length ↔ openBraces front + surplus .top front = 0 := by
    have hdepth := (hpieces ▸ hslots.hasSlots).isPut_iff hslots.first hlocal hnew
    rw [depthBehind_eq .top] at hdepth
    simpa [openBraces, Level.top] using hdepth
  have hblock : Encloses (dropComments text) (front.flatMap Piece.text).length ↔
      openBraces front ≠ 0 := by
    obtain ⟨c, rest, hc, htext⟩ := exists_cons_of_importPieces hpieces
    rw [htext]
    exact encloses_iff hc
  refine ⟨hput, hblock, ?_, fun hbraces => ?_⟩
  · rw [hput, hblock, not_not]
    exact iff_comm
  · rw [hput, hblock, not_not, surplus_eq_zero hbraces]
    omega

/-- Plain characters meet no imports. -/
theorem HasSlots.meetings_plain {importer front : Text} {depth : Int}
    {back : List (Piece Import)} {slots : List Slot}
    (h : HasSlots view s importer depth (front.map .plain ++ back) slots) :
    meetings (slots.take front.length) = [] := by
  induction front generalizing depth slots with
  | nil => rfl
  | cons c front ih =>
      cases h with
      | plain hrest => exact ih hrest

theorem texts_plain (text : Text) :
    (text.map (Piece.plain : Char → Piece Import)).flatMap Piece.text = text := by
  induction text with
  | nil => rfl
  | cons c rest ih => exact congrArg (c :: ·) ih

/-- The import of a file beside the stylesheet. -/
def besideText : Text :=
  "@import \"b.css\";".toList

/-- A tree with a stylesheet in which this is the only import, and with the file. -/
def besideTree (front back : Text) : Tree :=
  ⟨[("a.css".toList, Utf8.encode (front ++ besideText ++ back)),
    ("b.css".toList, Utf8.encode ".b \x7b\x7d".toList)]⟩

/-- A block. -/
def blockFront : Text :=
  ".x \x7b\x7d".toList

/-- The start of a block with a closing brace in a string. -/
def closingFront : Text :=
  ".x \x7ba:\"\x7d\";".toList

/-- A block with an opening brace in a string. -/
def openingFront : Text :=
  ".x \x7ba:\"\x7b\"\x7d".toList

theorem topLevel_agreement_beside :
    (∃ slots, FirstMet ["a.css".toList] (meetings slots) ∧
      (IsPut slots blockFront.length ↔
        ¬ Encloses (blockFront ++ besideText ++ []) blockFront.length)) ∧
    ∃ slots, FirstMet ["a.css".toList] (meetings slots) ∧
      ¬ (IsPut slots closingFront.length ↔
        ¬ Encloses (closingFront ++ besideText ++ ['\x7d']) closingFront.length) := by
  have hnew : importPath "a.css".toList (trim "b.css".toList) ∉ [] ++ ["a.css".toList] := by decide
  constructor
  · have hpieces : importPieces (blockFront ++ besideText ++ []) =
        blockFront.map .plain ++ [.item ⟨"b.css".toList, []⟩ besideText] := by
      decide +kernel
    have hcomments : dropComments (blockFront ++ besideText ++ []) =
        blockFront ++ besideText ++ [] := by
      decide +kernel
    obtain ⟨slots, hslots, h⟩ := topLevel_agreement (.memory id fun tree _ => tree)
      (besideTree blockFront []) 2 ["a.css".toList] "a.css".toList
      (blockFront ++ besideText ++ []) besideText
      (blockFront ++ ".b \x7b\x7d".toList, ["b.css".toList, "a.css".toList]) _ _ _
      (by decide +kernel) hpieces (by decide)
    have hmeetings := (hpieces ▸ hslots.hasSlots).meetings_plain
    rw [List.length_map, hmeetings, texts_plain, hcomments] at h
    exact ⟨slots, hslots.first, (h hnew).2.2.2 (by decide +kernel)⟩
  · have hpieces : importPieces (closingFront ++ besideText ++ ['\x7d']) =
        closingFront.map .plain ++ [.item ⟨"b.css".toList, []⟩ besideText, .plain '\x7d'] := by
      decide +kernel
    have hcomments : dropComments (closingFront ++ besideText ++ ['\x7d']) =
        closingFront ++ besideText ++ ['\x7d'] := by
      decide +kernel
    obtain ⟨slots, hslots, h⟩ := topLevel_agreement (.memory id fun tree _ => tree)
      (besideTree closingFront ['\x7d']) 2 ["a.css".toList] "a.css".toList
      (closingFront ++ besideText ++ ['\x7d']) besideText
      (closingFront ++ ".b \x7b\x7d\x7d".toList, ["b.css".toList, "a.css".toList]) _ _ _
      (by decide +kernel) hpieces (by decide)
    have hmeetings := (hpieces ▸ hslots.hasSlots).meetings_plain
    rw [List.length_map, hmeetings, texts_plain, hcomments] at h
    refine ⟨slots, hslots.first, fun hagree => ?_⟩
    exact absurd ((h hnew).2.2.1.mp hagree) (by decide +kernel)

/-- A stylesheet without comments, with strings closed on their lines, and with an import of an
existing file outside them. -/
structure IsBeside (front back : Text) : Prop where
  comments : dropComments (front ++ besideText ++ back) = front ++ besideText ++ back
  strings : ClosesStrings (front ++ besideText ++ back)
  quoting : (levelBehind .top front).quoting = .bare
  pieces : importPieces (front ++ besideText ++ back) =
    front.map .plain ++ .item ⟨"b.css".toList, []⟩ besideText :: back.map .plain
  isFile : (View.memory id fun tree (_ : Tree) => tree).isFile (besideTree front back)
    "b.css".toList = .ok true

/-- With a brace in a string in front of it, an import is put in place inside a block, and left
where no block is. -/
theorem topLevel_disagrees :
    (IsBeside closingFront ['\x7d'] ∧
      Encloses (closingFront ++ besideText ++ ['\x7d']) closingFront.length ∧
      flatten (.memory id fun tree _ => tree) (besideTree closingFront ['\x7d']) "a.css".toList =
        .ok (closingFront ++ ".b \x7b\x7d".toList ++ ['\x7d'])) ∧
    IsBeside openingFront [] ∧
      ¬ Encloses (openingFront ++ besideText ++ []) openingFront.length ∧
      flatten (.memory id fun tree _ => tree) (besideTree openingFront []) "a.css".toList =
        .ok (openingFront ++ besideText) := by
  refine ⟨⟨⟨?_, ?_, ?_, ?_, ?_⟩, ?_, ?_⟩, ⟨?_, ?_, ?_, ?_, ?_⟩, ?_, ?_⟩
  all_goals decide +kernel

end AddonBundle.Stylesheet
