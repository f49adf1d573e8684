import AddonBundle.Proofs.Piece
import AddonBundle.Proofs.Stylesheet.Brackets
import AddonBundle.Stylesheet.Import
/-!
# Comments and strings of a stylesheet

Read from left to right, a stylesheet is a sequence of comments outside strings, of strings that are
closed on their line, and of characters between them. Rules and declarations are found among these
with comments and strings taken as a whole: braces, semicolons and colons are structure only where
they are plain characters. The scanners that work on the text without comments find the same.
-/

namespace AddonBundle.Stylesheet

open Text

/-! ## Lexemes -/

/-- What is taken as a whole. -/
inductive Lexeme where
  | comment
  | string
deriving Repr, DecidableEq

/-- The number of characters up to and including the end mark of a string, if it is closed on its
line. -/
def Quoting.rest? (quoting : Quoting) : Text → Option Nat
  | [] => none
  | c :: text =>
    if quoting.breaksAt c then none
    else if quoting.step c = .bare then some 1
    else (· + 1) <$> (quoting.step c).rest? text

/-- Recognises a closed comment, or a string that is closed on its line. -/
def recogniseLexeme : Recogniser Lexeme := fun before text =>
  match recogniseComment before text with
  | some (_, length) => some (.comment, length)
  | none =>
    match text with
    | [] => none
    | c :: rest =>
      if isMark c then (fun n => (.string, n + 1)) <$> Quoting.rest? (.inside c) rest else none

/-- The comments and strings of a stylesheet, and the characters between them. -/
def lexemes (text : Text) : List (Piece Lexeme) :=
  pieces recogniseLexeme text

/-- The text of lexemes without the comments. -/
def erase (pieces : List (Piece Lexeme)) : Text :=
  pieces.flatMap fun
    | .plain c => [c]
    | .item .comment _ => []
    | .item .string text => text

/-- A quotation mark and what follows it up to the same mark on its line. -/
def IsString (text : Text) : Prop :=
  ∃ mark rest, text = mark :: rest ∧ isMark mark = true ∧
    Quoting.rest? (.inside mark) rest = some rest.length

theorem IsString.ne_nil {text : Text} (h : IsString text) : text ≠ [] := by
  obtain ⟨mark, rest, rfl, -⟩ := h
  exact List.cons_ne_nil mark rest

/-- Lexemes whose strings are strings and between which no quotation mark is left over. -/
def AreLexed (pieces : List (Piece Lexeme)) : Prop :=
  ∀ piece ∈ pieces,
    match piece with
    | .plain c => isMark c = false
    | .item .comment _ => True
    | .item .string text => IsString text

/-- A quotation mark between lexemes. -/
def isStray : Piece Lexeme → Bool
  | .plain c => isMark c
  | .item _ _ => false

/-- Every string of a stylesheet is closed on its line. -/
def ClosesStrings (text : Text) : Prop :=
  ∀ piece ∈ lexemes text, isStray piece = false

instance (text : Text) : Decidable (ClosesStrings text) :=
  inferInstanceAs (Decidable (∀ piece ∈ lexemes text, isStray piece = false))

theorem AreLexed.mono {pieces pieces' : List (Piece Lexeme)} (h : AreLexed pieces)
    (hsubset : pieces' ⊆ pieces) : AreLexed pieces' :=
  fun piece hpiece => h piece (hsubset hpiece)

theorem Quoting.rest?_take {quoting : Quoting} {text : Text} {n : Nat}
    (h : quoting.rest? text = some n) :
    quoting.rest? (text.take n) = some (text.take n).length := by
  induction text generalizing quoting n with
  | nil => cases h
  | cons c text ih =>
      rw [Quoting.rest?] at h
      split at h
      · cases h
      · rename_i hline
        split at h
        · rename_i hclose
          cases h
          simp [Quoting.rest?, hline, hclose]
        · rename_i hopen
          obtain ⟨m, hrest, rfl⟩ := Option.map_eq_some_iff.mp h
          have hm := ih hrest
          simp only [List.take_succ_cons, Quoting.rest?, hline, hopen, hm]
          simp

/-- Where a string ends, its mark stands. -/
private theorem getLast?_of_rest? {mark : Char} {quoting : Quoting} {text : Text}
    (hquoting : quoting = .inside mark ∨ quoting = .escaped mark)
    (h : quoting.rest? text = some text.length) : text.getLast? = some mark := by
  induction text generalizing quoting with
  | nil => cases h
  | cons c text ih =>
      rw [Quoting.rest?] at h
      split at h
      · cases h
      · rename_i hline
        split at h
        · rename_i hclose
          obtain rfl : text = [] := by simpa using h
          rcases hquoting with rfl | rfl
          · simp only [Quoting.breaksAt, decide_eq_true_eq] at hline
            simp only [Quoting.step] at hclose
            split_ifs at hclose with hescape hmark
            rw [Bool.or_eq_true, decide_eq_true_eq, decide_eq_true_eq] at hmark
            rw [hmark.resolve_right hline]
            rfl
          · cases hclose
        · rename_i hopen
          obtain ⟨n, hn, hlength⟩ := Option.map_eq_some_iff.mp h
          obtain rfl : n = text.length := by simpa using hlength
          have hnext : quoting.step c = .inside mark ∨ quoting.step c = .escaped mark := by
            rcases hquoting with rfl | rfl
            · unfold Quoting.step at hopen ⊢
              grind
            · exact .inl rfl
          rw [List.getLast?_cons, ih hnext hn]
          rfl

/-- A string starts and ends with a quotation mark. -/
theorem IsString.ends {string : Text} (h : IsString string) :
    ∃ mark, isMark mark = true ∧ string.head? = some mark ∧ string.getLast? = some mark := by
  obtain ⟨mark, rest, rfl, hmark, hrest⟩ := h
  refine ⟨mark, hmark, rfl, ?_⟩
  rw [List.getLast?_cons, getLast?_of_rest? (.inl rfl) hrest]
  rfl

theorem ignoresBefore_comment : IgnoresBefore recogniseComment := fun _ _ _ => rfl

theorem ignoresBefore_lexeme : IgnoresBefore recogniseLexeme := fun _ _ _ => rfl

/-- A stylesheet starts with a comment, with a string, or with neither. -/
theorem lexemes_cons (c : Char) (rest : Text) :
    (∃ n, recogniseComment none (c :: rest) = some ((), n) ∧
      lexemes (c :: rest) =
        .item .comment (c :: rest.take (n - 1)) :: lexemes (rest.drop (n - 1))) ∨
    (∃ string behind, IsString string ∧ c :: rest = string ++ behind ∧
      lexemes (c :: rest) = .item .string string :: lexemes behind) ∨
    (recogniseComment none (c :: rest) = none ∧
      lexemes (c :: rest) = .plain c :: lexemes rest) := by
  cases hcomment : recogniseComment none (c :: rest) with
  | some result =>
      obtain ⟨⟨⟩, n⟩ := result
      refine .inl ⟨n, rfl, pieces_cons_item ignoresBefore_lexeme ?_⟩
      simp [recogniseLexeme, hcomment]
  | none =>
      refine .inr ?_
      have hlexeme : recogniseLexeme none (c :: rest) =
          if isMark c then (fun n => (.string, n + 1)) <$> Quoting.rest? (.inside c) rest
          else none := by
        simp [recogniseLexeme, hcomment]
      by_cases hmark : isMark c = true
      · rw [if_pos hmark] at hlexeme
        cases hrest : Quoting.rest? (.inside c) rest with
        | none =>
            rw [hrest] at hlexeme
            exact .inr ⟨rfl, pieces_cons_plain ignoresBefore_lexeme hlexeme⟩
        | some n =>
            rw [hrest] at hlexeme
            refine .inl ⟨c :: rest.take n, rest.drop n,
              ⟨c, _, rfl, hmark, Quoting.rest?_take hrest⟩, ?_,
              pieces_cons_item ignoresBefore_lexeme hlexeme⟩
            rw [List.cons_append, List.take_append_drop]
      · rw [if_neg hmark] at hlexeme
        exact .inr ⟨rfl, pieces_cons_plain ignoresBefore_lexeme hlexeme⟩

theorem isString_of_mem {text string : Text} (h : .item .string string ∈ lexemes text) :
    IsString string := by
  induction text using behind_induction with
  | nil => cases h
  | cons c rest ih =>
      obtain ⟨n, -, heq⟩ | ⟨other, behind, hother, hsplit, heq⟩ | ⟨-, heq⟩ := lexemes_cons c rest
      all_goals rw [heq, List.mem_cons] at h
      · exact ih _ _ (List.cons_ne_nil _ _) (cons_eq_take_append_drop c rest (n - 1))
          (h.resolve_left (by simp))
      · rcases h with h | h
        · exact (Piece.item.inj h).2 ▸ hother
        · exact ih other behind hother.ne_nil hsplit h
      · exact ih [c] rest (List.cons_ne_nil _ _) rfl (h.resolve_left (by simp))

theorem ClosesStrings.areLexed {text : Text} (h : ClosesStrings text) :
    AreLexed (lexemes text) := by
  intro piece hpiece
  match piece with
  | .plain c => exact h _ hpiece
  | .item .comment _ => trivial
  | .item .string s => exact isString_of_mem hpiece

@[simp] theorem erase_nil : erase [] = [] := rfl

@[simp] theorem erase_plain (c : Char) (rest : List (Piece Lexeme)) :
    erase (.plain c :: rest) = c :: erase rest := rfl

@[simp] theorem erase_comment (text : Text) (rest : List (Piece Lexeme)) :
    erase (.item .comment text :: rest) = erase rest := rfl

@[simp] theorem erase_string (text : Text) (rest : List (Piece Lexeme)) :
    erase (.item .string text :: rest) = text ++ erase rest := rfl

theorem erase_append (front back : List (Piece Lexeme)) :
    erase (front ++ back) = erase front ++ erase back :=
  List.flatMap_append

/-! ## Scanning a string -/

theorem isStructure_of_ne_bare {quoting : Quoting} (h : quoting ≠ .bare) (c : Char) :
    quoting.isStructure c = false := by
  simp [Quoting.isStructure, h]

theorem step_bare (c : Char) : Quoting.bare.step c = if isMark c then .inside c else .bare := rfl

theorem isStructure_bare (c : Char) : Quoting.bare.isStructure c = !isMark c := by
  rw [Quoting.isStructure, step_bare]
  cases isMark c <;> simp

theorem isStructure_of_not_isMark {c : Char} (h : isMark c = false) :
    Quoting.bare.isStructure c = true := by
  rw [isStructure_bare, h]
  rfl

theorem step_of_not_isMark {c : Char} (h : isMark c = false) : Quoting.bare.step c = .bare := by
  rw [step_bare, h, if_neg (by simp)]

/-- A scan that goes on by what is no structure passes over a string. -/
theorem scan_string {β : Type} (scan : Quoting → Text → Text → β)
    (hscan : ∀ quoting read c rest, quoting.isStructure c = false →
      scan quoting read (c :: rest) = scan (quoting.step c) (c :: read) rest)
    {text : Text} (h : IsString text) (read rest : Text) :
    scan .bare read (text ++ rest) = scan .bare (text.reverse ++ read) rest := by
  have hinside : ∀ (quoting : Quoting) (text read : Text), quoting ≠ .bare →
      quoting.rest? text = some text.length →
      scan quoting read (text ++ rest) = scan .bare (text.reverse ++ read) rest := by
    intro quoting text
    induction text generalizing quoting with
    | nil =>
        intro read _ hrest
        cases hrest
    | cons c text ih =>
        intro read hquoting hrest
        rw [List.cons_append, hscan _ _ _ _ (isStructure_of_ne_bare hquoting c)]
        rw [Quoting.rest?] at hrest
        split at hrest
        · cases hrest
        · split at hrest
          · rename_i hclose
            obtain rfl : text = [] := by simpa using hrest
            rw [hclose]
            rfl
          · rename_i hopen
            obtain ⟨n, hn, hlength⟩ := Option.map_eq_some_iff.mp hrest
            obtain rfl : n = text.length := by simpa using hlength
            rw [ih _ _ hopen hn, List.reverse_cons]
            simp
  obtain ⟨mark, rest', rfl, hmark, hrest⟩ := h
  have hstep : Quoting.bare.step mark = .inside mark := by rw [step_bare, if_pos hmark]
  rw [List.cons_append, hscan _ _ _ _ (by rw [isStructure_bare, hmark]; rfl), hstep,
    hinside _ _ _ (by simp) hrest, List.reverse_cons]
  simp

section

variable {string : Text} (h : IsString string)

include h

theorem blocksOutside_string (start rest : Text) :
    blocksOutside .bare start (string ++ rest) =
      blocksOutside .bare (string.reverse ++ start) rest :=
  scan_string blocksOutside (fun quoting read c rest hc => by simp [blocksOutside, hc]) h start rest

theorem blocksInside_string (nested : Nat) (start body rest : Text) :
    blocksInside .bare nested start body (string ++ rest) =
      blocksInside .bare nested start (string.reverse ++ body) rest :=
  scan_string (blocksInside · nested start)
    (fun quoting read c rest hc => by simp [blocksInside, hc]) h body rest

theorem segmentsOutside_string (parens : Nat) (start rest : Text) :
    segmentsOutside .bare parens start (string ++ rest) =
      segmentsOutside .bare parens (string.reverse ++ start) rest :=
  scan_string (segmentsOutside · parens)
    (fun quoting read c rest hc => by simp [segmentsOutside, hc]) h start rest

theorem segmentsInside_string (nested : Nat) (rest : Text) :
    segmentsInside .bare nested (string ++ rest) = segmentsInside .bare nested rest :=
  scan_string (fun quoting _ => segmentsInside quoting nested)
    (fun quoting read c rest hc => by simp [segmentsInside, hc]) h [] rest

end

/-! ## Rules -/

/-- A block among lexemes. -/
structure Source where
  prelude : List (Piece Lexeme)
  body : List (Piece Lexeme)
deriving Repr, DecidableEq

mutual

/-- The blocks among lexemes, outside all of them. The start of the current statement is held last
lexeme first. -/
def sourcesOutside (start : List (Piece Lexeme)) : List (Piece Lexeme) → List Source
  | [] => []
  | piece :: rest =>
    if piece = .plain ';' then sourcesOutside [] rest
    else if piece = .plain '\x7b' then sourcesInside 0 start [] rest
    else sourcesOutside (piece :: start) rest

/-- The blocks among lexemes, inside the one with the given prelude and under a number of nested
braces. -/
def sourcesInside (nested : Nat) (start body : List (Piece Lexeme)) :
    List (Piece Lexeme) → List Source
  | [] => [⟨start.reverse, body.reverse⟩]
  | piece :: rest =>
    if piece = .plain '\x7b' then sourcesInside (nested + 1) start (piece :: body) rest
    else if piece = .plain '\x7d' then
      match nested with
      | 0 => ⟨start.reverse, body.reverse⟩ :: sourcesOutside [] rest
      | nested + 1 => sourcesInside nested start (piece :: body) rest
    else sourcesInside nested start (piece :: body) rest

end

/-- The blocks at the top level of a stylesheet, in order. -/
def sources (text : Text) : List Source :=
  sourcesOutside [] (lexemes text)

/-- A block without its comments. -/
def Source.block (source : Source) : Block :=
  ⟨trim (erase source.prelude), erase source.body⟩

/-- What was read, without the comments, last character first. -/
def eraseRead (read : List (Piece Lexeme)) : Text :=
  (erase read.reverse).reverse

@[simp] theorem eraseRead_nil : eraseRead [] = [] := rfl

theorem eraseRead_plain (c : Char) (read : List (Piece Lexeme)) :
    eraseRead (.plain c :: read) = c :: eraseRead read := by
  simp [eraseRead, erase_append]

theorem eraseRead_comment (text : Text) (read : List (Piece Lexeme)) :
    eraseRead (.item .comment text :: read) = eraseRead read := by
  simp [eraseRead, erase_append]

theorem eraseRead_string (text : Text) (read : List (Piece Lexeme)) :
    eraseRead (.item .string text :: read) = text.reverse ++ eraseRead read := by
  simp [eraseRead, erase_append]

private theorem blocksOutside_erase (pieces : List (Piece Lexeme)) (h : AreLexed pieces) :
    (∀ start, blocksOutside .bare (eraseRead start) (erase pieces) =
      (sourcesOutside start pieces).map Source.block) ∧
    ∀ nested start body,
      blocksInside .bare nested (eraseRead start) (eraseRead body) (erase pieces) =
        (sourcesInside nested start body pieces).map Source.block := by
  induction pieces with
  | nil =>
      refine ⟨fun _ => rfl, fun nested start body => ?_⟩
      simp [blocksInside, sourcesInside, Source.block, eraseRead]
  | cons piece rest ih =>
      rw [AreLexed, List.forall_mem_cons] at h
      obtain ⟨ihOutside, ihInside⟩ := ih h.2
      cases piece with
      | item lexeme text =>
          cases lexeme with
          | comment =>
              simp only [erase_comment, sourcesOutside, sourcesInside, reduceCtorEq, if_false]
              refine ⟨fun start => ?_, fun nested start body => ?_⟩
              · rw [← ihOutside, eraseRead_comment]
              · rw [← ihInside, eraseRead_comment]
          | string =>
              simp only [erase_string, sourcesOutside, sourcesInside, reduceCtorEq, if_false]
              refine ⟨fun start => ?_, fun nested start body => ?_⟩
              · rw [← ihOutside, eraseRead_string, blocksOutside_string h.1]
              · rw [← ihInside, eraseRead_string, blocksInside_string h.1]
      | plain c =>
          have hstructure := isStructure_of_not_isMark h.1
          have hstep := step_of_not_isMark h.1
          simp only [erase_plain, sourcesOutside, sourcesInside, Piece.plain.injEq]
          refine ⟨fun start => ?_, fun nested start body => ?_⟩
          · simp only [blocksOutside, hstructure, hstep, Bool.true_and, decide_eq_true_eq]
            split
            · exact ihOutside []
            · split
              · exact ihInside 0 start []
              · rw [← ihOutside, eraseRead_plain]
          · simp only [blocksInside, hstructure, hstep, Bool.true_and, decide_eq_true_eq]
            split
            · rw [← ihInside, eraseRead_plain]
            · split
              · cases nested with
                | zero =>
                    have houtside := ihOutside []
                    rw [eraseRead_nil] at houtside
                    simp [houtside, Source.block, eraseRead]
                | succ nested =>
                    dsimp only
                    rw [← ihInside, eraseRead_plain]
              · rw [← ihInside, eraseRead_plain]

/-- The scan of the text without comments finds the blocks that the lexemes have. -/
theorem blocks_erase {text : Text} (h : ClosesStrings text) :
    blocks (erase (lexemes text)) = (sources text).map Source.block :=
  (blocksOutside_erase _ h.areLexed).1 []

private theorem body_subset {all pieces : List (Piece Lexeme)} (h : pieces ⊆ all) :
    (∀ start, ∀ source ∈ sourcesOutside start pieces, source.body ⊆ all) ∧
    ∀ nested start body, body ⊆ all →
      ∀ source ∈ sourcesInside nested start body pieces, source.body ⊆ all := by
  induction pieces with
  | nil =>
      refine ⟨by simp [sourcesOutside], fun nested start body hbody => ?_⟩
      simpa [sourcesInside] using hbody
  | cons piece rest ih =>
      rw [List.cons_subset] at h
      obtain ⟨ihOutside, ihInside⟩ := ih h.2
      refine ⟨fun start => ?_, fun nested start body hbody => ?_⟩
      · rw [sourcesOutside]
        split
        · exact ihOutside []
        · split
          · exact ihInside 0 start [] (by simp)
          · exact ihOutside _
      · have hnext : piece :: body ⊆ all := List.cons_subset.mpr ⟨h.1, hbody⟩
        simp only [sourcesInside]
        split
        · exact ihInside _ start _ hnext
        · split
          · cases nested with
            | zero =>
                refine List.forall_mem_cons.mpr ⟨?_, ihOutside []⟩
                simpa using hbody
            | succ nested => exact ihInside nested start _ hnext
          · exact ihInside nested start _ hnext

theorem body_subset_lexemes {text : Text} {source : Source} (h : source ∈ sources text) :
    source.body ⊆ lexemes text :=
  (body_subset (List.Subset.refl _)).1 [] source h

/-! ## Declarations -/

mutual

/-- The parts of a body between semicolons, under a number of open parentheses. The current part is
held last lexeme first. A nested block takes what stands before it with it, and so does a closing
brace on its own. -/
def partsOutside (parens : Nat) (start : List (Piece Lexeme)) :
    List (Piece Lexeme) → List (List (Piece Lexeme))
  | [] => [start.reverse]
  | piece :: rest =>
    if piece = .plain '(' then partsOutside (parens + 1) (piece :: start) rest
    else if piece = .plain ')' then partsOutside (parens - 1) (piece :: start) rest
    else if piece = .plain ';' && parens = 0 then start.reverse :: partsOutside 0 [] rest
    else if piece = .plain '\x7b' && parens = 0 then partsInside 0 rest
    else if piece = .plain '\x7d' && parens = 0 then partsOutside 0 [] rest
    else partsOutside parens (piece :: start) rest

/-- The parts behind a nested block, inside it and under a number of braces of its own. -/
def partsInside (nested : Nat) : List (Piece Lexeme) → List (List (Piece Lexeme))
  | [] => [[]]
  | piece :: rest =>
    if piece = .plain '\x7b' then partsInside (nested + 1) rest
    else if piece = .plain '\x7d' then
      match nested with
      | 0 => partsOutside 0 [] rest
      | nested + 1 => partsInside nested rest
    else partsInside nested rest

end

/-- The parts of the body of a block, in order. -/
def Source.parts (source : Source) : List (List (Piece Lexeme)) :=
  partsOutside 0 [] source.body

/-- The declarations of a block, in order. -/
def Source.declarations (source : Source) : List Declaration :=
  source.parts.filterMap fun part => declaration? (erase part)

private theorem segmentsOutside_erase (pieces : List (Piece Lexeme)) (h : AreLexed pieces) :
    (∀ parens start, segmentsOutside .bare parens (eraseRead start) (erase pieces) =
      (partsOutside parens start pieces).map erase) ∧
    ∀ nested, segmentsInside .bare nested (erase pieces) =
      (partsInside nested pieces).map erase := by
  induction pieces with
  | nil => simp [segmentsOutside, segmentsInside, partsOutside, partsInside, eraseRead]
  | cons piece rest ih =>
      rw [AreLexed, List.forall_mem_cons] at h
      obtain ⟨ihOutside, ihInside⟩ := ih h.2
      cases piece with
      | item lexeme text =>
          cases lexeme with
          | comment =>
              refine ⟨fun parens start => ?_, fun nested => ?_⟩
              · have hnext := ihOutside parens (.item .comment text :: start)
                rw [eraseRead_comment] at hnext
                simpa [partsOutside] using hnext
              · simpa [partsInside] using ihInside nested
          | string =>
              refine ⟨fun parens start => ?_, fun nested => ?_⟩
              · have hnext := ihOutside parens (.item .string text :: start)
                rw [eraseRead_string] at hnext
                rw [erase_string, segmentsOutside_string h.1, hnext]
                simp [partsOutside]
              · rw [erase_string, segmentsInside_string h.1, ihInside]
                simp [partsInside]
      | plain c =>
          have hstructure := isStructure_of_not_isMark h.1
          have hstep := step_of_not_isMark h.1
          refine ⟨fun parens start => ?_, fun nested => ?_⟩
          · have hnext := fun parens => ihOutside parens (.plain c :: start)
            have hfresh := fun parens => ihOutside parens []
            simp only [eraseRead_plain] at hnext
            simp only [eraseRead_nil] at hfresh
            simp only [erase_plain, segmentsOutside, partsOutside, hstructure, if_true, hstep,
              Piece.plain.injEq, hnext, hfresh, ihInside]
            split_ifs <;> simp [eraseRead]
          · simp only [erase_plain, segmentsInside, partsInside, hstructure, hstep, Bool.true_and,
              decide_eq_true_eq, Piece.plain.injEq, ihInside]
            split_ifs
            · rfl
            · cases nested with
              | zero => exact ihOutside 0 []
              | succ nested => rfl
            · rfl

/-- The scan of the text without comments finds the declarations that the lexemes have. -/
theorem declarations_erase {source : Source} (h : AreLexed source.body) :
    declarations (erase source.body) = source.declarations := by
  have hsegments := (segmentsOutside_erase source.body h).1 0 []
  rw [eraseRead_nil] at hsegments
  rw [declarations, hsegments, List.filterMap_map]
  rfl

private theorem part_subset {all pieces : List (Piece Lexeme)} (h : pieces ⊆ all) :
    (∀ parens start, start ⊆ all → ∀ part ∈ partsOutside parens start pieces, part ⊆ all) ∧
    ∀ nested, ∀ part ∈ partsInside nested pieces, part ⊆ all := by
  induction pieces with
  | nil => simp [partsOutside, partsInside]
  | cons piece rest ih =>
      rw [List.cons_subset] at h
      obtain ⟨ihOutside, ihInside⟩ := ih h.2
      refine ⟨fun parens start hstart => ?_, fun nested => ?_⟩
      · have hnext : piece :: start ⊆ all := List.cons_subset.mpr ⟨h.1, hstart⟩
        have hfresh := ihOutside 0 [] (List.nil_subset _)
        rw [partsOutside]
        split_ifs
        · exact ihOutside _ _ hnext
        · exact ihOutside _ _ hnext
        · refine List.forall_mem_cons.mpr ⟨?_, hfresh⟩
          simpa using hstart
        · exact ihInside 0
        · exact hfresh
        · exact ihOutside _ _ hnext
      · simp only [partsInside]
        split_ifs
        · exact ihInside _
        · cases nested with
          | zero => exact ihOutside 0 [] (List.nil_subset _)
          | succ nested => exact ihInside nested
        · exact ihInside _

theorem part_subset_body {source : Source} {part : List (Piece Lexeme)} (h : part ∈ source.parts) :
    part ⊆ source.body :=
  (part_subset (List.Subset.refl _)).1 0 [] (List.nil_subset _) part h

end AddonBundle.Stylesheet
