import AddonBundle.Proofs.Stylesheet.Lexeme
import AddonBundle.Proofs.Stylesheet.Nesting
import AddonBundle.Proofs.Stylesheet.Rendering
/-!
# Values as they are written

Comments are dropped from a stylesheet before strings are looked at. As long as no string holds the
start of a comment that is closed further on, those dropped are the comments outside strings, and
restyling gives the rules that the stylesheet has when it is read lexeme by lexeme, with each value
as it is written there. Otherwise strings lose text, and rules may be lost with it.
-/

namespace AddonBundle.Stylesheet

open Text

variable {σ : Type}

/-! ## Comments inside strings -/

/-- No string holds the start of a comment that is closed in it or behind it. -/
def OpensNone (pieces : List (Piece Lexeme)) : Prop :=
  ∀ front string back, pieces = front ++ .item .string string :: back →
    ∀ before after, string = before ++ '/' :: '*' :: after →
      ¬ "*/".toList <:+: after ++ back.flatMap Piece.text

/-- No string of a stylesheet holds the start of a comment that is closed in it or behind it. -/
def KeepsStrings (text : Text) : Prop :=
  OpensNone (lexemes text)

/-- The comments among lexemes, and all characters between them. -/
def comments (pieces : List (Piece Lexeme)) : List (Piece Unit) :=
  pieces.flatMap fun
    | .plain c => [.plain c]
    | .item .comment text => [.item () text]
    | .item .string text => text.map .plain

@[simp] theorem comments_plain (c : Char) (rest : List (Piece Lexeme)) :
    comments (.plain c :: rest) = .plain c :: comments rest := rfl

@[simp] theorem comments_comment (text : Text) (rest : List (Piece Lexeme)) :
    comments (.item .comment text :: rest) = .item () text :: comments rest := rfl

@[simp] theorem comments_string (text : Text) (rest : List (Piece Lexeme)) :
    comments (.item .string text :: rest) = text.map .plain ++ comments rest := rfl

theorem opensNone_cons {piece : Piece Lexeme} {rest : List (Piece Lexeme)} :
    OpensNone (piece :: rest) ↔
      (∀ string, piece = .item .string string →
        ∀ before after, string = before ++ '/' :: '*' :: after →
          ¬ "*/".toList <:+: after ++ rest.flatMap Piece.text) ∧ OpensNone rest := by
  constructor
  · intro h
    refine ⟨fun string hpiece => h [] string rest (by rw [hpiece, List.nil_append]), ?_⟩
    intro front string back hrest
    exact h (piece :: front) string back (by rw [hrest, List.cons_append])
  · rintro ⟨hfirst, hrest⟩ front string back hsplit
    cases front with
    | nil =>
        obtain ⟨hpiece, rfl⟩ := List.cons.inj hsplit
        exact hfirst string hpiece
    | cons _ front => exact hrest front string back (List.cons.inj hsplit).2

theorem commentRest_eq_none (text : Text) :
    commentRest text = none ↔ ¬ "*/".toList <:+: text := by
  induction text with
  | nil => simp [commentRest]
  | cons c rest ih =>
      have hstart : "*/".toList <+: c :: rest ↔ (c = '*' && rest.head? = some '/') = true := by
        cases rest with
        | nil => simp [List.prefix_cons_iff]
        | cons d rest => simp [List.cons_prefix_cons, eq_comm (a := '*'), eq_comm (a := '/')]
      rw [List.infix_cons_iff, hstart, not_or, ← ih, commentRest]
      split
      · rename_i hclose
        simp [hclose]
      · rename_i hopen
        simp [hopen]

/-- Nothing of a string is taken for a comment when it opens none, as no slash is its last
character. -/
theorem startsNone_comment_iff {string : Text} (h : IsString string) (back : Text) :
    StartsNone recogniseComment string back ↔
      ∀ before after, string = before ++ '/' :: '*' :: after →
        ¬ "*/".toList <:+: after ++ back := by
  constructor
  · intro hnone before after hsplit
    have hstart := hnone before ('/' :: '*' :: after) hsplit (by simp)
    rw [← commentRest_eq_none]
    simpa [recogniseComment] using hstart
  · intro hopens before after hsplit hne
    unfold recogniseComment
    split
    · rename_i rest hrest
      match after with
      | [] => exact absurd rfl hne
      | [c] =>
          obtain ⟨mark, hmark, -, hlast⟩ := h.ends
          rw [hsplit, List.getLast?_concat, Option.some.injEq] at hlast
          rw [List.cons_append, List.cons.injEq] at hrest
          rw [← hlast, hrest.1] at hmark
          cases hmark
      | c :: d :: after =>
          simp only [List.cons_append, List.cons.injEq] at hrest
          obtain ⟨rfl, rfl, rfl⟩ := hrest
          rw [(commentRest_eq_none _).mpr (hopens before after hsplit)]
          rfl
    · rfl

/-- The comments found in the text are those outside strings exactly when no string opens one. -/
theorem keepsStrings_iff (text : Text) :
    KeepsStrings text ↔ pieces recogniseComment text = comments (lexemes text) := by
  induction text using behind_induction with
  | nil =>
      refine iff_of_true ?_ rfl
      intro front string back hsplit
      exact absurd hsplit.symm (by simp [lexemes, pieces])
  | cons c rest ih =>
      unfold KeepsStrings at ih ⊢
      obtain ⟨n, hcomment, heq⟩ | ⟨string, behind, hstring, hsplit, heq⟩ | ⟨hcomment, heq⟩ :=
        lexemes_cons c rest
      · have hbehind := ih _ _ (List.cons_ne_nil _ _) (cons_eq_take_append_drop c rest (n - 1))
        rw [heq, pieces_cons_item ignoresBefore_comment hcomment, opensNone_cons, hbehind]
        simp
      · rw [heq, hsplit, comments_string, pieces_append_iff ignoresBefore_comment,
          startsNone_comment_iff hstring, opensNone_cons, ← ih string behind hstring.ne_nil hsplit,
          lexemes, texts_pieces]
        simp
      · have hbehind := ih [c] rest (List.cons_ne_nil _ _) rfl
        rw [heq, pieces_cons_plain ignoresBefore_comment hcomment, opensNone_cons, hbehind]
        simp

theorem dropComments_eq_erase {text : Text} (h : KeepsStrings text) :
    dropComments text = erase (lexemes text) := by
  rw [dropComments, substitute, (keepsStrings_iff text).mp h]
  induction lexemes text with
  | nil => rfl
  | cons piece rest ih =>
      match piece with
      | .plain c => simp [ih]
      | .item .comment text => simp [ih]
      | .item .string text => simp [ih, List.flatMap_map]

/-! ## Stylesheets without variables and imports -/

theorem erase_subset (text : Text) : erase (lexemes text) ⊆ text := by
  have hsubset : ∀ pieces, erase pieces ⊆ pieces.flatMap Piece.text := by
    intro pieces
    induction pieces with
    | nil => simp
    | cons piece rest ih =>
        rw [List.flatMap_cons]
        match piece with
        | .plain c => exact List.cons_subset_cons c ih
        | .item .comment text => exact List.subset_append_of_subset_right _ ih
        | .item .string text =>
            exact List.append_subset.mpr
              ⟨List.subset_append_left _ _, List.subset_append_of_subset_right _ ih⟩
  have hall := hsubset (lexemes text)
  rwa [lexemes, texts_pieces] at hall

theorem substituteVariables_eq_self {scope : Scope} {path : Option Text} {text : Text}
    (h : '$' ∉ text) : substituteVariables scope path text = .ok text := by
  have hnone : StartsNone recogniseVariable text [] := by
    intro before after hsplit hne
    obtain ⟨c, rest, rfl⟩ := List.exists_cons_of_ne_nil hne
    unfold recogniseVariable
    split
    · rename_i heq
      rw [hsplit, List.mem_append, (List.cons.inj heq).1] at h
      exact absurd (.inr List.mem_cons_self) h
    · rfl
  have hplain : ∀ text : Text, substitutePieces scope (text.map .plain) = .ok text := by
    intro text
    induction text with
    | nil => rfl
    | cons c rest ih =>
        rw [List.map_cons, substitutePieces, ih]
        rfl
  rw [substituteVariables, pieces_eq_plain (fun _ _ _ => rfl) hnone, hplain]

theorem inlinePieces_plain (load : List Text → Text → Text → Except Failure (Text × List Text))
    (importer : Text) (depth : Int) (seen : List Text) (text : Text) :
    inlinePieces load importer depth seen (text.map .plain) = .ok (text, seen) := by
  induction text generalizing depth with
  | nil => rfl
  | cons c rest ih =>
      rw [List.map_cons, inlinePieces, ih]
      rfl

theorem pieces_import_eq_plain {text : Text} (h : ¬ "@import".toList <:+: text) :
    pieces recogniseImport text = text.map .plain := by
  refine pieces_eq_plain (fun _ _ _ => rfl) fun before after hsplit _ => ?_
  have hnone : after? "@import".toList (after ++ []) = none := by
    rw [Option.eq_none_iff_forall_ne_some]
    intro rest hafter
    rw [List.append_nil, after?_eq_some] at hafter
    exact h ⟨before, rest, by rw [hsplit, hafter, List.append_assoc]⟩
  rw [recogniseImport, hnone]
  rfl

/-- A stylesheet without variables and imports is only stripped of its comments. -/
theorem flatten_eq_erase {view : View σ} {s : σ} {path text : Text}
    (hfile : view.isFile s path = .ok true) (hread : readSheet view s path = .ok text)
    (hvariable : '$' ∉ text) (hkeeps : KeepsStrings text)
    (himport : ¬ "@import".toList <:+: erase (lexemes text)) :
    flatten view s path = .ok (erase (lexemes text)) := by
  have hlimit : Limit.maxNesting = 989 + 1 := rfl
  rw [flatten_of_readSheet hfile hread, flattenText, hlimit, inlineImports_succ,
    dropComments_eq_erase hkeeps, pieces_import_eq_plain himport, inlinePieces_plain]
  dsimp only
  rw [substituteVariables_eq_self fun hmem => hvariable (erase_subset text hmem)]

/-! ## Rules of a stylesheet -/

/-- The restyled rule of a block among lexemes, if it has one. -/
def Source.restyle (mapping : ClassMapping) (source : Source) : Option RestyledRule :=
  let prelude := trim (erase source.prelude)
  if prelude.head? = some '@' then none
  else do
    let before ← normalSelector prelude
    let after ← renameClasses mapping before
    some ⟨before, after, renderRule after source.declarations⟩

theorem restyleBlock_block (mapping : ClassMapping) {source : Source} (h : AreLexed source.body) :
    restyleBlock mapping source.block = source.restyle mapping := by
  rw [restyleBlock, Source.restyle, Block.isAtRule, Source.block]
  simp only [declarations_erase h, decide_eq_true_eq]

theorem restyleText_erase (mapping : ClassMapping) {text : Text} (h : ClosesStrings text) :
    restyleText mapping (erase (lexemes text)) =
      (sources text).filterMap (Source.restyle mapping) := by
  rw [restyleText, blocks_erase h, List.filterMap_map]
  apply List.filterMap_congr
  intro source hsource
  exact restyleBlock_block mapping (h.areLexed.mono (body_subset_lexemes hsource))

/-- A declaration as a part of a body has it: property and value are what stands before and behind
the first colon, without comments outside strings and the white space at the ends, and each string
behind that colon is in the value as it is. -/
structure IsWritten (part : List (Piece Lexeme)) (declaration : Declaration) : Prop where
  split : ∃ name value, erase part = name ++ ':' :: value ∧ ':' ∉ name ∧
    declaration.property = trim name ∧ declaration.value = trim value
  strings : ∀ front back, part = front ++ back → ':' ∈ erase front →
    ∀ string, .item .string string ∈ back → string <:+: declaration.value

theorem IsString.infix_trim {string text : Text} (h : IsString string) (hstands : string <:+: text) :
    string <:+: trim text := by
  have hblank : ∀ mark, isMark mark = true → isBlank mark = false := by
    intro mark hmark
    rw [isMark, Bool.or_eq_true, decide_eq_true_eq, decide_eq_true_eq] at hmark
    rcases hmark with rfl | rfl <;> decide
  obtain ⟨mark, hmark, hhead, hlast⟩ := h.ends
  refine Text.infix_trim ?_ ?_ hstands
  · rw [hhead]
    rintro _ ⟨⟩
    exact hblank mark hmark
  · rw [hlast]
    rintro _ ⟨⟩
    exact hblank mark hmark

theorem isWritten_of_declaration? {part : List (Piece Lexeme)} {declaration : Declaration}
    (hlexed : AreLexed part) (h : declaration? (erase part) = some declaration) :
    IsWritten part declaration := by
  obtain ⟨name, value, hpart, hcolon, hproperty, hvalue⟩ := exists_colon_of_declaration? h
  refine ⟨⟨name, value, hpart, hcolon, hproperty, hvalue⟩, ?_⟩
  rintro front back rfl hfront string hmem
  have hback : erase back <:+: value := by
    rw [erase_append] at hpart
    rcases List.append_eq_append_iff.mp hpart with ⟨more, rfl, -⟩ | ⟨more, heq, hmore⟩
    · exact absurd (List.mem_append_left _ hfront) hcolon
    · rw [heq] at hfront
      cases more with
      | nil => exact absurd (by simpa using hfront) hcolon
      | cons _ more =>
          obtain ⟨-, rfl⟩ := List.cons.inj hmore
          exact (List.suffix_append _ _).isInfix
  obtain ⟨before, after, rfl⟩ := List.append_of_mem hmem
  have hstring : string <:+: erase (before ++ .item .string string :: after) :=
    ⟨erase before, erase after, by rw [erase_append, erase_string, List.append_assoc]⟩
  rw [hvalue]
  exact (hlexed _ (List.mem_append_right _ hmem)).infix_trim (hstring.trans hback)

/-- The comments found are those outside strings exactly when no string holds the start of a comment
that is closed further on. Then, when strings are closed on their line and the text without comments
has no variable and no import, restyling gives the rules that stand there: each of a block of its
own, and its declarations with the values as they are written, less comments outside strings and the
white space at the ends. -/
theorem restyleSheet_as_written (view : View σ) (s : σ) (directory : Text) (mapping : ClassMapping)
    {text : Text} (hpresent : view.present s (sheetPath directory mapping.sheet) = .ok true)
    (hfile : view.isFile s (sheetPath directory mapping.sheet) = .ok true)
    (hread : readSheet view s (sheetPath directory mapping.sheet) = .ok text)
    (hvariable : '$' ∉ text) (hstrings : ClosesStrings text) :
    (KeepsStrings text ↔ pieces recogniseComment text = comments (lexemes text)) ∧
    (KeepsStrings text → ¬ "@import".toList <:+: erase (lexemes text) →
      restyleSheet view s directory mapping =
        .ok ((sources text).filterMap (Source.restyle mapping))) ∧
    ∀ source ∈ sources text, ∀ declaration ∈ source.declarations,
      ∃ part ∈ source.parts, IsWritten part declaration := by
  refine ⟨keepsStrings_iff text, fun hkeeps himport => ?_, ?_⟩
  · have hflatten := flatten_eq_erase hfile hread hvariable hkeeps himport
    unfold restyleSheet
    dsimp only
    rw [hpresent, hflatten, ← restyleText_erase mapping hstrings]
    rfl
  · intro source hsource declaration hdeclaration
    obtain ⟨part, hpart, hread⟩ := List.mem_filterMap.mp hdeclaration
    refine ⟨part, hpart, isWritten_of_declaration? (hstrings.areLexed.mono ?_) hread⟩
    exact List.Subset.trans (part_subset_body hpart) (body_subset_lexemes hsource)

/-- A tree that has one stylesheet, for the component `c`. -/
def sheetTree (sheet : Text) : Tree :=
  ⟨[(sheetPath componentsDir ['c'], Utf8.encode sheet)]⟩

def componentMapping : ClassMapping :=
  ⟨['c'], [(['a'], "s_a_h".toList)]⟩

/-- Structure inside strings and comments, and the start of a comment that is not closed. -/
def writtenSheet : Text :=
  ".a /* \x7b */ \x7b content: \"x;\x7d:\"/* y */ z; \x7d .a .a \x7b quotes: \"/*\" \x7d".toList

theorem restyleSheet_as_written_structure :
    KeepsStrings writtenSheet ∧
    restyleSheet (.memory id fun tree _ => tree) (sheetTree writtenSheet) componentsDir
        componentMapping =
      .ok [⟨".a".toList, ".s_a_h".toList, ".s_a_h \x7bcontent:\"x;\x7d:\" z;\x7d\n".toList⟩,
        ⟨".a .a".toList, ".s_a_h .s_a_h".toList,
          ".s_a_h .s_a_h \x7bquotes:\"/*\";\x7d\n".toList⟩] := by
  have hread : readSheet (.memory id fun tree _ => tree) (sheetTree writtenSheet)
      (sheetPath componentsDir ['c']) = .ok writtenSheet := by decide +kernel
  obtain ⟨hkeeps, hrules, -⟩ := restyleSheet_as_written (.memory id fun tree _ => tree)
    (sheetTree writtenSheet) componentsDir componentMapping (by decide +kernel) (by decide +kernel)
    hread (by decide +kernel) (by decide +kernel)
  have hwritten : KeepsStrings writtenSheet := hkeeps.mpr (by decide +kernel)
  refine ⟨hwritten, ?_⟩
  rw [hrules hwritten (by decide +kernel)]
  decide +kernel

/-- Two strings that hold the start and the end of a comment. -/
def splitSheet : Text :=
  ".a \x7b content: \"/*\"; \x7d .a .a \x7b content: \"*/\"; \x7d".toList

/-- All between the two strings is dropped: one rule is left, with an empty string. -/
theorem restyleSheet_loses_rule :
    '$' ∉ splitSheet ∧ ¬ "@import".toList <:+: splitSheet ∧ ClosesStrings splitSheet ∧
    (sources splitSheet).map (fun source => (trim (erase source.prelude), source.declarations)) =
      [(".a".toList, [⟨"content".toList, "\"/*\"".toList⟩]),
        (".a .a".toList, [⟨"content".toList, "\"*/\"".toList⟩])] ∧
    restyleSheet (.memory id fun tree _ => tree) (sheetTree splitSheet) componentsDir
        componentMapping =
      .ok [⟨".a".toList, ".s_a_h".toList, ".s_a_h \x7bcontent:\"\";\x7d\n".toList⟩] := by
  decide +kernel

end AddonBundle.Stylesheet
