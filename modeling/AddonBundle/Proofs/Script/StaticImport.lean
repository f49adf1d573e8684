import AddonBundle.Proofs.Script.PathSite
/-!
# Static imports of libraries

An import is the keyword, white space with or without names and the word `from`, and a quoted path
up and into the libraries. Two imports that overlap have the quoted path in common, since none
starts inside it. So the search from left to right finds every place where one ends.
-/

namespace AddonBundle.Script

open Text

/-! ## Clauses -/

/-- White space, or names between white space, in front of the word `from` and more white space. -/
def IsClause (clause : Text) : Prop :=
  (clause ≠ [] ∧ IsBlankText clause) ∨
    ∃ names blanks, clause = names ++ "from".toList ++ blanks ∧ blanks ≠ [] ∧ IsBlankText blanks ∧
      2 ≤ names.length ∧ names.head?.any isBlank = true ∧ names.getLast?.any isBlank = true ∧
      ';' ∉ names

private theorem dropLast_from (names : Text) :
    (names ++ "from".toList).dropLast.dropLast.dropLast.dropLast = names := by
  have hchars : names ++ "from".toList = names ++ ['f'] ++ ['r'] ++ ['o'] ++ ['m'] := by simp
  rw [hchars, List.dropLast_concat, List.dropLast_concat, List.dropLast_concat, List.dropLast_concat]

theorem trimEnd_clause (names : Text) {blanks : Text} (h : IsBlankText blanks) :
    trimEnd (names ++ "from".toList ++ blanks) = names ++ "from".toList := by
  rw [trimEnd_append_blank h]
  refine trimEnd_eq_self fun c hc => ?_
  have hlast : (names ++ "from".toList).getLast? = some 'm' := by
    rw [List.getLast?_append_of_ne_nil _ (by decide)]
    rfl
  rw [hlast] at hc
  rw [← Option.some.inj hc]
  decide

theorem isImportClause_iff {clause : Text} : isImportClause clause = true ↔ IsClause clause := by
  rw [isImportClause, IsClause, Bool.or_eq_true]
  refine or_congr ?_ ?_
  · rw [Bool.and_eq_true, List.all_eq_true, Bool.not_eq_true', List.isEmpty_eq_false_iff]
    rfl
  · simp only [Bool.and_eq_true, decide_eq_true_eq, List.isSuffixOf_iff_suffix, Bool.not_eq_true',
      List.contains_eq_mem, decide_eq_false_iff_not]
    constructor
    · rintro ⟨⟨⟨⟨⟨hshorter, names, hbody⟩, hnames⟩, hhead⟩, hlast⟩, hother⟩
      obtain ⟨blanks, hblanks, hclause⟩ := exists_trimEnd clause
      rw [← hbody] at hclause hshorter hnames hhead hlast hother
      rw [dropLast_from] at hnames hhead hlast hother
      refine ⟨names, blanks, hclause, ?_, hblanks, hnames, hhead, hlast, hother⟩
      rintro rfl
      rw [List.append_nil] at hclause
      rw [hclause] at hshorter
      exact Nat.lt_irrefl _ hshorter
    · rintro ⟨names, blanks, rfl, hne, hblanks, hnames, hhead, hlast, hother⟩
      rw [trimEnd_clause names hblanks, dropLast_from]
      refine ⟨⟨⟨⟨⟨?_, List.suffix_append _ _⟩, hnames⟩, hhead⟩, hlast⟩, hother⟩
      have hpos := List.length_pos_iff.mpr hne
      simp only [List.length_append]
      omega

/-- White space of at least one character. -/
def IsSpacing (text : Text) : Prop :=
  text ≠ [] ∧ IsBlankText text

/-- What stands between the keyword and the quoted path of an import: white space, and then possibly
names, white space, the word `from` and white space. -/
inductive IsLead : Text → Prop
  | bare {blanks : Text} (hblanks : IsSpacing blanks) : IsLead blanks
  | named {blanks names gap behind : Text} (hblanks : IsSpacing blanks)
      (hnames : ∀ c ∈ names, c ≠ ';' ∧ isQuote c = false) (hgap : IsSpacing gap)
      (hbehind : IsSpacing behind) :
      IsLead (blanks ++ names ++ gap ++ "from".toList ++ behind)

private theorem not_isQuote {blanks : Text} (h : IsBlankText blanks) :
    ∀ c ∈ blanks, c ≠ ';' ∧ isQuote c = false := by
  intro c hc
  have hblank := h c hc
  constructor
  · intro heq
    rw [heq] at hblank
    exact absurd hblank (by decide)
  · exact isQuote_of_isBlank hblank

/-! ## What is in front of the quoted path -/

section

variable {front : Text} {mark : Char} (hfront : ∀ c ∈ front, isQuote c = false)
  (hmark : isQuote mark = true) (path : Text)

include hfront hmark

theorem takeWhile_append_quote :
    (front ++ mark :: path).takeWhile (fun c => !isQuote c) = front :=
  takeWhile_append_stop path (fun c hc => by rw [hfront c hc]; rfl) (by rw [hmark]; rfl)

theorem dropWhile_append_quote :
    (front ++ mark :: path).dropWhile (fun c => !isQuote c) = mark :: path :=
  dropWhile_append_stop path (fun c hc => by rw [hfront c hc]; rfl) (by rw [hmark]; rfl)

end

theorem isLead_iff {clause : Text} :
    IsLead clause ↔ IsClause clause ∧ ∀ c ∈ clause, isQuote c = false := by
  constructor
  · intro h
    cases h with
    | bare hblanks => exact ⟨.inl hblanks, fun c hc => (not_isQuote hblanks.2 c hc).2⟩
    | @named blanks names gap behind hblanks hnames hgap hbehind =>
        have hfrom : ∀ c ∈ "from".toList, isQuote c = false := by simp [isQuote]
        have hplain : ∀ c ∈ blanks ++ names ++ gap, c ≠ ';' ∧ isQuote c = false := by
          simp only [List.forall_mem_append]
          exact ⟨⟨not_isQuote hblanks.2, hnames⟩, not_isQuote hgap.2⟩
        have hblanksPos := List.length_pos_iff.mpr hblanks.1
        have hgapPos := List.length_pos_iff.mpr hgap.1
        refine ⟨.inr ⟨blanks ++ names ++ gap, behind, rfl, hbehind.1, hbehind.2, ?_, ?_, ?_, ?_⟩, ?_⟩
        · simp only [List.length_append]
          omega
        · obtain ⟨c, more, rfl⟩ := List.exists_cons_of_ne_nil hblanks.1
          simpa using hblanks.2 c List.mem_cons_self
        · rw [List.getLast?_append_of_ne_nil _ hgap.1, List.getLast?_eq_some_getLast hgap.1]
          simpa using hgap.2 _ (List.getLast_mem hgap.1)
        · exact fun hmem => (hplain _ hmem).1 rfl
        · intro c hc
          rw [List.mem_append, List.mem_append] at hc
          obtain (hc | hc) | hc := hc
          · exact (hplain c hc).2
          · exact hfrom c hc
          · exact (not_isQuote hbehind.2 c hc).2
  · rintro ⟨hblanks | ⟨names, behind, rfl, hne, hbehind, hlong, hhead, hlast, hother⟩, hquote⟩
    · exact .bare hblanks
    · -- the first and the last of the characters before the word are its white space
      obtain ⟨c, inside, rfl⟩ := List.exists_cons_of_ne_nil (List.ne_nil_of_length_pos
        (Nat.lt_of_lt_of_le (by decide) hlong))
      have hinside : inside ≠ [] := by
        intro hnil
        rw [hnil, List.length_singleton] at hlong
        omega
      obtain ⟨middle, d, rfl⟩ := List.eq_nil_or_concat inside |>.resolve_left hinside
      rw [List.concat_eq_append] at *
      rw [← List.cons_append, List.getLast?_concat] at hlast
      have hmiddle : ∀ e ∈ middle, e ≠ ';' ∧ isQuote e = false := by
        intro e he
        refine ⟨?_, hquote e (by simp [he])⟩
        intro heq
        rw [heq] at he
        exact hother (by simp [he])
      have hshape : c :: (middle ++ [d]) ++ "from".toList ++ behind =
          [c] ++ middle ++ [d] ++ "from".toList ++ behind := by simp
      rw [hshape]
      exact .named ⟨by simp, by simpa [IsBlankText] using hhead⟩ hmiddle
        ⟨by simp, by simpa [IsBlankText] using hlast⟩ ⟨hne, hbehind⟩

/-! ## Paths to libraries -/

/-- Steps up at the start of a path, one more than a number. -/
def stepsUp (more : Nat) : Text :=
  (List.replicate (more + 1) "../".toList).flatten

theorem stepsUp_succ (more : Nat) : stepsUp (more + 1) = "../".toList ++ stepsUp more := by
  rw [stepsUp, List.replicate_succ, List.flatten_cons]
  rfl

theorem mem_stepsUp {more : Nat} {c : Char} (h : c ∈ stepsUp more) : c = '.' ∨ c = '/' := by
  obtain ⟨step, hstep, hc⟩ := List.mem_flatten.mp h
  rw [(List.mem_replicate.mp hstep).2] at hc
  simpa [or_comm] using hc

theorem afterStepsUp_eq (text : Text) :
    afterStepsUp text =
      (after? "../".toList text).map fun rest => (afterStepsUp rest).getD rest := by
  have hchars : "../".toList = ['.', '.', '/'] := by decide
  rw [hchars, afterStepsUp.eq_def text]
  split
  · rename_i rest
    simp only [after?, if_true, Option.map_some]
    cases afterStepsUp rest <;> rfl
  · rename_i hother
    rw [eq_comm, Option.map_eq_none_iff, Option.eq_none_iff_forall_ne_some]
    intro rest hrest
    exact hother rest (after?_eq_some.mp hrest)

theorem afterStepsUp_eq_some {text inside : Text} (h : afterStepsUp text = some inside) :
    ∃ more, text = stepsUp more ++ inside := by
  induction text using behind_induction generalizing inside with
  | nil => cases h
  | cons c rest ih =>
      rw [afterStepsUp_eq] at h
      obtain ⟨behind, hafter, hinside⟩ := Option.map_eq_some_iff.mp h
      have htext := after?_eq_some.mp hafter
      cases hdeeper : afterStepsUp behind with
      | none =>
          rw [hdeeper, Option.getD_none] at hinside
          exact ⟨0, by rw [htext, hinside]; rfl⟩
      | some deeper =>
          rw [hdeeper, Option.getD_some] at hinside
          obtain ⟨more, hsteps⟩ := ih _ behind (by decide) htext hdeeper
          exact ⟨more + 1, by rw [htext, hsteps, stepsUp_succ, hinside, List.append_assoc]⟩

theorem afterStepsUp_stepsUp (more : Nat) {inside : Text} (h : afterStepsUp inside = none) :
    afterStepsUp (stepsUp more ++ inside) = some inside := by
  induction more with
  | zero =>
      have hstep : stepsUp 0 = "../".toList := by decide
      rw [hstep, afterStepsUp_eq, after?_append, Option.map_some, h, Option.getD_none]
  | succ more ih =>
      rw [stepsUp_succ, List.append_assoc, afterStepsUp_eq, after?_append, Option.map_some, ih,
        Option.getD_some]

/-- The file of a path to a shared library that a mark ends, and what follows the mark. -/
def importedFile (mark : Char) (path : Text) : Option (Text × Text) := do
  let inside ← afterStepsUp path
  let inside ← after? "libraries/".toList inside
  let (file, rest) ← libraryFile inside
  let behind ← after? [mark] rest
  some (file, behind)

theorem importedFile_eq_some {mark : Char} {path file rest : Text}
    (h : importedFile mark path = some (file, rest)) :
    ∃ more name, name ≠ [] ∧ (∀ c ∈ name, isName c = true) ∧ file = name ++ ".js".toList ∧
      path = stepsUp more ++ ("libraries/".toList ++ (name ++ (".js".toList ++ mark :: rest))) := by
  simp only [importedFile, Option.bind_eq_bind] at h
  obtain ⟨inside, hsteps, h⟩ := Option.bind_eq_some_iff.mp h
  obtain ⟨inside', hlibraries, h⟩ := Option.bind_eq_some_iff.mp h
  obtain ⟨⟨found, behind⟩, hfile, h⟩ := Option.bind_eq_some_iff.mp h
  obtain ⟨behind', hmark, h⟩ := Option.bind_eq_some_iff.mp h
  cases h
  obtain ⟨more, rfl⟩ := afterStepsUp_eq_some hsteps
  obtain ⟨name, hne, hname, rfl, rfl⟩ := libraryFile_eq_some hfile
  refine ⟨more, name, hne, hname, rfl, ?_⟩
  have hbehind : behind = mark :: rest := after?_eq_some.mp hmark
  rw [after?_eq_some.mp hlibraries, hbehind, List.append_assoc]

theorem importedFile_stepsUp (mark : Char) (more : Nat) {name : Text} (rest : Text)
    (hne : name ≠ []) (hname : ∀ c ∈ name, isName c = true) :
    importedFile mark
        (stepsUp more ++ ("libraries/".toList ++ (name ++ (".js".toList ++ mark :: rest)))) =
      some (name ++ ".js".toList, rest) := by
  have hinside : ∀ behind, afterStepsUp ("libraries/".toList ++ behind) = none := by
    intro behind
    have hchars : "libraries/".toList = 'l' :: "ibraries/".toList := by decide
    rw [hchars]
    rfl
  have hmark : after? [mark] (mark :: rest) = some rest := after?_append [mark] rest
  rw [← List.append_assoc name]
  simp only [importedFile, afterStepsUp_stepsUp more (hinside _), after?_append,
    libraryFile_append _ hne hname, hmark, Option.bind_eq_bind, Option.bind_some]

/-- Behind the mark that opens its path, an import is a file and ends with that mark. -/
private theorem closing_eq (mark : Char) (total : Nat) (path : Text) :
    ((afterStepsUp path).bind fun inside =>
      (after? "libraries/".toList inside).bind fun inside =>
        (libraryFile inside).bind fun found =>
          if found.2.head? = some mark then some (found.1, total - found.2.length + 1) else none) =
      (importedFile mark path).map fun found => (found.1, total - (found.2.length + 1) + 1) := by
  rw [importedFile]
  cases afterStepsUp path with
  | none => rfl
  | some inside =>
      simp only [Option.bind_eq_bind, Option.bind_some]
      cases after? "libraries/".toList inside with
      | none => rfl
      | some inside =>
          simp only [Option.bind_some]
          rcases libraryFile inside with - | ⟨file, - | ⟨c, rest⟩⟩
          · rfl
          · rfl
          · by_cases hc : c = mark
            · subst hc
              simp [after?]
            · simp [after?, hc, Ne.symm hc]

theorem length_importedFile {mark : Char} {path file rest : Text}
    (h : importedFile mark path = some (file, rest)) : rest.length < path.length := by
  obtain ⟨more, name, -, -, -, rfl⟩ := importedFile_eq_some h
  simp only [List.length_append, List.length_cons]
  omega

/-! ## Imports from their parts -/

theorem recogniseImport_iff {before : Option Char} {text file : Text} {length : Nat} :
    recogniseImport before text = some (file, length) ↔
      before.any isWord = false ∧ ∃ clause mark path rest, (∀ c ∈ clause, isQuote c = false) ∧
        isQuote mark = true ∧ text = "import".toList ++ (clause ++ mark :: path) ∧
        IsClause clause ∧ importedFile mark path = some (file, rest) ∧
        length + rest.length = text.length := by
  simp only [recogniseImport, drop_length_takeWhile, Option.bind_eq_bind, closing_eq]
  constructor
  · intro h
    split at h
    · cases h
    rename_i hbefore
    obtain ⟨behind, himport, h⟩ := Option.bind_eq_some_iff.mp h
    split at h
    · cases h
    rename_i mark path hpath
    obtain ⟨hclause, h⟩ := Option.ite_none_right_eq_some.mp h
    obtain ⟨⟨found, rest⟩, hfile, h⟩ := Option.map_eq_some_iff.mp h
    cases h
    have hquote : isQuote mark = true := by
      have hnot := List.head?_dropWhile_not (fun c => !isQuote c) behind
      rw [hpath] at hnot
      simpa using hnot
    have htext : text = "import".toList ++ (behind.takeWhile (fun c => !isQuote c) ++
        mark :: path) := by
      rw [← hpath, List.takeWhile_append_dropWhile, after?_eq_some.mp himport]
    refine ⟨by simpa using hbefore, _, mark, path, rest, fun c hc => ?_, hquote, htext,
      isImportClause_iff.mp hclause, hfile, ?_⟩
    · simpa using List.mem_takeWhile_imp hc
    · have hshorter := length_importedFile hfile
      rw [htext]
      simp only [List.length_append, List.length_cons]
      omega
  · rintro ⟨hbefore, clause, mark, path, rest, hclause, hmark, rfl, himport, hfile, hlength⟩
    rw [hbefore, if_neg Bool.false_ne_true, after?_append, Option.bind_some,
      takeWhile_append_quote hclause hmark path, dropWhile_append_quote hclause hmark path]
    dsimp only
    rw [if_pos (isImportClause_iff.mpr himport), hfile, Option.map_some]
    have hshorter := length_importedFile hfile
    simp only [List.length_append, List.length_cons] at hlength ⊢
    congr 2
    omega

/-- An import from its parts. -/
theorem exists_recogniseImport {before : Option Char} {clause path file rest : Text} {mark : Char}
    (hbefore : before.any isWord = false) (hclause : ∀ c ∈ clause, isQuote c = false)
    (hmark : isQuote mark = true) (himport : IsClause clause)
    (hfile : importedFile mark path = some (file, rest)) :
    ∃ front, "import".toList ++ (clause ++ mark :: path) = front ++ rest ∧
      front.head? = some 'i' ∧ front.getLast? = some mark ∧
      recogniseImport before (front ++ rest) = some (file, front.length) := by
  obtain ⟨more, name, -, -, -, hpath⟩ := importedFile_eq_some hfile
  have hshape : "import".toList ++ (clause ++ mark :: path) =
      "import".toList ++ (clause ++ mark :: (stepsUp more ++ ("libraries/".toList ++
        (name ++ ".js".toList)))) ++ [mark] ++ rest := by
    rw [hpath]
    simp only [List.append_assoc, List.cons_append, List.nil_append]
  refine ⟨_, hshape, rfl, List.getLast?_concat, ?_⟩
  rw [← hshape]
  refine recogniseImport_iff.2
    ⟨hbefore, clause, mark, path, rest, hclause, hmark, rfl, himport, hfile, ?_⟩
  rw [hshape]
  simp only [List.length_append]

/-- An import statement as it is written, and the file of the library that it names. -/
inductive IsImport : Text → Text → Prop
  | intro {lead name : Text} {mark : Char} (more : Nat) (hlead : IsLead lead)
      (hmark : isQuote mark = true) (hne : name ≠ []) (hname : ∀ c ∈ name, isName c = true) :
      IsImport ("import".toList ++ (lead ++ mark ::
        (stepsUp more ++ ("libraries/".toList ++ (name ++ ".js".toList ++ [mark])))))
        (name ++ ".js".toList)

theorem IsImport.exists_cons {statement file : Text} (h : IsImport statement file) :
    ∃ rest, statement = 'i' :: rest := by
  cases h
  exact ⟨_, rfl⟩

theorem recogniseImport_iff_isImport {before : Option Char} {text file : Text} {length : Nat} :
    recogniseImport before text = some (file, length) ↔
      before.any isWord = false ∧ ∃ statement rest, IsImport statement file ∧
        text = statement ++ rest ∧ length = statement.length := by
  rw [recogniseImport_iff]
  refine and_congr_right fun _ => ?_
  constructor
  · rintro ⟨clause, mark, path, rest, hquote, hmark, rfl, hclause, hfile, hlength⟩
    obtain ⟨more, name, hne, hname, rfl, rfl⟩ := importedFile_eq_some hfile
    refine ⟨_, rest, .intro more (isLead_iff.mpr ⟨hclause, hquote⟩) hmark hne hname, ?_, ?_⟩
    · simp only [List.append_assoc, List.cons_append, List.nil_append]
    · simp only [List.length_append, List.length_cons, List.length_nil] at hlength ⊢
      omega
  · rintro ⟨statement, rest, himport, rfl, rfl⟩
    obtain @⟨lead, name, mark, more, hlead, hmark, hne, hname⟩ := himport
    obtain ⟨hclause, hquote⟩ := isLead_iff.mp hlead
    refine ⟨lead, mark, _, rest, hquote, hmark, ?_, hclause,
      importedFile_stepsUp mark more rest hne hname, ?_⟩
    · simp only [List.append_assoc, List.cons_append, List.nil_append]
    · simp only [List.length_append, List.length_cons, List.length_nil]

/-! ## Where no import starts -/

/-- An import goes on behind its first word with white space. -/
theorem exists_of_recogniseImport {before : Option Char} {text : Text} {result : Text × Nat}
    (h : recogniseImport before text = some result) :
    ∃ c rest, text = "import".toList ++ c :: rest ∧ isBlank c = true := by
  obtain ⟨-, clause, mark, path, rest, -, -, htext, himport, -⟩ := recogniseImport_iff.1 h
  have hhead : ∃ c more, clause = c :: more ∧ isBlank c = true := by
    rcases himport with ⟨hne, hblank⟩ | ⟨names, blanks, rfl, -, -, -, hhead, -⟩
    · obtain ⟨c, more, rfl⟩ := List.exists_cons_of_ne_nil hne
      exact ⟨c, more, rfl, hblank c List.mem_cons_self⟩
    · obtain ⟨c, hc, hblank⟩ := Option.any_eq_true _ _ |>.mp hhead
      obtain ⟨more, rfl⟩ := List.head?_eq_some_iff.mp hc
      exact ⟨c, _, rfl, hblank⟩
  obtain ⟨c, more, rfl, hblank⟩ := hhead
  exact ⟨c, more ++ mark :: path, htext, hblank⟩

/-- Looking at the character before leaves out imports only. -/
theorem recogniseImport_none {text : Text} (h : recogniseImport none text = none)
    (before : Option Char) : recogniseImport before text = none := by
  rw [Option.eq_none_iff_forall_ne_some] at h ⊢
  rintro ⟨file, length⟩ hsome
  exact h ⟨file, length⟩ (recogniseImport_iff.2 ⟨rfl, (recogniseImport_iff.1 hsome).2⟩)

theorem startsNone_import {front : Text} (back : Text) (h : 'i' ∉ front) :
    StartsNone recogniseImport front back := by
  intro before after hsplit hne
  rw [Option.eq_none_iff_forall_ne_some]
  intro result hresult
  obtain ⟨c, rest, htext, -⟩ := exists_of_recogniseImport hresult
  obtain ⟨d, more, rfl⟩ := List.exists_cons_of_ne_nil hne
  obtain rfl : d = 'i' := (List.cons.inj htext).1
  exact h (hsplit ▸ by simp)

/-- In a name no import starts, as white space would have to follow. -/
theorem startsNone_name {name : Text} (back : Text) (hname : ∀ c ∈ name, isName c = true) :
    StartsNone recogniseImport name ('.' :: back) := by
  intro before after hsplit hne
  rw [Option.eq_none_iff_forall_ne_some]
  intro result hresult
  obtain ⟨c, rest, htext, hblank⟩ := exists_of_recogniseImport hresult
  have hdot : c ≠ '.' := by
    rintro rfl
    exact absurd hblank (by decide)
  rcases List.append_eq_append_iff.mp htext with ⟨more, himport, hmore⟩ | ⟨more, rfl, hmore⟩
  · cases more with
    | nil => exact hdot (List.cons.inj hmore).1.symm
    | cons d more =>
        obtain rfl : '.' = d := (List.cons.inj hmore).1
        have hmem : '.' ∈ "import".toList := himport ▸ by simp
        exact absurd hmem (by decide)
  · cases more with
    | nil => exact hdot (List.cons.inj hmore).1
    | cons d more =>
        obtain rfl : c = d := (List.cons.inj hmore).1
        have hnamed := hname c (hsplit ▸ by simp)
        rw [isName_of_isBlank hblank] at hnamed
        cases hnamed

theorem startsNone_libraries (back : Text) :
    StartsNone recogniseImport "libraries/".toList back := by
  have hnone : ∀ (c : Char) (rest : Text), (c = 'i' → rest.head? ≠ some 'm') →
      recogniseImport none (c :: rest) = none := by
    intro c rest h
    rw [Option.eq_none_iff_forall_ne_some]
    intro result hresult
    obtain ⟨d, more, htext, -⟩ := exists_of_recogniseImport hresult
    obtain ⟨rfl, rfl⟩ := List.cons.inj htext
    exact h rfl rfl
  have hchars : "libraries/".toList = ['l', 'i', 'b', 'r', 'a', 'r', 'i', 'e', 's', '/'] := by decide
  rw [hchars]
  simp only [startsNone_cons, startsNone_nil, and_true, List.cons_append, List.nil_append]
  and_intros <;> exact hnone _ _ (by simp)

/-- No import starts in the quoted path of one. -/
theorem startsNone_path {mark : Char} (hmark : isQuote mark = true) (more : Nat) {name : Text}
    (hname : ∀ c ∈ name, isName c = true) (rest : Text) :
    StartsNone recogniseImport (mark :: (stepsUp more ++ ("libraries/".toList ++
      (name ++ (".js".toList ++ [mark]))))) rest := by
  have hquote : 'i' ≠ mark := by
    intro heq
    rw [← heq] at hmark
    exact absurd hmark (by decide)
  have hsteps : 'i' ∉ mark :: stepsUp more := by
    rw [List.mem_cons, not_or]
    exact ⟨hquote, fun hmem => absurd (mem_stepsUp hmem) (by decide)⟩
  have hclosing : 'i' ∉ ".js".toList ++ [mark] := by
    have hextension : 'i' ∉ ".js".toList := by decide
    simp only [List.mem_append, List.mem_singleton, not_or]
    exact ⟨hextension, hquote⟩
  rw [← List.cons_append, startsNone_append, startsNone_append, startsNone_append]
  exact ⟨startsNone_import _ hsteps, startsNone_libraries _, startsNone_name _ hname,
    startsNone_import _ hclosing⟩

/-! ## Every import is found -/

theorem fits_recogniseImport (before : Option Char) (text file : Text) (length : Nat)
    (h : recogniseImport before text = some (file, length)) : 0 < length ∧ length ≤ text.length := by
  obtain ⟨-, statement, rest, himport, rfl, rfl⟩ := recogniseImport_iff_isImport.mp h
  obtain ⟨more, rfl⟩ := himport.exists_cons
  simp

/-- An import inside another one starts before its quoted path, which is then that of both. -/
theorem endTogether_recogniseImport : EndTogether recogniseImport := by
  intro before text file length h i hpos hlt before' file' length' h'
  obtain ⟨-, clause, mark, path, rest, hclause, hmark, htext, -, hfile, hlength⟩ :=
    recogniseImport_iff.mp h
  obtain ⟨-, clause', mark', path', rest', hclause', hmark', htext', -, hfile', hlength'⟩ :=
    recogniseImport_iff.mp h'
  have hword : ∀ c ∈ "import".toList, isQuote c = false := by simp [isQuote]
  rw [← List.append_assoc] at htext htext'
  by_cases hlead : i < ("import".toList ++ clause).length
  · -- both start in front of the same quoted path
    have hplain : ∀ c ∈ ("import".toList ++ clause).drop i, isQuote c = false := by
      intro c hc
      exact List.forall_mem_append.mpr ⟨hword, hclause⟩ c (List.mem_of_mem_drop hc)
    have hplain' : ∀ c ∈ "import".toList ++ clause', isQuote c = false :=
      List.forall_mem_append.mpr ⟨hword, hclause'⟩
    rw [htext, List.drop_append_of_le_length (Nat.le_of_lt hlead)] at htext'
    have hends := congrArg (List.dropWhile fun c => !isQuote c) htext'
    rw [dropWhile_append_quote hplain hmark path,
      dropWhile_append_quote hplain' hmark' path'] at hends
    obtain ⟨rfl, rfl⟩ := List.cons.inj hends
    rw [hfile, Option.some.injEq, Prod.mk.injEq] at hfile'
    obtain ⟨rfl, rfl⟩ := hfile'
    rw [List.length_drop] at hlength'
    exact ⟨rfl, by omega⟩
  · exfalso
    obtain ⟨more, name, -, hname, rfl, rfl⟩ := importedFile_eq_some hfile
    have hshape : text = "import".toList ++ clause ++ (mark :: (stepsUp more ++
        ("libraries/".toList ++ (name ++ (".js".toList ++ [mark])))) ++ rest) := by
      rw [htext]
      simp only [List.append_assoc, List.cons_append, List.nil_append]
    have hnone := startsNone_path hmark more hname rest
    generalize mark :: (stepsUp more ++ ("libraries/".toList ++ (name ++ (".js".toList ++ [mark]))))
      = quoted at hshape hnone
    rw [hshape] at hlength h'
    generalize "import".toList ++ clause = front at hlead hlength h'
    simp only [List.length_append] at hlength
    rw [List.drop_append, List.drop_eq_nil_of_le (by omega), List.nil_append,
      List.drop_append_of_le_length (by omega)] at h'
    have hinside : quoted.drop (i - front.length) ≠ [] := by
      rw [Ne, List.drop_eq_nil_iff]
      omega
    have hplace := hnone _ _ (List.take_append_drop (i - front.length) quoted).symm hinside
    rw [recogniseImport_none hplace before'] at h'
    cases h'

theorem isImport_of_mem_findAll {text : Text} {found : Found Text}
    (h : found ∈ findAll recogniseImport text) :
    found.start < found.stop ∧ found.stop ≤ text.length ∧
      (charBefore none (text.take found.start)).any isWord = false ∧
      IsImport (slice text found.start found.stop) found.value := by
  refine written_in_span
    (P := fun before file written _ => before.any isWord = false ∧ IsImport written file) ?_ h
  intro before text file length hrec
  obtain ⟨hbefore, written, rest, himport, htext, hlength⟩ := recogniseImport_iff_isImport.mp hrec
  obtain ⟨more, hcons⟩ := himport.exists_cons
  exact ⟨written, rest, htext, by simp [hcons], hlength, hbefore, himport⟩

/-- A word starts or ends at an offset. -/
def IsWordBoundary (text : Text) (place : Nat) : Prop :=
  (text.take place).getLast?.any isWord ≠ text[place]?.any isWord

/-- A word starts where the keyword of an import does, unless a word character stands before it. -/
theorem isWordBoundary_iff {text file : Text} {start stop : Nat}
    (h : IsImport (slice text start stop) file) :
    IsWordBoundary text start ↔ (charBefore none (text.take start)).any isWord = false := by
  obtain ⟨more, hstatement⟩ := h.exists_cons
  have hfirst : text[start]? = some 'i' := by
    have hhead := congrArg List.head? hstatement
    rw [slice, List.head?_drop, List.head?_cons, List.getElem?_take] at hhead
    split at hhead
    · exact hhead
    · cases hhead
  have hletter : isWord 'i' = true := by decide
  rw [IsWordBoundary, hfirst, Option.any_some, hletter, charBefore, Option.or_none]
  simp

/-- The imports found are those of the text: with the same end comes the same file, and each end is
found once, in order. -/
theorem libraryImports_exact (text : Text) :
    let found := (libraryImports text).map fun found => (found.value, found.stop)
    (found.Pairwise fun a b => a.2 < b.2) ∧
    ∀ file stop, (file, stop) ∈ found ↔ stop ≤ text.length ∧
      ∃ start, IsWordBoundary text start ∧ IsImport (slice text start stop) file := by
  refine ⟨?_, fun file stop => ⟨fun h => ?_, fun ⟨hstop, start, hboundary, himport⟩ => ?_⟩⟩
  · rw [List.pairwise_map]
    refine (pairwise_foundFrom 0 (pieces recogniseImport text)).imp_of_mem ?_
    intro a b ha hb horder
    have hlast := start_lt_stop_of_mem_findAll hb
    omega
  · obtain ⟨found, hfound, heq⟩ := List.mem_map.mp h
    obtain ⟨rfl, rfl⟩ := Prod.mk.inj heq
    obtain ⟨-, hstop, hbefore, himport⟩ := isImport_of_mem_findAll hfound
    exact ⟨hstop, found.start, (isWordBoundary_iff himport).mpr hbefore, himport⟩
  · have hlength := length_slice start hstop
    have hle : start ≤ stop := by
      obtain ⟨more, hstatement⟩ := himport.exists_cons
      rw [hstatement, List.length_cons] at hlength
      omega
    have htext : text.take start ++ (slice text start stop ++ text.drop stop) = text := by
      rw [slice_append_drop hle, List.take_append_drop]
    obtain ⟨found, hfound, hvalue, hend⟩ :=
      exists_stop_of_recognised endTogether_recogniseImport fits_recogniseImport
        (recogniseImport_iff_isImport.mpr ⟨(isWordBoundary_iff himport).mp hboundary,
          slice text start stop, text.drop stop, himport, rfl, rfl⟩)
    rw [htext] at hfound
    rw [List.length_take_of_le (hle.trans hstop), hlength, Nat.add_sub_cancel' hle] at hend
    exact List.mem_map.mpr ⟨found, hfound, by rw [hvalue, hend]⟩

/-- Two imports with one quoted path are one find, which starts where the first does. -/
example : libraryImports "import a\nimport b from '../libraries/x.js'".toList =
    [⟨"x.js".toList, 0, 42⟩] := by decide +kernel

end AddonBundle.Script
