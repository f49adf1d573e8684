import AddonBundle.Proofs.Lines
import AddonBundle.Proofs.Script.StaticImport
/-!
# Imports and line ends

The clause of an import stands between two runs of white space, but where it is empty one run has to
be shared out. A carriage return and a line feed are enough for that, a line feed alone is not. So
with uniform line ends the bare imports, which have just a line end before the word `from`, are no
longer found. All other imports are.
-/

namespace AddonBundle.Script

open Text

/-! ## Clauses -/

/-- A carriage return and a line feed are all that stands before the word `from`. -/
def IsBareClause (clause : Text) : Prop :=
  ∃ blanks, IsBlankText blanks ∧ clause = "\r\nfrom".toList ++ blanks

theorem two_le_length_uniformLines {text : Text} (hother : text ≠ ['\r', '\n']) :
    2 ≤ (uniformLines text).length ↔ 2 ≤ text.length := by
  have hpos : ∀ {text : Text}, 1 ≤ (uniformLines text).length ↔ 1 ≤ text.length := by
    intro text
    rw [Nat.one_le_iff_ne_zero, Nat.one_le_iff_ne_zero, Ne, Ne, List.length_eq_zero_iff,
      List.length_eq_zero_iff, uniformLines_eq_nil]
  induction text using lines_induction with
  | nil => rfl
  | crlf rest _ =>
      have hrest : 1 ≤ rest.length := by
        cases rest with
        | nil => exact absurd rfl hother
        | cons c rest => simp
      have hlines := hpos.mpr hrest
      simp only [uniformLines_crlf, List.length_cons]
      omega
  | cons c rest h _ =>
      have hlines := @hpos rest
      simp only [uniformLines_cons h, List.length_cons]
      omega

private theorem not_mem_uniformLines {text : Text} : ';' ∉ uniformLines text ↔ ';' ∉ text := by
  have hall := @all_uniformLines (fun c => c != ';') (by decide) text
  simpa [List.forall_mem_ne'] using hall

/-- Up to the word `from` a clause is just what stands before it. -/
private theorem isBareClause_iff {names blanks : Text} (hblanks : IsBlankText blanks) :
    IsBareClause (names ++ "from".toList ++ blanks) ↔ names = ['\r', '\n'] := by
  have hbare : "\r\nfrom".toList = ['\r', '\n'] ++ "from".toList := by decide
  rw [IsBareClause, hbare]
  constructor
  · rintro ⟨blanks', hblanks', hclause⟩
    have hends := congrArg trimEnd hclause
    rw [trimEnd_clause names hblanks, trimEnd_clause _ hblanks'] at hends
    exact List.append_cancel_right hends
  · rintro rfl
    exact ⟨blanks, hblanks, rfl⟩

/-- With uniform line ends a clause is one that was one before and is not bare. -/
theorem isClause_uniformLines {clause : Text} :
    IsClause (uniformLines clause) ↔ IsClause clause ∧ ¬ IsBareClause clause := by
  have hfrom : '\r' ∉ "from".toList ∧ '\n' ∉ "from".toList := by decide
  constructor
  · rintro (⟨hne, hblank⟩ | ⟨names, blanks, hclause, hne, hblanks, hnames, hhead, hlast, hother⟩)
    · have hwhite := isBlankText_uniformLines.mp hblank
      refine ⟨.inl ⟨mt uniformLines_eq_nil.mpr hne, hwhite⟩, ?_⟩
      rintro ⟨blanks, -, rfl⟩
      exact absurd (hwhite 'f' (by simp)) (by decide)
    · rw [List.append_assoc] at hclause
      obtain ⟨names', rest, rfl, rfl, hrest⟩ := exists_of_uniformLines_append hclause
      obtain ⟨blanks', rfl, rfl⟩ := exists_of_uniformLines_append_plain hfrom.2 hrest
      rw [isBlankText_uniformLines] at hblanks
      rw [head?_uniformLines, any_asLine (by decide)] at hhead
      rw [getLast?_uniformLines, any_asLine (by decide)] at hlast
      have hpair : names' ≠ ['\r', '\n'] := by
        rintro rfl
        exact absurd hnames (by decide)
      rw [← List.append_assoc, isBareClause_iff hblanks]
      exact ⟨.inr ⟨names', blanks', rfl, mt uniformLines_eq_nil.mpr hne, hblanks,
        (two_le_length_uniformLines hpair).mp hnames, hhead, hlast,
        not_mem_uniformLines.mp hother⟩, hpair⟩
  · rintro ⟨⟨hne, hblank⟩ | ⟨names, blanks, rfl, hne, hblanks, hnames, hhead, hlast, hother⟩, hbare⟩
    · exact .inl ⟨mt uniformLines_eq_nil.mp hne, isBlankText_uniformLines.mpr hblank⟩
    · rw [isBareClause_iff hblanks] at hbare
      refine .inr ⟨uniformLines names, uniformLines blanks, ?_, mt uniformLines_eq_nil.mp hne,
        isBlankText_uniformLines.mpr hblanks, (two_le_length_uniformLines hbare).mpr hnames, ?_, ?_,
        not_mem_uniformLines.mpr hother⟩
      · rw [List.append_assoc, uniformLines_append (by simp),
          uniformLines_append_plain _ hfrom.1, List.append_assoc]
      · rwa [head?_uniformLines, any_asLine (by decide)]
      · rwa [getLast?_uniformLines, any_asLine (by decide)]

/-! ## Paths to libraries -/

theorem afterStepsUp_uniformLines (text : Text) :
    afterStepsUp (uniformLines text) = (afterStepsUp text).map uniformLines := by
  induction text using behind_induction with
  | nil => rfl
  | cons c rest ih =>
      rw [afterStepsUp_eq, afterStepsUp_eq (c :: rest),
        after?_uniformLines (c :: rest) (by decide) (by decide)]
      cases hafter : after? "../".toList (c :: rest) with
      | none => rfl
      | some behind =>
          simp only [Option.map_some, ih _ behind (by decide) (after?_eq_some.mp hafter)]
          cases afterStepsUp behind <;> rfl

theorem libraryFile_uniformLines (text : Text) :
    libraryFile (uniformLines text) =
      (libraryFile text).map fun found => (found.1, uniformLines found.2) := by
  obtain ⟨htake, hrest⟩ := takeWhile_uniformLines (p := isName) (by decide) (by decide) text
  have hdrop : (uniformLines text).drop (text.takeWhile isName).length =
      uniformLines (text.dropWhile isName) := by
    rw [← htake, drop_length_takeWhile, hrest]
  have hafter := @after?_uniformLines ".js".toList (text.dropWhile isName) (by decide) (by decide)
  simp only [libraryFile, htake, hdrop, drop_length_takeWhile, hafter, Option.map_eq_map]
  split
  · rfl
  · rw [Option.map_map, Option.map_map]
    rfl

theorem not_mem_mark {mark : Char} (h : isQuote mark = true) :
    '\r' ∉ [mark] ∧ '\n' ∉ [mark] := by
  have hother : isQuote '\r' = false ∧ isQuote '\n' = false := by decide
  simp only [List.mem_singleton]
  constructor
  · rintro rfl
    rw [hother.1] at h
    cases h
  · rintro rfl
    rw [hother.2] at h
    cases h

theorem importedFile_uniformLines {mark : Char} (hmark : isQuote mark = true) (path : Text) :
    importedFile mark (uniformLines path) =
      (importedFile mark path).map fun found => (found.1, uniformLines found.2) := by
  obtain ⟨hreturn, hfeed⟩ := not_mem_mark hmark
  simp only [importedFile, afterStepsUp_uniformLines, Option.bind_eq_bind]
  cases afterStepsUp path with
  | none => rfl
  | some inside =>
      simp only [Option.map_some, Option.bind_some,
        after?_uniformLines inside (by decide : '\r' ∉ "libraries/".toList) (by decide)]
      cases after? "libraries/".toList inside with
      | none => rfl
      | some inside =>
          simp only [Option.map_some, Option.bind_some, libraryFile_uniformLines]
          cases libraryFile inside with
          | none => rfl
          | some found =>
              simp only [Option.map_some, Option.bind_some, after?_uniformLines _ hreturn hfeed]
              cases after? [mark] found.2 <;> rfl

/-! ## Bare imports -/

/-- A bare import starts a text. -/
def isBareImport (text : Text) : Bool :=
  (after? "import\r\nfrom".toList text).any fun rest => (rest.dropWhile isBlank).head?.any isQuote

private theorem bare_eq : "import\r\nfrom".toList = "import".toList ++ "\r\nfrom".toList := by
  decide

theorem isBareImport_iff {clause path : Text} {mark : Char} (hclause : ∀ c ∈ clause, isQuote c = false)
    (hmark : isQuote mark = true) :
    isBareImport ("import".toList ++ (clause ++ mark :: path)) = true ↔ IsBareClause clause := by
  rw [isBareImport, Option.any_eq_true]
  constructor
  · rintro ⟨rest, hafter, hquote⟩
    rw [after?_eq_some, bare_eq, List.append_assoc, List.append_cancel_left_eq] at hafter
    obtain ⟨closing, hclosing, hquote⟩ := Option.any_eq_true _ _ |>.mp hquote
    obtain ⟨more, hmore⟩ := List.head?_eq_some_iff.mp hclosing
    have hblanks : IsBlankText (rest.takeWhile isBlank) := List.all_eq_true.mp List.all_takeWhile
    have hbare : ∀ c ∈ "\r\nfrom".toList ++ rest.takeWhile isBlank, isQuote c = false :=
      List.forall_mem_append.mpr
        ⟨by simp [isQuote], fun c hc => isQuote_of_isBlank (hblanks c hc)⟩
    rw [← List.takeWhile_append_dropWhile (p := isBlank) (l := rest), hmore,
      ← List.append_assoc] at hafter
    have hends := congrArg (List.takeWhile fun c => !isQuote c) hafter
    rw [takeWhile_append_quote hclause hmark path,
      takeWhile_append_quote hbare hquote more] at hends
    exact ⟨_, hblanks, hends⟩
  · rintro ⟨blanks, hblanks, rfl⟩
    refine ⟨blanks ++ mark :: path, ?_, ?_⟩
    · rw [after?_eq_some, bare_eq]
      simp only [List.append_assoc]
    · rw [dropWhile_isBlank hblanks, List.dropWhile_cons_of_neg (by rw [isBlank_of_isQuote hmark]; decide),
        List.head?_cons, Option.any_some, hmark]

/-- No import starts inside a bare one. -/
theorem startsNone_bare {before : Option Char} {text file : Text} {length : Nat}
    (h : recogniseImport before text = some (file, length)) (hbare : isBareImport text = true) :
    ∃ inside rest, text = 'i' :: (inside ++ rest) ∧ length = inside.length + 1 ∧
      StartsNone recogniseImport inside rest := by
  obtain ⟨-, clause, mark, path, rest, hclause, hmark, rfl, -, hfile, hlength⟩ :=
    recogniseImport_iff.1 h
  obtain ⟨blanks, hblanks, rfl⟩ := (isBareImport_iff hclause hmark).mp hbare
  obtain ⟨more, name, -, hname, rfl, rfl⟩ := importedFile_eq_some hfile
  have hlead : 'i' ∉ "mport\r\nfrom".toList ++ blanks := by
    have hblank : 'i' ∉ blanks := fun hmem => absurd (hblanks _ hmem) (by decide)
    have hword : 'i' ∉ "mport\r\nfrom".toList := by decide
    rw [List.mem_append, not_or]
    exact ⟨hword, hblank⟩
  have hstart : "import".toList ++ ("\r\nfrom".toList ++ blanks ++ mark :: (stepsUp more ++
      ("libraries/".toList ++ (name ++ (".js".toList ++ mark :: rest))))) =
      'i' :: ("mport\r\nfrom".toList ++ blanks ++ mark :: (stepsUp more ++
        ("libraries/".toList ++ (name ++ (".js".toList ++ [mark])))) ++ rest) := by
    have himport : "import".toList = 'i' :: "mport".toList := by decide
    have hword : "mport\r\nfrom".toList = "mport".toList ++ "\r\nfrom".toList := by decide
    rw [himport, hword]
    simp only [List.append_assoc, List.cons_append, List.nil_append]
  rw [hstart] at hlength ⊢
  refine ⟨_, rest, rfl, ?_, ?_⟩
  · simp only [List.length_cons, List.length_append] at hlength ⊢
    omega
  · rw [startsNone_append]
    exact ⟨startsNone_import _ hlead, startsNone_path hmark more hname rest⟩

/-! ## Imports that are found -/

/-- Without bare imports the search finds the others. -/
theorem findAll_omitting_bare (text : Text) :
    findAll (omitting isBareImport recogniseImport) text =
      (libraryImports text).filter fun found => !isBareImport (text.drop found.start) := by
  refine findAll_omitting (fun before text file length hsome => ?_) text
  obtain ⟨hpositive, hle⟩ := fits_recogniseImport before text file length hsome
  refine ⟨hpositive, hle, fun hbare i hpos hi before' => ?_⟩
  obtain ⟨inside, behind, rfl, rfl, hnone⟩ := startsNone_bare hsome hbare
  refine recogniseImport_none ?_ before'
  obtain ⟨i, rfl⟩ : ∃ j, i = j + 1 := ⟨i - 1, by omega⟩
  have hinside : inside.drop i ≠ [] := by
    rw [Ne, List.drop_eq_nil_iff]
    omega
  rw [List.drop_succ_cons, List.drop_append_of_le_length (by omega)]
  exact hnone (inside.take i) (inside.drop i) (List.take_append_drop i inside).symm hinside

private theorem not_quoted_uniformLines {text : Text} :
    (∀ c ∈ uniformLines text, isQuote c = false) ↔ ∀ c ∈ text, isQuote c = false := by
  have hall := @all_uniformLines (fun c => !isQuote c) (by decide) text
  simpa using hall

theorem omitting_isBareImport {before : Option Char} {text : Text} {found : Text × Nat} :
    omitting isBareImport recogniseImport before text = some found ↔
      isBareImport text = false ∧ recogniseImport before text = some found := by
  rw [omitting]
  cases isBareImport text <;> simp

/-- An import that is not bare is one in the uniform text. -/
theorem import_uniformLines {before : Option Char} {text file : Text} {length : Nat}
    (h : omitting isBareImport recogniseImport before text = some (file, length)) :
    ∃ front rest, text = front ++ rest ∧ length = front.length ∧ front.head? = some 'i' ∧
      front.getLast? ≠ some '\r' ∧
      recogniseImport (before.map asLine) (uniformLines text) =
        some (file, (uniformLines front).length) := by
  obtain ⟨hbare, hsome⟩ := omitting_isBareImport.mp h
  obtain ⟨hbefore, clause, mark, path, rest, hclause, hmark, rfl, himport, hfile, -⟩ :=
    recogniseImport_iff.1 hsome
  rw [Bool.eq_false_iff, Ne, isBareImport_iff hclause hmark] at hbare
  obtain ⟨hreturn, hfeed⟩ := not_mem_mark hmark
  obtain ⟨front, hfront, hhead, hlast, hrec⟩ :=
    exists_recogniseImport hbefore hclause hmark himport hfile
  have hend : front.getLast? ≠ some '\r' := by
    rw [hlast]
    simpa [eq_comm] using hreturn
  have hlines : uniformLines ("import".toList ++ (clause ++ mark :: path)) =
      "import".toList ++ (uniformLines clause ++ mark :: uniformLines path) := by
    rw [uniformLines_append_plain _ (by decide), uniformLines_append (fun _ => by simpa [eq_comm] using hfeed),
      uniformLines_cons_of_ne path (by simpa [eq_comm] using hreturn)]
  have hparts : uniformLines (front ++ rest) = uniformLines front ++ uniformLines rest :=
    uniformLines_append fun hline => absurd hline hend
  have hfile' : importedFile mark (uniformLines path) = some (file, uniformLines rest) := by
    rw [importedFile_uniformLines hmark, hfile]
    rfl
  rw [← any_asLine (by decide)] at hbefore
  obtain ⟨front', hfront', -, -, hrec'⟩ := exists_recogniseImport hbefore
    (not_quoted_uniformLines.mpr hclause) hmark (isClause_uniformLines.mpr ⟨himport, hbare⟩) hfile'
  rw [← hlines, hfront, hparts] at hfront'
  obtain rfl := List.append_cancel_right hfront'
  refine ⟨front, rest, hfront, ?_, hhead, hend, ?_⟩
  · rw [hfront, hrec, Option.some.injEq, Prod.mk.injEq] at hsome
    exact hsome.2.symm
  · rw [hfront, hparts]
    exact hrec'

theorem follows_import : Follows recogniseImport (omitting isBareImport recogniseImport) id where
  none := by
    intro before text hnone
    rw [Option.eq_none_iff_forall_ne_some] at hnone ⊢
    rintro ⟨file, length⟩ hlines
    obtain ⟨hbefore, clause, mark, path, rest, hclause, hmark, htext, himport, hfile, -⟩ :=
      recogniseImport_iff.1 hlines
    rw [any_asLine (by decide)] at hbefore
    obtain ⟨behind, rfl, hbehind⟩ := exists_of_uniformLines_append_plain (by decide) htext
    obtain ⟨clause', behind', rfl, rfl, hmarked⟩ := exists_of_uniformLines_append hbehind
    rw [← List.singleton_append] at hmarked
    obtain ⟨path', rfl, rfl⟩ :=
      exists_of_uniformLines_append_plain (not_mem_mark hmark).2 hmarked
    rw [not_quoted_uniformLines] at hclause
    obtain ⟨himport, hbare⟩ := isClause_uniformLines.mp himport
    rw [importedFile_uniformLines hmark] at hfile
    obtain ⟨⟨file', rest'⟩, hfile, -⟩ := Option.map_eq_some_iff.mp hfile
    obtain ⟨front, hfront, -, -, hrec⟩ :=
      exists_recogniseImport hbefore hclause hmark himport hfile
    rw [← hfront] at hrec
    refine hnone _ (omitting_isBareImport.mpr ⟨?_, hrec⟩)
    rw [Bool.eq_false_iff, Ne, List.singleton_append, isBareImport_iff hclause hmark]
    exact hbare
  some := by
    intro before text file length hsome
    obtain ⟨front, rest, htext, hlength, hhead, hlast, hlines⟩ := import_uniformLines hsome
    exact ⟨front, rest, htext, hlength, ⟨'i', hhead, by decide⟩, hlast, file, _, hlines, fun _ => rfl⟩

/-- With uniform line ends the imports that are not bare are found. -/
theorem libraryImports_uniformLines (text : Text) :
    (libraryImports (uniformLines text)).map (·.value) =
      ((libraryImports text).filter fun found => !isBareImport (text.drop found.start)).map
        (·.value) := by
  rw [← findAll_omitting_bare]
  refine values_findAll follows_import (fun before text file length hsome => ?_) text
  obtain ⟨front, rest, -, -, -, -, hlines⟩ := import_uniformLines hsome
  exact ⟨_, hlines⟩

end AddonBundle.Script
