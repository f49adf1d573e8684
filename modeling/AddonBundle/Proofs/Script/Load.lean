import AddonBundle.Proofs.Path
import AddonBundle.Proofs.Piece
import AddonBundle.Script.PathSite
/-!
# Loads of libraries and computed paths

A load of a shared library is found by one search and the computed paths of a script by another,
which skips whole operands. Since no load starts inside another one, every computed path that is a
plain load of a library is found by the first search too.
-/

namespace AddonBundle.Script

open Text

/-! ## The text of a load -/

theorem isName_dot : isName '.' = false := by decide

theorem libraryFile_append {name : Text} (rest : Text) (hne : name ≠ [])
    (hname : ∀ c ∈ name, isName c = true) :
    libraryFile (name ++ ".js".toList ++ rest) = some (name ++ ".js".toList, rest) := by
  have htake : (name ++ ".js".toList ++ rest).takeWhile isName = name := by
    rw [List.append_assoc]
    exact takeWhile_append_stop _ hname isName_dot
  simp only [libraryFile, htake]
  rw [if_neg (by simpa using hne), List.append_assoc, List.drop_left, after?_append]
  rfl

theorem libraryFile_eq_some {text file rest : Text} (h : libraryFile text = some (file, rest)) :
    ∃ name, name ≠ [] ∧ (∀ c ∈ name, isName c = true) ∧ file = name ++ ".js".toList ∧
      text = name ++ ".js".toList ++ rest := by
  simp only [libraryFile] at h
  split at h
  · cases h
  · rename_i hne
    rw [Option.map_eq_map] at h
    obtain ⟨behind, hafter, heq⟩ := Option.map_eq_some_iff.mp h
    rw [Prod.mk.injEq] at heq
    obtain ⟨rfl, rfl⟩ := heq
    refine ⟨text.takeWhile isName, by simpa using hne, ?_, rfl, ?_⟩
    · intro c hc
      exact List.mem_takeWhile_imp hc
    · rw [after?_eq_some] at hafter
      have hsplit := List.take_append_drop (text.takeWhile isName).length text
      have htake : text.take (text.takeWhile isName).length = text.takeWhile isName :=
        List.prefix_iff_eq_take.mp (List.takeWhile_prefix isName) |>.symm
      rw [hafter, htake] at hsplit
      rw [List.append_assoc, hsplit]

theorem afterPlus_eq_some {text rest : Text} (h : afterPlus text = some rest) :
    ∃ before behind, (∀ c ∈ before, isBlank c = true) ∧ (∀ c ∈ behind, isBlank c = true) ∧
      text = before ++ '+' :: (behind ++ rest) := by
  simp only [afterPlus, Option.map_eq_map] at h
  obtain ⟨more, hafter, rfl⟩ := Option.map_eq_some_iff.mp h
  rw [after?_eq_some] at hafter
  refine ⟨text.takeWhile isBlank, more.takeWhile isBlank, ?_, ?_, ?_⟩
  · exact fun c hc => List.mem_takeWhile_imp hc
  · exact fun c hc => List.mem_takeWhile_imp hc
  · rw [List.takeWhile_append_dropWhile, ← List.singleton_append, ← hafter,
      List.takeWhile_append_dropWhile]

/-- What a load is written as. -/
theorem recogniseLoad_eq_some {before : Option Char} {text file : Text} {length : Nat}
    (h : recogniseLoad before text = some (file, length)) :
    ∃ blanks more quote name rest, (∀ c ∈ blanks, isBlank c = true) ∧
      (∀ c ∈ more, isBlank c = true) ∧ isQuote quote = true ∧ name ≠ [] ∧
      (∀ c ∈ name, isName c = true) ∧ file = name ++ ".js".toList ∧
      text = "addon.self.lib".toList ++ (blanks ++ '+' :: (more ++ quote :: '/' ::
        (name ++ ".js".toList ++ quote :: rest))) ∧
      length + rest.length = text.length := by
  simp only [recogniseLoad, Option.bind_eq_bind] at h
  obtain ⟨behind, hroot, h⟩ := Option.bind_eq_some_iff.mp h
  obtain ⟨inside, hplus, h⟩ := Option.bind_eq_some_iff.mp h
  rw [after?_eq_some] at hroot
  obtain ⟨blanks, more, hblanks, hmore, hbehind⟩ := afterPlus_eq_some hplus
  split at h
  · rename_i quote path
    split at h
    · rename_i hquote
      obtain ⟨⟨found, rest⟩, hfile, h⟩ := Option.bind_eq_some_iff.mp h
      obtain ⟨name, hne, hname, hfound, hpath⟩ := libraryFile_eq_some hfile
      simp only at h
      split at h
      · rename_i hclose
        obtain ⟨rest, rfl⟩ : ∃ tail, rest = quote :: tail := by
          cases rest with
          | nil => simp at hclose
          | cons c tail =>
              obtain rfl : c = quote := by simpa using hclose
              exact ⟨tail, rfl⟩
        rw [Option.some.injEq, Prod.mk.injEq] at h
        obtain ⟨rfl, rfl⟩ := h
        refine ⟨blanks, more, quote, name, rest, hblanks, hmore, hquote, hne, hname, hfound, ?_, ?_⟩
        · rw [hroot, hbehind, hpath]
        · rw [hroot, hbehind, hpath]
          simp only [List.length_append, List.length_cons]
          omega
      · cases h
    · cases h
  · cases h

/-! ## No load starts inside another -/

private def root : Text :=
  ['a', 'd', 'd', 'o', 'n', '.', 's', 'e', 'l', 'f', '.', 'l', 'i', 'b']

private theorem recogniseLoad_eq_none {before : Option Char} {text : Text}
    (h : ¬ root <+: text) : recogniseLoad before text = none := by
  have hafter : after? "addon.self.lib".toList text = none := by
    rw [Option.eq_none_iff_forall_ne_some]
    intro rest hrest
    exact h ⟨rest, (after?_eq_some.mp hrest).symm⟩
  simp only [recogniseLoad, hafter]
  rfl

private theorem not_root_of_head {text : Text} (h : text.head? ≠ some 'a') : ¬ root <+: text := by
  rintro ⟨rest, rfl⟩
  exact h rfl

/-- A name that ends in `.js` is not the start of a root: behind the longest run of name characters
the one goes on with a `j`, the other with an `s`. -/
private theorem not_root_name {name : Text} (rest : Text) (h : ∀ c ∈ name, isName c = true) :
    ¬ root <+: name ++ ".js".toList ++ rest := by
  rintro ⟨more, hmore⟩
  have hleft : (name ++ ".js".toList ++ rest).dropWhile isName = ".js".toList ++ rest := by
    rw [List.append_assoc]
    exact dropWhile_append_stop _ h isName_dot
  have haddon : ∀ c ∈ ['a', 'd', 'd', 'o', 'n'], isName c = true :=
    List.all_eq_true.mp (by decide)
  have hright : (root ++ more).dropWhile isName = ".self.lib".toList ++ more :=
    dropWhile_append_stop ("self.lib".toList ++ more) haddon isName_dot
  rw [← hmore, hright] at hleft
  simp at hleft

private theorem not_root_drop {front : Text} (rest : Text) (h : 'a' ∉ front) {i : Nat}
    (hi : i < front.length) : ¬ root <+: (front ++ rest).drop i := by
  apply not_root_of_head
  rw [List.head?_drop, List.getElem?_append_left hi]
  intro ha
  exact h (List.mem_of_getElem? ha)

private theorem root_inside : ∀ i < root.length, 0 < i → root[i]? ≠ some 'a' := by
  decide

private theorem drop_behind {front rest : Text} {i : Nat} (h : ¬ i < front.length) :
    (front ++ rest).drop i = rest.drop (i - front.length) := by
  rw [List.drop_append, List.drop_eq_nil_of_le (by omega), List.nil_append]

theorem isolated_recogniseLoad : Isolated recogniseLoad := by
  intro before text file length h i hpos hlt before'
  obtain ⟨blanks, more, quote, name, rest, hblanks, hmore, hquote, -, hname, -, htext, hlength⟩ :=
    recogniseLoad_eq_some h
  apply recogniseLoad_eq_none
  have hnotBlank : ∀ {front : Text}, (∀ c ∈ front, isBlank c = true) → 'a' ∉ front := by
    intro front hfront ha
    exact absurd (hfront 'a' ha) (by decide)
  have hnotQuote : 'a' ≠ quote := by
    rintro rfl
    exact absurd hquote (by decide)
  -- the load in four stretches: its root, what leads to the name, the name, and its end
  have hshape : text = root ++ ((blanks ++ '+' :: (more ++ [quote, '/'])) ++
      (name ++ (".js".toList ++ [quote] ++ rest))) := by
    rw [htext]
    simp [root]
  rw [hshape] at hlength ⊢
  simp only [List.length_append, List.length_cons, List.length_nil] at hlength
  by_cases hroot : i < root.length
  · apply not_root_of_head
    rw [List.head?_drop, List.getElem?_append_left hroot]
    exact root_inside i hroot hpos
  rw [drop_behind hroot]
  by_cases hlead : i - root.length < (blanks ++ '+' :: (more ++ [quote, '/'])).length
  · exact not_root_drop _ (by simp [hnotBlank hblanks, hnotBlank hmore, hnotQuote]) hlead
  rw [drop_behind hlead]
  generalize hj : i - root.length - (blanks ++ '+' :: (more ++ [quote, '/'])).length = j
  by_cases hinside : j < name.length
  · rw [List.drop_append_of_le_length (by omega), List.append_assoc, ← List.append_assoc]
    exact not_root_name _ (fun c hc => hname c (List.mem_of_mem_drop hc))
  rw [drop_behind hinside]
  simp only [List.length_append, List.length_cons, List.length_nil] at hj hlead
  apply not_root_drop _ (by simp [hnotQuote])
  simp only [List.length_append, List.length_cons, List.length_nil]
  omega

/-! ## Computed paths that are loads -/

theorem operandFrom_isPrefix (state : OperandState) (text : Text) :
    operandFrom state text <+: text := by
  induction text generalizing state with
  | nil => simp [operandFrom]
  | cons c rest ih =>
      rw [operandFrom]
      split
      · exact List.nil_prefix
      · exact List.cons_prefix_cons.mpr ⟨rfl, ih _⟩

theorem trimEnd_isPrefix (text : Text) : trimEnd text <+: text := by
  rw [trimEnd, ← List.reverse_suffix, List.reverse_reverse]
  exact List.dropWhile_suffix _

theorem operand_isPrefix (text : Text) : operand text <+: text :=
  (trimEnd_isPrefix _).trans (operandFrom_isPrefix _ _)

/-- What a computed path from the libraries is written as. -/
theorem recogniseSite_lib {before : Option Char} {text appended : Text} {length : Nat}
    (h : recogniseSite before text = some (⟨.lib, appended⟩, length)) :
    ∃ behind rest, text = "addon.self.lib".toList ++ behind ∧ afterPlus behind = some rest ∧
      operand rest = appended := by
  simp only [recogniseSite, Option.bind_eq_bind] at h
  obtain ⟨⟨found, behind⟩, hroot, h⟩ := Option.bind_eq_some_iff.mp h
  obtain ⟨rest, hplus, h⟩ := Option.bind_eq_some_iff.mp h
  simp only [Option.some.injEq, Prod.mk.injEq, PathExpression.mk.injEq] at h
  obtain ⟨⟨rfl, happended⟩, -⟩ := h
  refine ⟨behind, rest, ?_, hplus, happended⟩
  unfold rootAt at hroot
  split at hroot
  · cases hroot
  · rw [Option.map_eq_map] at hroot
    obtain ⟨more, hafter, heq⟩ := Option.map_eq_some_iff.mp hroot
    obtain rfl : more = behind := by simpa using heq
    exact after?_eq_some.mp hafter

/-- A computed path that is a plain load of a library is among the loads of the script. -/
theorem mem_libraryLoads_of_site {text : Text} {site : Found PathExpression} {quote : Char}
    {name : Text} (hsite : site ∈ pathSites text) (hroot : site.value.root = .lib)
    (hquote : isQuote quote = true) (hne : name ≠ []) (hname : ∀ c ∈ name, isName c = true)
    (hoperand : site.value.operand = quote :: '/' :: (name ++ ".js".toList ++ [quote])) :
    name ++ ".js".toList ∈ (libraryLoads text).map (·.value) := by
  have hfound := (List.mem_filter.mp hsite).1
  obtain ⟨front, back, length, rfl, hback, -, hrec⟩ := recognised_of_mem_findAll hfound
  have hvalue : site.value = ⟨.lib, site.value.operand⟩ := by
    rw [← hroot]
  rw [hvalue] at hrec
  obtain ⟨behind, rest, hshape, hplus, happended⟩ := recogniseSite_lib hrec
  obtain ⟨tail, htail⟩ := operand_isPrefix rest
  rw [happended, hoperand] at htail
  have hrest : rest = quote :: '/' :: (name ++ ".js".toList ++ (quote :: tail)) := by
    rw [← htail]
    simp
  have hload : recogniseLoad (charBefore none front) back =
      some (name ++ ".js".toList, back.length - (quote :: tail).length + 1) := by
    simp only [recogniseLoad, Option.bind_eq_bind]
    rw [hshape, after?_append, Option.bind_some, hplus, Option.bind_some, hrest]
    simp only [hquote, if_true, libraryFile_append (quote :: tail) hne hname, Option.bind_some,
      List.head?_cons]
  obtain ⟨found, hmem, hfoundValue, -⟩ :=
    mem_findAll_of_recognised isolated_recogniseLoad hback hload
  exact List.mem_map.mpr ⟨found, hmem, hfoundValue⟩

/-! ## The files referred to -/

private theorem recogniseImport_eq_some {before : Option Char} {text file : Text} {length : Nat}
    (h : recogniseImport before text = some (file, length)) :
    ∃ inside rest, libraryFile inside = some (file, rest) := by
  simp only [recogniseImport, Option.bind_eq_bind] at h
  split at h
  · cases h
  · obtain ⟨rest, -, h⟩ := Option.bind_eq_some_iff.mp h
    split at h
    · cases h
    · split at h
      · obtain ⟨inside, -, h⟩ := Option.bind_eq_some_iff.mp h
        obtain ⟨inside, -, h⟩ := Option.bind_eq_some_iff.mp h
        obtain ⟨⟨found, behind⟩, hfile, h⟩ := Option.bind_eq_some_iff.mp h
        simp only [Option.ite_none_right_eq_some, Option.some.injEq, Prod.mk.injEq] at h
        obtain ⟨-, rfl, -⟩ := h
        exact ⟨inside, behind, hfile⟩
      · cases h

private theorem isSegment_libraryFile {name : Text}
    (hname : ∀ c ∈ name, isName c = true) : Path.IsSegment (name ++ ".js".toList) := by
  have hnot : ∀ c, isName c = false → c ∉ ".js".toList → c ∉ name ++ ".js".toList := by
    intro c hc hjs hmem
    rcases List.mem_append.mp hmem with hmem | hmem
    · rw [hname c hmem] at hc
      cases hc
    · exact hjs hmem
  refine Path.isSegment_of_length ?_ (hnot _ (by decide) (by decide))
    (hnot _ (by decide) (by decide))
  rw [List.length_append, show ".js".toList.length = 3 from rfl]
  omega

/-- The files of libraries are named `<name>.js`. -/
theorem exists_name_of_mem_libraryReferences {text : Text} {reference : LibraryReference}
    (h : reference ∈ libraryReferences text) :
    ∃ name, (∀ c ∈ name, isName c = true) ∧ reference.file = name ++ ".js".toList := by
  rcases List.mem_append.mp h with h | h
  · obtain ⟨found, hfound, rfl⟩ := List.mem_map.mp h
    obtain ⟨_, _, _, -, -, -, hrec⟩ := recognised_of_mem_findAll hfound
    obtain ⟨inside, rest, hfile⟩ := recogniseImport_eq_some hrec
    obtain ⟨name, -, hchars, heq, -⟩ := libraryFile_eq_some hfile
    exact ⟨name, hchars, heq⟩
  · obtain ⟨found, hfound, rfl⟩ := List.mem_map.mp h
    obtain ⟨_, _, _, -, -, -, hrec⟩ := recognised_of_mem_findAll hfound
    obtain ⟨_, _, _, name, _, -, -, -, -, hchars, heq, -⟩ := recogniseLoad_eq_some hrec
    exact ⟨name, hchars, heq⟩

/-- The files of libraries are single names. -/
theorem isSegment_of_mem_libraryReferences {text : Text} {reference : LibraryReference}
    (h : reference ∈ libraryReferences text) : Path.IsSegment reference.file := by
  obtain ⟨name, hchars, heq⟩ := exists_name_of_mem_libraryReferences h
  rw [heq]
  exact isSegment_libraryFile hchars

end AddonBundle.Script
