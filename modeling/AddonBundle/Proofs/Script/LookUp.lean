import AddonBundle.Proofs.Script.Binding
import Mathlib.Data.List.Nodup
/-!
# The look-up function of a header

A header is text that another program runs. Read line by line, its look-up function answers a path
with the first case that compares with it, and each binding is declared by an import. This module
shows that the text answers as the table does, as long as no name holds a quotation mark or a line
end, and that the binding of a path is imported once, from the file of that path.
-/

namespace AddonBundle.Script.AssetTable

open Text

/-! ## Reading a header -/

/-- What stands before the path in a case. -/
def caseStart : Text := "  if (path === \"".toList

/-- What stands between the path and its binding in a case. -/
def caseMiddle : Text := "\") return ".toList

/-- The binding that a line returns for a path: what stands in front of the semicolon when the line
is a case of the path. -/
def caseBinding? (path line : Text) : Option Text := do
  let behind ← after? (caseStart ++ path ++ caseMiddle) line
  if behind.getLast? = some ';' then some behind.dropLast else none

/-- What the look-up function of a header returns for a path: its first case counts. -/
def lookUp (header path : Text) : Option Text :=
  (split '\n' header).findSome? (caseBinding? path)

/-- The lines of a header that declare a binding. -/
def declarations (header binding : Text) : List Text :=
  (split '\n' header).filter fun line => ("import ".toList ++ binding ++ [' ']).isPrefixOf line

/-- A text that can stand between quotation marks on one line. -/
def IsQuotable (text : Text) : Prop :=
  '"' ∉ text ∧ '\n' ∉ text

/-! ## Lines -/

theorem quote_not_mem_binding (binding : Binding) : '"' ∉ binding.text :=
  binding.not_mem_text (by decide) (by decide) (by decide)

theorem newline_not_mem_binding (binding : Binding) : '\n' ∉ binding.text :=
  binding.not_mem_text (by decide) (by decide) (by decide)

/-- A text with one separator is divided there only. -/
private theorem eq_of_append_cons {sep : Char} {front front' back back' : Text}
    (hfront : sep ∉ front) (hback : sep ∉ back)
    (h : front ++ sep :: back = front' ++ sep :: back') : front = front' ∧ back = back' := by
  rcases List.append_eq_append_iff.mp h with ⟨more, rfl, hmore⟩ | ⟨more, rfl, hmore⟩
  · cases more with
    | nil => exact ⟨(List.append_nil _).symm, (List.cons.inj hmore).2⟩
    | cons c more =>
        rw [(List.cons.inj hmore).2] at hback
        exact absurd (List.mem_append_right more List.mem_cons_self) hback
  · cases more with
    | nil => exact ⟨List.append_nil _, (List.cons.inj hmore).2.symm⟩
    | cons c more =>
        rw [← (List.cons.inj hmore).1] at hfront
        exact absurd (List.mem_append_right front' List.mem_cons_self) hfront

private theorem caseMiddle_eq : caseMiddle = '"' :: ") return ".toList := rfl

private theorem caseLine_eq (name : Text) (binding : Binding) :
    caseLine name binding = caseStart ++ pathOf name ++ caseMiddle ++ (binding.text ++ [';']) :=
  List.append_assoc _ _ _

/-- The case of a name answers the path of the name, and no other path, also none with a quotation
mark in it. -/
theorem caseBinding?_caseLine {name : Text} (hname : '"' ∉ name) (binding : Binding) (path : Text) :
    caseBinding? path (caseLine name binding) =
      if pathOf name = path then some binding.text else none := by
  have hpath : '"' ∉ pathOf name := List.not_mem_cons_of_ne_of_not_mem (by decide) hname
  have hbehind : '"' ∉ ") return ".toList ++ (binding.text ++ [';']) :=
    List.not_mem_append (by decide)
      (List.not_mem_append (quote_not_mem_binding binding) (by decide))
  rw [caseBinding?, caseLine_eq]
  split
  · rename_i hsame
    rw [hsame, after?_append]
    simp
  · rename_i hother
    cases hafter : after? (caseStart ++ path ++ caseMiddle)
        (caseStart ++ pathOf name ++ caseMiddle ++ (binding.text ++ [';'])) with
    | none => rfl
    | some rest =>
        rw [after?_eq_some, caseMiddle_eq] at hafter
        simp only [List.append_assoc, List.cons_append] at hafter
        -- the only quotation mark behind the first one ends the path
        exact absurd (eq_of_append_cons hpath hbehind (List.append_cancel_left hafter)).1 hother

/-- Lines that do not start as a case return nothing. -/
private theorem caseBinding?_eq_none {line : Text} (path : Text)
    (h : caseStart.isPrefixOf line = false) : caseBinding? path line = none := by
  unfold caseBinding?
  cases hafter : after? (caseStart ++ path ++ caseMiddle) line with
  | none => rfl
  | some rest =>
      rw [after?_eq_some, List.append_assoc, List.append_assoc] at hafter
      have hcase : caseStart.isPrefixOf line = true :=
        List.isPrefixOf_iff_prefix.mpr ⟨_, hafter.symm⟩
      rw [h] at hcase
      cases hcase

private theorem findSome?_caseLine {files : List (Text × Binding)} (path : Text)
    (h : ∀ file ∈ files, '"' ∉ file.1) :
    (files.map fun file => caseLine file.1 file.2).findSome? (caseBinding? path) =
      (Assoc.get? path (files.map fun file => (pathOf file.1, file.2))).map Binding.text := by
  induction files with
  | nil => rfl
  | cons file files ih =>
      rw [List.forall_mem_cons] at h
      rw [List.map_cons, List.map_cons, List.findSome?_cons, caseBinding?_caseLine h.1, Assoc.get?]
      by_cases hpath : pathOf file.1 = path
      · rw [if_pos hpath, if_pos hpath]
        rfl
      · rw [if_neg hpath, if_neg hpath]
        exact ih h.2

/-- A line declares the binding that it imports, and no other one. -/
private theorem isPrefixOf_importLine (way name : Text) (binding other : Binding) :
    ("import ".toList ++ binding.text ++ [' ']).isPrefixOf (importLine way name other) =
      decide (other = binding) := by
  have hblank : ∀ binding : Binding, ' ' ∉ binding.text :=
    fun binding => binding.not_mem_text (by decide) (by decide) (by decide)
  rw [Bool.eq_iff_iff, List.isPrefixOf_iff_prefix, decide_eq_true_eq, importLine_eq,
    importOf_eq, List.append_assoc, List.prefix_append_right_inj]
  constructor
  · rintro ⟨rest, hrest⟩
    rw [List.append_assoc, List.singleton_append] at hrest
    have hsplit := congrArg (split ' ') hrest
    rw [split_append_cons _ (hblank binding), split_append_cons _ (hblank other)] at hsplit
    exact (Binding.text_injective (List.cons.inj hsplit).1).symm
  · rintro rfl
    exact ⟨_, by rw [List.append_assoc, List.singleton_append]⟩

/-! ## Bindings of a table -/

/-- Every file has a binding of its own. -/
theorem nodup_bindings (table : AssetTable) : (table.imports.map (·.2)).Nodup := by
  have hkind : ∀ (names : List Text) (bind : Nat → Binding),
      (names.mapIdx fun index name => (name, bind index)).map (·.2) =
        (List.range names.length).map bind := by
    intro names bind
    apply List.ext_getElem?
    intro i
    by_cases hi : i < names.length <;> simp [hi]
  rw [imports, List.map_append, hkind, hkind, List.nodup_append]
  have hasset : Function.Injective Binding.asset := fun i j h => Binding.asset.inj h
  have hlibrary : Function.Injective Binding.library := fun i j h => Binding.library.inj h
  refine ⟨List.nodup_range.map hasset, List.nodup_range.map hlibrary, ?_⟩
  intro a ha b hb
  obtain ⟨i, -, rfl⟩ := List.mem_map.mp ha
  obtain ⟨j, -, rfl⟩ := List.mem_map.mp hb
  simp

private theorem filter_binding {files : List (Text × Binding)} {file : Text × Binding}
    (hnodup : (files.map (·.2)).Nodup) (hfile : file ∈ files) :
    (files.filter fun other => decide (other.2 = file.2)) = [file] := by
  obtain ⟨front, back, rfl⟩ := List.append_of_mem hfile
  rw [List.map_append, List.map_cons, List.nodup_middle, List.nodup_cons, ← List.map_append]
    at hnodup
  have hnone : ∀ files ⊆ front ++ back,
      (files.filter fun other => decide (other.2 = file.2)) = [] := by
    intro files hsubset
    rw [List.filter_eq_nil_iff]
    intro other hother hsame
    exact hnodup.1 (List.mem_map.mpr ⟨other, hsubset hother, of_decide_eq_true hsame⟩)
  rw [List.filter_append, List.filter_cons_of_pos (by simp), hnone front (by simp),
    hnone back (by simp), List.nil_append]

/-! ## Headers -/

section

variable {table : AssetTable} {way : Text}
  (hnames : ∀ name ∈ table.assets ++ table.libraries, IsQuotable name) (hway : IsQuotable way)

include hnames

private theorem isQuotable_of_mem_imports {file : Text × Binding} (h : file ∈ table.imports) :
    IsQuotable file.1 := by
  apply hnames
  rw [← map_fst_imports]
  exact List.mem_map_of_mem h

include hway

private theorem newline_not_mem_headerLines {line : Text} (h : line ∈ table.headerLines way) :
    '\n' ∉ line := by
  simp only [headerLines, List.mem_append, List.mem_map] at h
  rcases h with (((h | ⟨⟨name, binding⟩, hfile, rfl⟩) | h) | ⟨⟨name, binding⟩, hfile, rfl⟩) | h
  · rw [List.mem_singleton.mp h]
    decide
  · have hname := (isQuotable_of_mem_imports hnames hfile).2
    have haddress : '\n' ∉ binding.root.address way name := by
      cases binding with
      | asset i => exact List.not_mem_append (by decide) hname
      | library i =>
          exact List.not_mem_append (List.not_mem_append (by decide) hway.2)
            (List.not_mem_cons_of_ne_of_not_mem (by decide) hname)
    rw [importLine_eq]
    exact List.not_mem_append (List.not_mem_append (List.not_mem_append
      (List.not_mem_append (by decide) (newline_not_mem_binding binding)) (by decide)) haddress)
      (by decide)
  · rw [List.mem_singleton.mp h]
    decide
  · have hname := (isQuotable_of_mem_imports hnames hfile).2
    exact List.not_mem_append (List.not_mem_append (List.not_mem_append (List.not_mem_append
      (by decide) (List.not_mem_cons_of_ne_of_not_mem (by decide) hname)) (by decide))
      (newline_not_mem_binding binding)) (by decide)
  · rcases List.mem_pair.mp h with rfl | rfl <;> decide

theorem split_header : split '\n' (table.header way) = table.headerLines way ++ [[], []] := by
  have hlines : table.headerLines way ≠ [] := List.cons_ne_nil _ _
  have hends : "\n\n".toList = '\n' :: ['\n'] := rfl
  rw [header, hends, split_append,
    split_join hlines fun line hline => newline_not_mem_headerLines hnames hway hline]
  rfl

theorem lookUp_eq (path : Text) :
    lookUp (table.header way) path = (table.get? path).map Binding.text := by
  have himports : (table.imports.map fun file => importLine way file.1 file.2).findSome?
      (caseBinding? path) = none := by
    rw [List.findSome?_eq_none_iff]
    intro line hline
    obtain ⟨file, -, rfl⟩ := List.mem_map.mp hline
    exact caseBinding?_eq_none path rfl
  have hcases := findSome?_caseLine path fun file hfile =>
    (isQuotable_of_mem_imports hnames hfile).1
  have hbanner : caseBinding? path "/* inserted by addon-porter */".toList = none :=
    caseBinding?_eq_none path (by decide)
  have hfunction : caseBinding? path
      ("const ".toList ++ lookupName ++ " = (path) => \x7b".toList) = none :=
    caseBinding?_eq_none path (by decide)
  have hthrow : caseBinding? path
      "  throw new Error(\x60Unknown asset: $\x7bpath\x7d\x60);".toList = none :=
    caseBinding?_eq_none path (by decide)
  have hend : caseBinding? path "\x7d;".toList = none := caseBinding?_eq_none path (by decide)
  have hempty : caseBinding? path [] = none := caseBinding?_eq_none path (by decide)
  rw [lookUp, split_header hnames hway, headerLines, get?_eq, ← hcases]
  simp only [List.findSome?_append, List.findSome?_cons, List.findSome?_nil, himports, hbanner,
    hfunction, hthrow, hend, hempty, Option.none_or, Option.or_none]

theorem declarations_eq {file : Text × Binding} (hfile : file ∈ table.imports) :
    declarations (table.header way) file.2.text = [importLine way file.1 file.2] := by
  have himports : (table.imports.map fun other => importLine way other.1 other.2).filter
      (fun line => ("import ".toList ++ file.2.text ++ [' ']).isPrefixOf line) =
        [importLine way file.1 file.2] := by
    simp only [List.filter_map, Function.comp_def, isPrefixOf_importLine]
    rw [filter_binding table.nodup_bindings hfile]
    rfl
  have hnone : ∀ line : Text, line.head? ≠ some 'i' →
      ("import ".toList ++ file.2.text ++ [' ']).isPrefixOf line = false := by
    intro line hline
    rw [Bool.eq_false_iff, ne_eq, List.isPrefixOf_iff_prefix]
    rintro ⟨rest, rfl⟩
    exact hline rfl
  have hcases : (table.imports.map fun other => caseLine other.1 other.2).filter
      (fun line => ("import ".toList ++ file.2.text ++ [' ']).isPrefixOf line) = [] := by
    rw [List.filter_eq_nil_iff]
    intro line hline
    obtain ⟨other, -, rfl⟩ := List.mem_map.mp hline
    have hcase : (caseLine other.1 other.2).head? = some ' ' := rfl
    rw [hnone _ (by rw [hcase]; decide)]
    decide
  have hbanner := hnone "/* inserted by addon-porter */".toList (by decide)
  have hfunction := hnone ("const ".toList ++ lookupName ++ " = (path) => \x7b".toList) (by decide)
  have hthrow := hnone "  throw new Error(\x60Unknown asset: $\x7bpath\x7d\x60);".toList (by decide)
  have hend := hnone "\x7d;".toList (by decide)
  have hempty := hnone [] (by decide)
  rw [declarations, split_header hnames hway, headerLines]
  simp only [List.filter_append, himports, hcases, List.filter_cons, List.filter_nil, hbanner,
    hfunction, hthrow, hend, hempty, Bool.false_eq_true, if_false, List.append_nil, List.nil_append]

end

/-- The look-up function of a header, read line by line, answers every path as the table does, and
none exactly when the table refuses it. The binding of a path is declared by one line, which imports
the file of the path from where the binding takes it. -/
theorem lookUp_header (table : AssetTable) (way path : Text)
    (hnames : ∀ name ∈ table.assets ++ table.libraries, IsQuotable name) (hway : IsQuotable way) :
    lookUp (table.header way) path = (table.resolve path).toOption.map Binding.text ∧
    (lookUp (table.header way) path = none ↔
      table.resolve path = .error (.assetUnknown path)) ∧
    ∀ binding, table.resolve path = .ok binding → ∃ name, path = '/' :: name ∧
      declarations (table.header way) binding.text =
        [importOf binding (binding.root.address way name)] := by
  rw [lookUp_eq hnames hway, resolve]
  cases hget : table.get? path with
  | none =>
      refine ⟨rfl, iff_of_true rfl rfl, ?_⟩
      intro binding hbinding
      cases hbinding
  | some binding =>
      refine ⟨rfl, iff_of_false (by simp) (by simp), ?_⟩
      rintro _ ⟨⟩
      rw [get?_eq] at hget
      obtain ⟨⟨name, _⟩, hfile, hsame⟩ := List.mem_map.mp (Assoc.mem_of_get? hget)
      cases hsame
      refine ⟨name, rfl, ?_⟩
      rw [← importLine_eq]
      exact declarations_eq hnames hway hfile

/-- An icon that is listed twice, and a script of the same name as a library. -/
def mixedTable : AssetTable :=
  ⟨["a.svg".toList, "b.js".toList, "a.svg".toList], ["b.js".toList, "c.js".toList]⟩

theorem lookUp_header_mixed :
    (∀ name ∈ mixedTable.assets ++ mixedTable.libraries, IsQuotable name) ∧
    lookUp (mixedTable.header "../libraries".toList) "/b.js".toList = some "_twAsset1".toList ∧
    lookUp (mixedTable.header "../libraries".toList) "/a\"".toList = none ∧
    declarations (mixedTable.header "../libraries".toList) "_twScript1".toList =
      ["import _twScript1 from \"!file-loader!../libraries/c.js\";".toList] := by
  have hnames : ∀ name ∈ mixedTable.assets ++ mixedTable.libraries, IsQuotable name := by
    simp only [IsQuotable]
    decide
  have hway : IsQuotable "../libraries".toList := by
    simp only [IsQuotable]
    decide
  have hscript := lookUp_header mixedTable "../libraries".toList "/b.js".toList hnames hway
  have hquote := lookUp_header mixedTable "../libraries".toList "/a\"".toList hnames hway
  have hlibrary := lookUp_header mixedTable "../libraries".toList "/c.js".toList hnames hway
  refine ⟨hnames, hscript.1, hquote.2.1.mpr rfl, ?_⟩
  obtain ⟨name, hname, hdeclared⟩ := hlibrary.2.2 (.library 1) rfl
  cases hname
  exact hdeclared

end AddonBundle.Script.AssetTable
