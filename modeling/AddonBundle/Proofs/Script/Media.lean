import AddonBundle.Proofs.Tree
import AddonBundle.Script.Linking
import Mathlib.Data.List.TakeWhile
/-!
# Media files beside a script

The media files of a directory of a tree are its files with one of the extensions that are no
directories at the same time, in strict order of their names.
-/

namespace AddonBundle

/-! ## The key of an entry of a directory -/

namespace Path

open Text

/-- Whether a path starts at the root. -/
private def isRooted (path : Text) : Bool := leadingSlashes path ≠ 0

private theorem isRooted_eq (path : Text) : isRooted path = decide (path.head? = some '/') := by
  simp only [isRooted, ne_eq, leadingSlashes_eq_zero_iff, not_not]

private theorem isRooted_append {base : Text} (rest : Text) (h : base ≠ []) :
    isRooted (base ++ rest) = isRooted base := by
  rw [isRooted_eq, isRooted_eq, List.head?_append_of_ne_nil _ h]

private theorem parts_eq (path : Text) :
    parts path = ((split '/' path).foldl (pushPart (isRooted path)) []).reverse := rfl

private theorem parts_append_slash {base name : Text} (hlast : base.getLast? = some '/')
    (h : '/' ∉ name) :
    parts (base ++ name) = (pushPart (isRooted base) (parts base).reverse name).reverse := by
  obtain ⟨front, rfl⟩ : ∃ front, base = front ++ ['/'] := by
    obtain ⟨front, hfront⟩ := List.getLast?_eq_some_iff.mp hlast
    exact ⟨front, hfront⟩
  have hskip : ∀ rooted done, pushPart rooted done [] = done := by
    intro rooted done
    simp [pushPart]
  rw [parts_eq, parts_eq, isRooted_append _ (by simp), List.append_assoc, List.singleton_append,
    split_append, split_append, split_of_not_mem h]
  simp [split, hskip]

/-- The path of an entry of a directory, which may be the root written as nothing. -/
def child (directory name : Text) : Text :=
  if directory.isEmpty then name else append directory name

/-- The parts of an entry's path are those of its directory with its name pushed on them. -/
private theorem parts_child {directory name : Text} (hslash : '/' ∉ name) (hback : '\\' ∉ name) :
    parts (unifySlashes (child directory name)) =
      (pushPart (isRooted (unifySlashes directory)) (parts (unifySlashes directory)).reverse
        name).reverse := by
  have hname : unifySlashes name = name := unifySlashes_eq_self hback
  by_cases hempty : directory = []
  · subst hempty
    have hrooted : isRooted name = false := by
      rw [isRooted_eq, decide_eq_false_iff_not]
      intro hhead
      exact hslash (List.mem_of_mem_head? hhead)
    rw [child, if_pos (by simp), hname, parts_eq, split_of_not_mem hslash, hrooted]
    rfl
  · have hhead : name.head? ≠ some '/' := fun hhead => hslash (List.mem_of_mem_head? hhead)
    have hne : unifySlashes directory ≠ [] := by simpa [unifySlashes] using hempty
    rw [child, if_neg (by simpa using hempty), append, if_neg hhead]
    by_cases hlast : directory.getLast? = some '/'
    · rw [if_pos (by simp [hlast])]
      have hlast' : (unifySlashes directory).getLast? = some '/' := by
        simp [unifySlashes, hlast]
      rw [show unifySlashes (directory ++ name) = unifySlashes directory ++ unifySlashes name by
        simp [unifySlashes], hname]
      exact parts_append_slash hlast' hslash
    · rw [if_neg (by simp [hlast, hempty])]
      rw [show unifySlashes (directory ++ '/' :: name) =
        unifySlashes directory ++ '/' :: unifySlashes name by simp [unifySlashes], hname]
      rw [parts_append name hne, split_of_not_mem hslash]
      rfl

private theorem keyStart_append (directory name : Text) :
    Tree.keyStart directory ++ name =
      join ['/'] (parts (unifySlashes directory) ++ [name]) := by
  have hkey := key_eq_join directory
  have hnormal := isNormal_parts (backslash_not_mem_unifySlashes directory)
  by_cases hparts : parts (unifySlashes directory) = []
  · simp [Tree.keyStart, hkey, hparts]
  · have hne := join_ne_nil_of_isNormal hparts hnormal
    rw [join_append hparts (by simp)]
    simp [Tree.keyStart, hkey, hne]

/-- The key of an entry is found below the key of its directory; only a step out of a rooted path
leads to the root itself. -/
theorem key_child {directory name : Text}
    (h : IsNormal (parts (unifySlashes directory) ++ [name])) :
    key (child directory name) = Tree.keyStart directory ++ name ∨
      key (child directory name) = [] := by
  have hslash : '/' ∉ name := h.slash_not_mem (by simp)
  have hback : '\\' ∉ name := h.backslash_not_mem (by simp)
  rw [key_eq_join, parts_child hslash hback, keyStart_append]
  by_cases houter : name = outer
  · -- only steps out of the root can stand before another one
    subst houter
    have hall := h.eq_replicate
    cases hn : (parts (unifySlashes directory)).length with
    | zero =>
        rw [hn, List.replicate_zero] at hall
        rw [hall, List.reverse_nil, pushPart_outer]
        cases isRooted (unifySlashes directory)
        · exact .inl rfl
        · exact .inr rfl
    | succ n =>
        rw [hn] at hall
        left
        rw [hall, List.reverse_replicate, pushPart_outer, ← List.replicate_succ']
        simp only [List.replicate_succ, if_true]
        rw [← List.replicate_succ, ← List.replicate_succ, List.reverse_replicate]
  · left
    rw [pushPart_segment (h.isSegment (by simp) houter)]
    simp

end Path

/-! ## Listing media files -/

namespace Script

/-- The media files directly in a directory of a tree, in order. -/
def treeMedia (tree : Tree) (extensions : List Text) (directory : Text) : List Text :=
  (tree.listDir directory).filter fun name =>
    !tree.isDir (Path.child directory name) && isMedia extensions name

private theorem filterAuxM_ok {keep : Text → Except Failure Bool} {holds : Text → Bool}
    (h : ∀ name, keep name = .ok (holds name)) (names done : List Text) :
    names.filterAuxM keep done = .ok ((names.filter holds).reverse ++ done) := by
  induction names generalizing done with
  | nil => rfl
  | cons name names ih =>
      rw [List.filterAuxM, h]
      cases hname : holds name
      · rw [List.filter_cons_of_neg (by simp [hname])]
        exact ih done
      · rw [List.filter_cons_of_pos hname, List.reverse_cons, List.append_assoc]
        exact ih (name :: done)

theorem filterM_ok {keep : Text → Except Failure Bool} {holds : Text → Bool}
    (h : ∀ name, keep name = .ok (holds name)) (names : List Text) :
    names.filterM keep = .ok (names.filter holds) := by
  rw [List.filterM, filterAuxM_ok h]
  simp [bind, Except.bind, pure, Except.pure]

private theorem mem_of_filterAuxM {keep : Text → Except Failure Bool} {names done found : List Text}
    (h : names.filterAuxM keep done = .ok found) {name : Text} (hname : name ∈ found) :
    name ∈ names ∨ name ∈ done := by
  induction names generalizing done with
  | nil =>
      obtain rfl : done = found := Except.ok.inj h
      exact .inr hname
  | cons first names ih =>
      rw [List.filterAuxM] at h
      cases hkeep : keep first with
      | error failure =>
          rw [hkeep] at h
          cases h
      | ok kept =>
          rw [hkeep] at h
          rcases ih h with hmem | hmem
          · exact .inl (List.mem_cons_of_mem _ hmem)
          · cases kept with
            | false => exact .inr hmem
            | true =>
                rcases List.mem_cons.mp hmem with rfl | hmem
                · exact .inl List.mem_cons_self
                · exact .inr hmem

/-- Filtering finds none but the names given. -/
theorem mem_of_filterM {keep : Text → Except Failure Bool} {names found : List Text}
    (h : names.filterM keep = .ok found) {name : Text} (hname : name ∈ found) : name ∈ names := by
  rw [List.filterM] at h
  cases haux : names.filterAuxM keep [] with
  | error failure =>
      rw [haux] at h
      cases h
  | ok kept =>
      rw [haux] at h
      obtain rfl : kept.reverse = found := Except.ok.inj h
      exact (mem_of_filterAuxM haux (List.mem_reverse.mp hname)).resolve_right List.not_mem_nil

theorem mediaFiles_memory {σ : Type} (get : σ → Tree) (set : Tree → σ → σ) (s : σ)
    (extensions : List Text) (directory : Text) :
    mediaFiles (.memory get set) s extensions directory =
      .ok (treeMedia (get s) extensions directory) := by
  have hkeep : ∀ name, (do
      let child := if directory.isEmpty then name else Path.append directory name
      return !(← (View.memory get set).isDir s child) && isMedia extensions name :
        Except Failure Bool) =
      .ok (!(get s).isDir (Path.child directory name) && isMedia extensions name) := by
    intro name
    rfl
  exact filterM_ok hkeep ((get s).listDir directory)

theorem pairwise_lt_treeMedia (tree : Tree) (extensions : List Text) (directory : Text) :
    (treeMedia tree extensions directory).Pairwise (· < ·) :=
  (tree.pairwise_lt_listDir directory).filter _

private theorem isNormal_below {tree : Tree} (h : tree.Normal) {directory name rest : Text}
    (hname : '/' ∉ name) (hkey : Tree.keyStart directory ++ (name ++ '/' :: rest) ∈ tree.keys) :
    Path.IsNormal (Path.parts (Path.unifySlashes directory) ++ [name]) := by
  have hnormal := Path.isNormal_parts (Path.backslash_not_mem_unifySlashes directory)
  have hparts : ∀ part ∈ Path.parts (Path.unifySlashes directory) ++ [name], '/' ∉ part := by
    intro part hpart
    rcases List.mem_append.mp hpart with hpart | hpart
    · exact hnormal.slash_not_mem hpart
    · rw [List.mem_singleton.mp hpart]
      exact hname
  have hsplit := (h.isKey _ hkey).isNormal_split (by simp)
  rw [← List.append_assoc, Path.keyStart_append, Text.split_append,
    Text.split_join (by simp) hparts] at hsplit
  exact hsplit.of_append

/-- An entry with something below it is a directory. -/
private theorem isDir_child {tree : Tree} (h : tree.Normal) {directory name rest : Text}
    (hname : '/' ∉ name) (hkey : Tree.keyStart directory ++ (name ++ '/' :: rest) ∈ tree.keys) :
    tree.isDir (Path.child directory name) = true := by
  rcases Path.key_child (isNormal_below h hname hkey) with hchild | hchild
  · rw [Tree.isDir, hchild, Bool.or_eq_true, Tree.hasBelow_iff]
    exact .inr ⟨rest, by simpa using hkey⟩
  · simp [Tree.isDir, hchild]

/-- The media files of a directory are its files with an extension that are no directories. -/
theorem mem_treeMedia {tree : Tree} (h : tree.Normal) {extensions : List Text}
    {directory name : Text} :
    name ∈ treeMedia tree extensions directory ↔
      '/' ∉ name ∧ Tree.keyStart directory ++ name ∈ tree.keys ∧
        tree.isDir (Path.child directory name) = false ∧ isMedia extensions name = true := by
  simp only [treeMedia, List.mem_filter, Tree.mem_listDir, Bool.and_eq_true, Bool.not_eq_true']
  constructor
  · rintro ⟨⟨rel, hrel, rfl⟩, hdir, hmedia⟩
    have hslash : '/' ∉ rel.takeWhile (· ≠ '/') := by
      intro hmem
      simpa using List.mem_takeWhile_imp hmem
    refine ⟨hslash, ?_, hdir, hmedia⟩
    have hsplit : rel.takeWhile (· ≠ '/') ++ rel.dropWhile (· ≠ '/') = rel :=
      List.takeWhile_append_dropWhile
    cases hrest : rel.dropWhile (· ≠ '/') with
    | nil =>
        rw [hrest, List.append_nil] at hsplit
        rw [hsplit]
        exact hrel
    | cons c rest =>
        exfalso
        have hc : c = '/' := by
          have hstop := List.head?_dropWhile_not (· ≠ '/') rel
          rw [hrest] at hstop
          simpa using hstop
        subst hc
        rw [hrest] at hsplit
        rw [← hsplit] at hrel
        rw [isDir_child h hslash hrel] at hdir
        cases hdir
  · rintro ⟨hslash, hkey, hdir, hmedia⟩
    refine ⟨⟨name, hkey, ?_⟩, hdir, hmedia⟩
    symm
    rw [List.takeWhile_eq_self_iff]
    intro c hc
    simpa using fun heq : c = '/' => hslash (heq ▸ hc)

end Script

end AddonBundle
