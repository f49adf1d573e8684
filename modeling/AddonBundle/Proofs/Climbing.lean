import AddonBundle.Proofs.Tree
import Mathlib.Data.List.Induction
/-!
# Paths that climb

What the parts of a path do to the directory that they start from: they climb out of some of its
parts, or even out of the root, and put names in their place. How far they climb does not depend
on the directory.
-/

namespace AddonBundle

namespace Text

/-- Text without separators goes to the last part. -/
theorem exists_split_append {sep : Char} (base : Text) {tail : Text} (h : sep ∉ tail) :
    ∃ front last, split sep base = front ++ [last] ∧
      split sep (base ++ tail) = front ++ [last ++ tail] := by
  obtain ⟨front, last, hsplit⟩ :=
    List.eq_nil_or_concat (split sep base) |>.resolve_left (split_ne_nil sep base)
  rw [List.concat_eq_append] at hsplit
  refine ⟨front, last, hsplit, ?_⟩
  have hparts : ∀ part ∈ front ++ [last], sep ∉ part := by
    rw [← hsplit]
    exact fun part hpart => not_mem_of_mem_split hpart
  have hjoin : join [sep] (front ++ [last ++ tail]) = base ++ tail := by
    rw [← join_split sep base, hsplit]
    cases front with
    | nil => simp
    | cons part front =>
        rw [join_append (by simp) (by simp), join_append (by simp) (by simp)]
        simp
  rw [← hjoin]
  apply split_join (by simp)
  intro part hpart
  rcases List.mem_append.mp hpart with hpart | hpart
  · exact hparts part (List.mem_append_left _ hpart)
  · rw [List.mem_singleton.mp hpart, List.mem_append, not_or]
    exact ⟨hparts last (by simp), h⟩

end Text

namespace Path

open Text

/-! ## Climbing -/

/-- A step out where all that came on top has been climbed out of. -/
theorem pushPart_outer_climbed {base : List Text} (hbase : ∀ name ∈ base, IsSegment name)
    (up : Nat) :
    pushPart false (base.drop up ++ List.replicate (up - base.length) outer) outer =
      base.drop (up + 1) ++ List.replicate (up + 1 - base.length) outer := by
  rw [pushPart_outer]
  cases hdrop : base.drop up with
  | nil =>
      -- the names are used up: the step leads out of the root
      have hle : base.length ≤ up := List.drop_eq_nil_iff.mp hdrop
      have hnone : base.drop (up + 1) = [] := List.drop_eq_nil_iff.mpr (by omega)
      rw [hnone, show up + 1 - base.length = up - base.length + 1 by omega]
      cases hup : up - base.length <;> simp [List.replicate_succ]
  | cons last rest =>
      have hlt : up < base.length := by
        by_contra hle
        rw [List.drop_eq_nil_iff.mpr (by omega)] at hdrop
        cases hdrop
      have hlast : last ≠ outer :=
        (hbase last (List.mem_of_mem_drop (hdrop ▸ List.mem_cons_self))).2.2.2.2
      have hrest : base.drop (up + 1) = rest := by
        rw [← List.drop_drop, hdrop]
        rfl
      simp [hlast, hrest, show up - base.length = 0 by omega,
        show up + 1 - base.length = 0 by omega]

/-- What parts do to names: some of the names are climbed out of, and new ones come on top. -/
theorem exists_climb {items : List Text} (h : ∀ part ∈ items, '/' ∉ part ∧ '\\' ∉ part) :
    ∃ up names, (∀ name ∈ names, IsSegment name) ∧
      ∀ base : List Text, (∀ name ∈ base, IsSegment name) →
        items.foldl (pushPart false) base =
          names ++ (base.drop up ++ List.replicate (up - base.length) outer) := by
  induction items using List.reverseRecOn with
  | nil => exact ⟨0, [], by simp, fun base _ => by simp⟩
  | append_singleton items part ih =>
      obtain ⟨up, names, hnames, hclimb⟩ := ih fun p hp => h p (List.mem_append_left _ hp)
      simp only [List.foldl_append, List.foldl_cons, List.foldl_nil]
      by_cases hskip : part = [] ∨ part = ['.']
      · refine ⟨up, names, hnames, fun base hbase => ?_⟩
        rw [hclimb base hbase]
        rcases hskip with rfl | rfl <;> simp [pushPart]
      · by_cases houter : part = outer
        · subst houter
          cases names with
          | nil =>
              refine ⟨up + 1, [], by simp, fun base hbase => ?_⟩
              rw [hclimb base hbase]
              exact pushPart_outer_climbed hbase up
          | cons name names =>
              have hname : name ≠ outer := (hnames name List.mem_cons_self).2.2.2.2
              refine ⟨up, names, fun n hn => hnames n (List.mem_cons_of_mem _ hn),
                fun base hbase => ?_⟩
              rw [hclimb base hbase, pushPart_outer]
              simp [hname]
        · rw [not_or] at hskip
          obtain ⟨hslash, hback⟩ := h part (by simp)
          have hsegment : IsSegment part := ⟨hskip.1, hslash, hback, hskip.2, houter⟩
          refine ⟨up, part :: names, ?_, fun base hbase => ?_⟩
          · intro name hname
            rcases List.mem_cons.mp hname with rfl | hname
            · exact hsegment
            · exact hnames name hname
          · rw [hclimb base hbase, pushPart_segment hsegment, List.cons_append]

/-- A step out of the root is not taken back. -/
theorem outer_mem_pushPart {done : List Text} (part : Text) (h : outer ∈ done) :
    outer ∈ pushPart false done part := by
  by_cases hskip : part = [] ∨ part = ['.']
  · rcases hskip with rfl | rfl <;> simpa [pushPart] using h
  · by_cases houter : part = outer
    · subst houter
      rw [pushPart_outer]
      cases done with
      | nil => cases h
      | cons last before =>
          dsimp only
          split
          · exact List.mem_cons_self
          · rename_i hlast
            exact (List.mem_cons.mp h).resolve_left fun heq => hlast heq.symm
    · rw [not_or] at hskip
      have hpush : pushPart false done part = part :: done := by
        have houter' : part ≠ "..".toList := houter
        unfold pushPart
        rw [if_neg (by simp [hskip]), if_pos houter']
      rw [hpush]
      exact List.mem_cons_of_mem _ h

/-! ## Keys of paths below a directory -/

theorem unifySlashes_append (front back : Text) :
    unifySlashes (front ++ back) = unifySlashes front ++ unifySlashes back :=
  List.map_append

/-- The parts of a path are pushed on those of the directory that it starts from. -/
theorem parts_below {directory : Text} (path : Text) (hne : directory ≠ [])
    (hhead : (unifySlashes directory).head? ≠ some '/') :
    parts (unifySlashes (directory ++ '/' :: path)) =
      ((split '/' (unifySlashes path)).foldl (pushPart false)
        (parts (unifySlashes directory)).reverse).reverse := by
  have hne' : unifySlashes directory ≠ [] := by simpa [unifySlashes] using hne
  have hunify : unifySlashes (directory ++ '/' :: path) =
      unifySlashes directory ++ '/' :: unifySlashes path := by
    rw [unifySlashes_append]
    rfl
  rw [hunify, parts_append _ hne', leadingSlashes_eq_zero hhead]
  simp

/-- An entry that is found below the key of a directory is found under its path. -/
theorem key_below {directory rel : Text} (hne : directory ≠ [])
    (hhead : (unifySlashes directory).head? ≠ some '/')
    (hkey : IsKey (Tree.keyStart directory ++ rel)) (hrel : rel ≠ []) :
    key (directory ++ '/' :: rel) = Tree.keyStart directory ++ rel := by
  have hback : '\\' ∉ rel := by
    intro hmem
    obtain ⟨parts, hparts, heq⟩ := hkey
    have hmem' : '\\' ∈ join ['/'] parts := heq ▸ List.mem_append_right _ hmem
    have hnot := backslash_not_mem_unifySlashes (join ['/'] parts)
    rw [unifySlashes_eq_self] at hnot
    · exact hnot hmem'
    · exact backslash_not_mem_join fun _ hpart => hparts.backslash_not_mem hpart
  have hnormal := isNormal_parts (backslash_not_mem_unifySlashes directory)
  -- what stands between the slashes of the key
  have hsplit : split '/' (Tree.keyStart directory ++ rel) =
      parts (unifySlashes directory) ++ split '/' rel := by
    rw [Tree.keyStart, key_eq_join]
    by_cases hparts : parts (unifySlashes directory) = []
    · simp [hparts]
    · have hjoin := join_ne_nil_of_isNormal hparts hnormal
      rw [if_neg (by simpa using hjoin), List.append_assoc, List.singleton_append, split_append,
        split_join hparts fun _ hpart => hnormal.slash_not_mem hpart]
  have hall := hkey.isNormal_split (by simp [hrel])
  rw [hsplit] at hall
  have hpush : (split '/' rel).foldl (pushPart false) (parts (unifySlashes directory)).reverse =
      (parts (unifySlashes directory) ++ split '/' rel).reverse := by
    rw [← hall.foldl_pushPart, List.foldl_append, hnormal.foldl_pushPart]
  rw [key_eq_join, parts_below rel hne hhead, unifySlashes_eq_self hback, hpush,
    List.reverse_reverse, ← hsplit, join_split]

/-- A key ends as its path does, if the path ends in a name that is long enough. -/
theorem getLast?_key_append (base : Text) {tail : Text} (hslash : '/' ∉ tail) (hback : '\\' ∉ tail)
    (hlength : 3 ≤ tail.length) : (key (base ++ tail)).getLast? = tail.getLast? := by
  have htail : tail ≠ [] := by
    rintro rfl
    simp at hlength
  obtain ⟨front, last, hsplit, happend⟩ := exists_split_append (unifySlashes base) hslash
  have hlast : IsSegment (last ++ tail) := by
    have hmem : last ∈ split '/' (unifySlashes base) := by simp [hsplit]
    have hnot : '\\' ∉ last := fun hc =>
      backslash_not_mem_unifySlashes base (mem_of_mem_split hmem hc)
    apply isSegment_of_length
    · rw [List.length_append]
      omega
    · rw [List.mem_append, not_or]
      exact ⟨not_mem_of_mem_split hmem, hslash⟩
    · rw [List.mem_append, not_or]
      exact ⟨hnot, hback⟩
  rw [key_eq_join, unifySlashes_append, unifySlashes_eq_self hback, parts, happend,
    List.foldl_append, List.foldl_cons, List.foldl_nil, pushPart_segment hlast, List.reverse_cons]
  generalize (List.foldl (pushPart _) [] front).reverse = before
  by_cases hbefore : before = []
  · rw [hbefore, List.nil_append, join_singleton, List.getLast?_append_of_ne_nil _ htail]
  · rw [join_append hbefore (by simp), join_singleton, ← List.append_assoc,
      List.getLast?_append_of_ne_nil _ htail]

end Path

end AddonBundle
