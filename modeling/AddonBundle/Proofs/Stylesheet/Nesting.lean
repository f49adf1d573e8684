import AddonBundle.Proofs.Stylesheet.Inlining
import AddonBundle.Proofs.Utf8
import AddonBundle.Stylesheet.Restyle
import Mathlib.Data.List.Nodup
import Mathlib.Data.List.Perm.Subperm
/-!
# How deep imports nest

In a tree in memory flattening fails with a fault or because imports nest too deep. A file is
remembered by the normal form of the path that leads to it, and found by the key of that path.
While each file is met by one path only, nested calls enter a file once, so imports nest no deeper
than the tree has files. This is so when the paths have no backslashes and do not start at the
root. A file that is met by ever new paths makes the calls go on for ever.
-/

namespace AddonBundle.Stylesheet

open Text

variable {σ : Type} {get : σ → Tree} {set : Tree → σ → σ} {s : σ}

/-! ## Failures of a tree in memory -/

theorem readSheet_memory (get : σ → Tree) (set : Tree → σ → σ) (s : σ) (path : Text) :
    (∃ bytes text, (get s).get? (Path.key path) = some bytes ∧ Utf8.decode bytes = .ok text ∧
      readSheet (.memory get set) s path = .ok text) ∨
    ∃ fault, fault.addon = none ∧
      readSheet (.memory get set) s path = .error (.fault fault) := by
  unfold readSheet
  rw [View.readText_memory]
  cases hget : (get s).get? (Path.key path) with
  | none => exact .inr ⟨_, rfl, rfl⟩
  | some bytes =>
      cases hdecode : Utf8.decode bytes with
      | error e => exact .inr ⟨.sheetUnreadable _ _, rfl, by simp only [hdecode]; rfl⟩
      | ok text => exact .inl ⟨bytes, text, rfl, hdecode, by simp only [hdecode]; rfl⟩

theorem unlimited_memory : Unlimited (.memory get set) s := by
  intro path passed
  rw [View.isFile_memory]
  refine ⟨by simp, ?_⟩
  obtain ⟨bytes, text, -, -, hread⟩ | ⟨fault, -, hread⟩ := readSheet_memory get set s path
  · rw [hread]
    simp
  · rw [hread]
    simp

theorem failure_of_inlineImports {deeper : Nat} {seen : List Text} {importer text : Text}
    {failure : Failure}
    (h : inlineImports (.memory get set) s deeper seen importer text = .error failure) :
    failure = .limit .nesting ∨ ∃ fault : Fault, fault.addon = none ∧ failure = .fault fault := by
  induction deeper generalizing seen importer text with
  | zero =>
      cases h
      exact .inl rfl
  | succ deeper ih =>
      rw [inlineImports_succ] at h
      obtain ⟨request, -, hfail⟩ := exists_asked_of_error h
      unfold loadFor at hfail
      rw [View.isFile_memory] at hfail
      split at hfail
      · rename_i hfile
        cases hfile
      · cases hfail
        exact .inr ⟨_, rfl, rfl⟩
      · obtain ⟨bytes, text, -, -, hread⟩ | ⟨fault, hnone, hread⟩ :=
          readSheet_memory get set s (importPath importer request.2)
        · rw [hread] at hfail
          exact ih hfail
        · rw [hread] at hfail
          cases hfail
          exact .inr ⟨fault, hnone, rfl⟩

/-- A result or a fault, and no other failure. -/
def Finishes {α : Type} (outcome : Except Failure α) : Prop :=
  (∃ result, outcome = .ok result) ∨ ∃ fault, outcome = .error (.fault fault)

theorem finishes_inlineImports {deeper : Nat} {seen : List Text} {importer text : Text}
    (h : inlineImports (.memory get set) s deeper seen importer text ≠ .error (.limit .nesting)) :
    Finishes (inlineImports (.memory get set) s deeper seen importer text) := by
  cases houtcome : inlineImports (.memory get set) s deeper seen importer text with
  | ok result => exact .inl ⟨result, rfl⟩
  | error failure =>
      rcases failure_of_inlineImports houtcome with rfl | ⟨fault, -, rfl⟩
      · exact absurd houtcome h
      · exact .inr ⟨fault, rfl⟩

theorem finishes_flattenText {path text : Text}
    (h : Finishes (inlineImports (.memory get set) s Limit.maxNesting [Path.normalize path] path
      text)) : Finishes (flattenText (.memory get set) s path text) := by
  unfold flattenText
  rcases h with ⟨⟨inlined, seen⟩, h⟩ | ⟨fault, h⟩
  · rw [h]
    dsimp only
    cases substituteVariables [] (some path) inlined with
    | ok text => exact .inl ⟨text, rfl⟩
    | error fault => exact .inr ⟨fault, rfl⟩
  · rw [h]
    exact .inr ⟨fault, rfl⟩

theorem flattenText_eq_error {view : View σ} {path text : Text} {failure : Failure}
    (h : inlineImports view s Limit.maxNesting [Path.normalize path] path text = .error failure) :
    flattenText view s path text = .error failure := by
  unfold flattenText
  rw [h]

theorem flatten_of_readSheet {view : View σ} {path text : Text}
    (hfile : view.isFile s path = .ok true) (hread : readSheet view s path = .ok text) :
    flatten view s path = flattenText view s path text := by
  unfold flatten
  rw [hfile, hread]

theorem finishes_flatten {path : Text}
    (h : ∀ text, readSheet (.memory get set) s path = .ok text →
      Finishes (flattenText (.memory get set) s path text)) :
    Finishes (flatten (.memory get set) s path) := by
  have hfile := View.isFile_memory get set s path
  cases hcase : (get s).isFile path && !(get s).isDir path with
  | false =>
      rw [hcase] at hfile
      unfold flatten
      rw [hfile]
      exact .inr ⟨_, rfl⟩
  | true =>
      rw [hcase] at hfile
      obtain ⟨bytes, text, -, -, hread⟩ | ⟨fault, -, hread⟩ := readSheet_memory get set s path
      · rw [flatten_of_readSheet hfile hread]
        exact h text hread
      · unfold flatten
        rw [hfile, hread]
        exact .inr ⟨fault, rfl⟩

/-- Flattening fails because imports nest too deep or with a fault, which names no addon. -/
theorem failure_of_flatten {path : Text} {failure : Failure}
    (h : flatten (.memory get set) s path = .error failure) :
    failure = .limit .nesting ∨ ∃ fault : Fault, fault.addon = none ∧ failure = .fault fault := by
  unfold flatten at h
  rw [View.isFile_memory] at h
  split at h
  · rename_i hfile
    cases hfile
  · cases h
    exact .inr ⟨_, rfl, rfl⟩
  · obtain ⟨bytes, text, -, -, hread⟩ | ⟨fault, hnone, hread⟩ := readSheet_memory get set s path
    · rw [hread] at h
      dsimp only at h
      unfold flattenText at h
      split at h
      · rename_i houtcome
        cases h
        exact failure_of_inlineImports houtcome
      · split at h
        · cases h
        · rename_i fault hvariables
          cases h
          refine .inr ⟨fault, ?_, rfl⟩
          unfold substituteVariables at hvariables
          split at hvariables
          · cases hvariables
          · cases hvariables
            rfl
    · rw [hread] at h
      cases h
      exact .inr ⟨fault, hnone, rfl⟩

theorem failure_of_restyleSheet {directory : Text} {mapping : ClassMapping} {failure : Failure}
    (h : restyleSheet (.memory get set) s directory mapping = .error failure) :
    failure = .limit .nesting ∨ ∃ fault : Fault, fault.addon = none ∧ failure = .fault fault := by
  unfold restyleSheet at h
  dsimp only at h
  split at h
  · rename_i hpresent
    cases hpresent
  · cases h
    exact .inr ⟨_, rfl, rfl⟩
  · cases hflatten : flatten (.memory get set) s (sheetPath directory mapping.sheet) with
    | ok text =>
        rw [hflatten] at h
        cases h
    | error failure =>
        rw [hflatten] at h
        cases h
        exact failure_of_flatten hflatten

/-! ## The files of nested calls -/

/-- Nested calls of the flattening of a text at a path, from the outermost inwards and under any
limit. The first call is not among them. -/
def IsNest (view : View σ) (s : σ) (path text : Text) (calls : List Call) : Prop :=
  ∃ limit, List.IsChain (Enters view s) (⟨limit, [Path.normalize path], path, text⟩ :: calls)

/-- The files of the first call and of the calls nested in it: the key under which a tree holds
each, and the path that it is remembered by. -/
def visits (path : Text) (calls : List Call) : List (Text × Text) :=
  (Path.key path, Path.normalize path) :: calls.map fun call => (Path.key call.path, call.path)

/-- No file is met by two different paths. -/
def OnePath (view : View σ) (s : σ) (path text : Text) : Prop :=
  ∀ calls, IsNest view s path text calls →
    ∀ a ∈ visits path calls, ∀ b ∈ visits path calls, a.1 = b.1 → a.2 = b.2

theorem IsNest.nodup_paths {view : View σ} {path text : Text} {calls : List Call}
    (h : IsNest view s path text calls) : ((visits path calls).map (·.2)).Nodup := by
  obtain ⟨limit, hchain⟩ := h
  obtain ⟨hnodup, hfresh⟩ := Stylesheet.nodup_paths hchain
  rw [visits, List.map_cons, List.map_map, List.nodup_cons, List.mem_map]
  refine ⟨?_, hnodup⟩
  rintro ⟨call, hcall, heq⟩
  exact hfresh call hcall (List.mem_singleton.mpr heq)

theorem nodup_keys_iff {visits : List (Text × Text)} (hpaths : (visits.map (·.2)).Nodup) :
    (visits.map (·.1)).Nodup ↔ ∀ a ∈ visits, ∀ b ∈ visits, a.1 = b.1 → a.2 = b.2 := by
  constructor
  · intro hkeys a ha b hb heq
    rw [List.inj_on_of_nodup_map hkeys ha hb heq]
  · intro hone
    exact hpaths.of_map.map_on fun a ha b hb heq => Prod.ext heq (hone a ha b hb heq)

/-- Every call behind the first is entered from one before it. -/
theorem exists_enters {view : View σ} {start : Call} {calls : List Call}
    (h : List.IsChain (Enters view s) (start :: calls)) {call : Call} (hcall : call ∈ calls) :
    ∃ outer, Enters view s outer call := by
  induction calls generalizing start with
  | nil => cases hcall
  | cons next rest ih =>
      obtain ⟨henters, hrest⟩ := List.isChain_cons_cons.mp h
      rcases List.mem_cons.mp hcall with rfl | hcall
      · exact ⟨start, henters⟩
      · exact ih hrest hcall

/-- Nested calls that enter different files are no more than there are files. -/
theorem IsNest.length_le {path text : Text} {calls : List Call}
    (h : IsNest (.memory get set) s path text calls)
    (hkeys : ((visits path calls).map (·.1)).Nodup) : calls.length ≤ (get s).files.length := by
  obtain ⟨limit, hchain⟩ := h
  rw [visits, List.map_cons, List.nodup_cons, List.map_map] at hkeys
  have hsubset : calls.map (fun call => Path.key call.path) ⊆ (get s).keys := by
    intro key hkey
    obtain ⟨call, hcall, rfl⟩ := List.mem_map.mp hkey
    obtain ⟨outer, henters⟩ := exists_enters hchain hcall
    have hfile := henters.isFile
    rw [View.isFile_memory, Except.ok.injEq, Bool.and_eq_true] at hfile
    exact (Tree.isSome_get? _ _).mp hfile.1
  have hle := (hkeys.2.subperm hsubset).length_le
  rwa [Tree.keys, List.length_map, List.length_map] at hle

theorem length_le_of_onePath {path text : Text} {calls : List Call}
    (hone : OnePath (.memory get set) s path text)
    (h : IsNest (.memory get set) s path text calls) : calls.length ≤ (get s).files.length :=
  h.length_le ((nodup_keys_iff h.nodup_paths).mpr (hone calls h))

theorem not_limit_of_onePath {path text : Text} (hone : OnePath (.memory get set) s path text)
    {limit : Nat} (hlimit : (get s).files.length < limit) :
    inlineImports (.memory get set) s limit [Path.normalize path] path text ≠
      .error (.limit .nesting) := by
  rw [ne_eq, inlineImports_eq_limit unlimited_memory]
  rintro ⟨calls, hchain, hlength⟩
  have hle := length_le_of_onePath hone ⟨limit, hchain⟩
  omega

theorem finishes_of_onePath {path text : Text} (hone : OnePath (.memory get set) s path text)
    (hlimit : (get s).files.length < Limit.maxNesting) :
    Finishes (flattenText (.memory get set) s path text) :=
  finishes_flattenText (finishes_inlineImports (not_limit_of_onePath hone hlimit))

/-! ## Plain paths -/

/-- The targets of the imports of a stylesheet that are no remote ones. -/
def localTargets (text : Text) : List Text :=
  (pieces recogniseImport (dropComments text)).filterMap fun
    | .plain _ => none
    | .item statement _ =>
      if isRemote (trim statement.target) then none else some (trim statement.target)

/-- The stylesheet and every file of the tree lead to other files by plain paths only. -/
structure PlainImports (tree : Tree) (path text : Text) : Prop where
  path : Path.IsPlain path
  text : ∀ target ∈ localTargets text, Path.IsPlain target
  files : ∀ key bytes sheet, tree.get? key = some bytes → Utf8.decode bytes = .ok sheet →
    ∀ target ∈ localTargets sheet, Path.IsPlain target

theorem Enters.mem_localTargets {view : View σ} {outer inner : Call}
    (h : Enters view s outer inner) :
    ∃ target ∈ localTargets outer.text, inner.path = importPath outer.path target := by
  obtain ⟨request, hrequest, hpath, -⟩ := h.asked
  rw [outer.asked_succ h.deeper_eq] at hrequest
  obtain ⟨statement, text, hmem, htarget, hlocal⟩ := local_of_asked hrequest
  refine ⟨request.2, List.mem_filterMap.mpr ⟨_, hmem, ?_⟩, hpath⟩
  rw [htarget] at hlocal ⊢
  simp [hlocal]

/-- From plain imports only plain paths are met. -/
theorem plain_of_isChain {start : Call} {calls : List Call}
    (h : List.IsChain (Enters (.memory get set) s) (start :: calls))
    (hplain : PlainImports (get s) start.path start.text) :
    ∀ call ∈ calls, ∃ path, Path.IsPlain path ∧ call.path = Path.normalize path := by
  induction calls generalizing start with
  | nil => simp
  | cons next rest ih =>
      obtain ⟨henters, hrest⟩ := List.isChain_cons_cons.mp h
      obtain ⟨target, htarget, hpath⟩ := henters.mem_localTargets
      have hjoined : Path.IsPlain (Path.append (Path.parent start.path) target) :=
        (hplain.path.of_isPrefix (Path.parent_isPrefix _)).append (hplain.text target htarget)
      obtain ⟨bytes, text, hget, hdecode, hread⟩ | ⟨fault, -, hread⟩ :=
        readSheet_memory get set s next.path
      · obtain rfl : text = next.text := by
          rw [henters.text_eq] at hread
          exact (Except.ok.inj hread).symm
        have hnext : PlainImports (get s) next.path next.text :=
          ⟨hpath ▸ hjoined.normalize, hplain.files _ _ _ hget hdecode, hplain.files⟩
        intro call hcall
        rcases List.mem_cons.mp hcall with rfl | hcall
        · exact ⟨_, hjoined, hpath⟩
        · exact ih hrest hnext call hcall
      · rw [henters.text_eq] at hread
        cases hread

theorem onePath_of_plainImports {path text : Text} (h : PlainImports (get s) path text) :
    OnePath (.memory get set) s path text := by
  rintro calls ⟨limit, hchain⟩
  have hcalls := plain_of_isChain hchain h
  have hvisit : ∀ visit ∈ visits path calls, ∃ plain, Path.IsPlain plain ∧
      visit = (Path.key plain, Path.normalize plain) := by
    intro visit hvisit
    rcases List.mem_cons.mp hvisit with rfl | hvisit
    · exact ⟨path, h.path, rfl⟩
    · obtain ⟨call, hcall, rfl⟩ := List.mem_map.mp hvisit
      obtain ⟨plain, hplain, hpath⟩ := hcalls call hcall
      refine ⟨plain, hplain, ?_⟩
      rw [hpath, hplain.key_normalize]
  intro a ha b hb heq
  obtain ⟨p, hp, rfl⟩ := hvisit a ha
  obtain ⟨q, hq, rfl⟩ := hvisit b hb
  dsimp only at heq ⊢
  rw [hp.normalize_eq, hq.normalize_eq, heq]

/-! ## Termination -/

/-- Imports nest too deep exactly when there are as many nested calls as the limit allows. Nested
calls never enter one path twice, and they enter no file twice exactly when they meet no file by
two paths. Then there are no more of them than files, every limit above that number gives the same
result or fault, and flattening finishes when the tree has fewer files than imports may nest. Plain
imports meet no file by two paths. -/
theorem nested_imports (get : σ → Tree) (set : Tree → σ → σ) (s : σ) (path text : Text) :
    (∀ limit, inlineImports (.memory get set) s limit [Path.normalize path] path text =
        .error (.limit .nesting) ↔
      ∃ calls, List.IsChain (Enters (.memory get set) s)
        (⟨limit, [Path.normalize path], path, text⟩ :: calls) ∧ calls.length = limit) ∧
    (∀ calls, IsNest (.memory get set) s path text calls →
      ((visits path calls).map (·.2)).Nodup) ∧
    ((∀ calls, IsNest (.memory get set) s path text calls →
      ((visits path calls).map (·.1)).Nodup) ↔ OnePath (.memory get set) s path text) ∧
    (OnePath (.memory get set) s path text →
      (∀ calls, IsNest (.memory get set) s path text calls →
        calls.length ≤ (get s).files.length) ∧
      (∀ limit, (get s).files.length < limit →
        Finishes (inlineImports (.memory get set) s limit [Path.normalize path] path text) ∧
        inlineImports (.memory get set) s limit [Path.normalize path] path text =
          inlineImports (.memory get set) s ((get s).files.length + 1) [Path.normalize path] path
            text) ∧
      ((get s).files.length < Limit.maxNesting →
        Finishes (flattenText (.memory get set) s path text))) ∧
    ((∀ own, readSheet (.memory get set) s path = .ok own →
        OnePath (.memory get set) s path own) →
      (get s).files.length < Limit.maxNesting → Finishes (flatten (.memory get set) s path)) ∧
    (PlainImports (get s) path text → OnePath (.memory get set) s path text) := by
  refine ⟨fun limit => inlineImports_eq_limit unlimited_memory, fun calls h => h.nodup_paths,
    ?_, fun hone => ⟨fun calls h => length_le_of_onePath hone h, ?_, finishes_of_onePath hone⟩, ?_,
    onePath_of_plainImports⟩
  · exact forall₂_congr fun calls h => nodup_keys_iff h.nodup_paths
  · intro limit hlimit
    refine ⟨finishes_inlineImports (not_limit_of_onePath hone hlimit), ?_⟩
    exact inlineImports_mono (by omega) (not_limit_of_onePath hone (Nat.lt_succ_self _))
  · intro hone hlimit
    exact finishes_flatten fun own hown => finishes_of_onePath (hone own hown) hlimit

/-- A stylesheet that imports itself by its name. -/
def selfSheet : Text :=
  "@import \"a.css\";.a \x7b\x7d".toList

def selfTree : Tree :=
  ⟨[("a.css".toList, Utf8.encode selfSheet)]⟩

theorem nested_imports_self :
    OnePath (.memory id fun tree _ => tree) selfTree "a.css".toList selfSheet ∧
    Finishes (flatten (.memory id fun tree _ => tree) selfTree "a.css".toList) ∧
    flatten (.memory id fun tree _ => tree) selfTree "a.css".toList = .ok ".a \x7b\x7d".toList := by
  have hread : readSheet (.memory id fun tree _ => tree) selfTree "a.css".toList =
      .ok selfSheet := by
    decide +kernel
  have hplain : PlainImports selfTree "a.css".toList selfSheet := by
    have hown : ∀ target ∈ localTargets selfSheet, Path.IsPlain target := by decide +kernel
    refine ⟨by decide, hown, ?_⟩
    intro key bytes sheet hget hdecode
    obtain ⟨-, rfl⟩ := Prod.mk.inj (List.mem_singleton.mp (Assoc.mem_of_get? hget))
    obtain rfl : selfSheet = sheet :=
      Except.ok.inj ((Utf8.decode_encode selfSheet).symm.trans hdecode)
    exact hown
  obtain ⟨-, -, -, -, hflatten, hone⟩ := nested_imports id (fun tree _ => tree) selfTree
    "a.css".toList selfSheet
  refine ⟨hone hplain, hflatten ?_ (by decide), by decide +kernel⟩
  intro own hown
  rw [hread] at hown
  cases hown
  exact hone hplain

/-! ## Ever new paths -/

/-- A stylesheet that imports itself from a directory named by a backslash, which a tree takes for
a slash. -/
def loopSheet : Text :=
  "@import \"\\/a.css\";".toList

def loopTree : Tree :=
  ⟨[("a.css".toList, Utf8.encode loopSheet)]⟩

/-- The directories on the way to the stylesheet after so many imports. -/
def loopDirs (n : Nat) : List Text :=
  List.replicate n ['\\']

/-- The path by which the stylesheet is met after so many imports. -/
def loopPath (n : Nat) : Text :=
  join ['/'] (loopDirs n ++ ["a.css".toList])

theorem loopPath_succ (n : Nat) : loopPath (n + 1) = '\\' :: '/' :: loopPath n := by
  rw [loopPath, loopDirs, List.replicate_succ, List.cons_append, join_cons (by simp)]
  rfl

theorem length_loopPath (n : Nat) : (loopPath n).length = 2 * n + 5 := by
  induction n with
  | zero => rfl
  | succ n ih =>
      rw [loopPath_succ, List.length_cons, List.length_cons, ih]
      omega

private theorem foldl_loopDirs (n : Nat) (done : List Text) :
    (loopDirs n).foldl (Path.pushPart false) done = loopDirs n ++ done := by
  induction n generalizing done with
  | zero => rfl
  | succ n ih =>
      have hpush : Path.pushPart false done ['\\'] = ['\\'] :: done := rfl
      have hmove : loopDirs n ++ ['\\'] :: done = loopDirs (n + 1) ++ done := by
        rw [loopDirs, loopDirs, List.replicate_succ', List.append_assoc, List.singleton_append]
      rw [loopDirs, List.replicate_succ, List.foldl_cons, hpush]
      exact (ih _).trans hmove

/-- For the normal form a backslash is the name of a directory. -/
theorem normalize_loopPath (n : Nat) : Path.normalize (loopPath n) = loopPath n := by
  have hzero : Path.leadingSlashes (loopPath n) = 0 := by
    cases n with
    | zero => rfl
    | succ n =>
        rw [loopPath_succ]
        rfl
  have hsplit : split '/' (loopPath n) = loopDirs n ++ ["a.css".toList] := by
    apply split_join (by simp)
    intro part hpart
    rcases List.mem_append.mp hpart with hpart | hpart
    · rw [List.eq_of_mem_replicate hpart]
      decide
    · rw [List.mem_singleton.mp hpart]
      decide
  have hparts : Path.parts (loopPath n) = loopDirs n ++ ["a.css".toList] := by
    rw [Path.parts, hzero, hsplit, List.foldl_append]
    simp only [ne_eq, not_true_eq_false, decide_false, foldl_loopDirs, List.append_nil]
    simp [Path.pushPart, loopDirs]
  have hne : loopPath n ≠ [] := by
    intro hnil
    have hlength := length_loopPath n
    rw [hnil] at hlength
    simp at hlength
  simp only [Path.normalize, hzero, hparts, List.replicate_zero, List.nil_append]
  exact if_neg (by simpa [loopPath] using hne)

/-- For a tree it leads nowhere. -/
theorem key_loopPath (n : Nat) : Path.key (loopPath n) = "a.css".toList := by
  have hfold : ∀ rooted : Bool,
      (split '/' (Path.unifySlashes (loopPath n))).foldl (Path.pushPart rooted) [] =
        ["a.css".toList] := by
    induction n with
    | zero => decide
    | succ n ih =>
        intro rooted
        have hcons : Path.unifySlashes (loopPath (n + 1)) =
            '/' :: '/' :: Path.unifySlashes (loopPath n) := by
          rw [loopPath_succ]
          rfl
        rw [hcons, split, if_pos rfl, split, if_pos rfl]
        exact ih rooted
  rw [Path.key_eq_join, Path.parts, hfold]
  rfl

private theorem getLast?_loopDirs (n : Nat) :
    (join ['/'] (loopDirs (n + 1))).getLast? = some '\\' := by
  induction n with
  | zero => rfl
  | succ n ih =>
      rw [loopDirs] at ih ⊢
      rw [List.replicate_succ, join_cons (by simp), List.getLast?_append, ih]
      rfl

theorem importPath_loopPath (n : Nat) :
    importPath (loopPath n) "\\/a.css".toList = loopPath (n + 1) := by
  have hnext : Path.append (Path.parent (loopPath n)) "\\/a.css".toList = loopPath (n + 1) := by
    cases n with
    | zero => decide
    | succ n =>
        have hdirs : loopDirs (n + 1) ≠ [] := by simp [loopDirs]
        have hpath : loopPath (n + 1) = join ['/'] (loopDirs (n + 1)) ++ '/' :: "a.css".toList := by
          rw [loopPath, join_append hdirs (by simp), join_singleton]
          simp
        have hlast := getLast?_loopDirs n
        have hne : join ['/'] (loopDirs (n + 1)) ≠ [] := by
          intro hnil
          rw [hnil] at hlast
          cases hlast
        have hparent : Path.parent (loopPath (n + 1)) = join ['/'] (loopDirs (n + 1)) := by
          rw [hpath]
          exact Path.parent_append (by decide) (by rw [hlast]; decide) hne
        have hsplit : loopPath (n + 2) =
            join ['/'] (loopDirs (n + 1)) ++ '/' :: "\\/a.css".toList := by
          have hmove : loopDirs (n + 2) ++ ["a.css".toList] =
              loopDirs (n + 1) ++ [['\\'], "a.css".toList] := by
            rw [loopDirs, loopDirs, List.replicate_succ', List.append_assoc, List.singleton_append]
          rw [loopPath, hmove, join_append hdirs (by simp)]
          simp [join_cons_cons]
        rw [hparent, hsplit, Path.append, if_neg (by decide), if_neg]
        simp [hne, hlast]
  rw [importPath, hnext, normalize_loopPath]

theorem inlineImports_loop (limit n : Nat) {seen : List Text}
    (hseen : ∀ path ∈ seen, path.length ≤ (loopPath n).length) :
    inlineImports (.memory id fun tree _ => tree) loopTree limit seen (loopPath n) loopSheet =
      .error (.limit .nesting) := by
  induction limit generalizing n seen with
  | zero => rfl
  | succ limit ih =>
      have hpieces : pieces recogniseImport (dropComments loopSheet) =
          [.item ⟨"\\/a.css".toList, []⟩ loopSheet] := by decide +kernel
      have hlonger : (loopPath n).length < (loopPath (n + 1)).length := by
        rw [length_loopPath, length_loopPath]
        omega
      have hfresh : loopPath (n + 1) ∉ seen := fun hmem => by
        have hle := hseen _ hmem
        omega
      have hfile : (View.memory id fun tree (_ : Tree) => tree).isFile loopTree (loopPath (n + 1)) =
          .ok true := by
        rw [View.isFile_memory, Tree.isFile, Tree.isDir, key_loopPath]
        decide +kernel
      have hread : readSheet (.memory id fun tree _ => tree) loopTree (loopPath (n + 1)) =
          .ok loopSheet := by
        have hget : loopTree.get? "a.css".toList = some (Utf8.encode loopSheet) := by decide +kernel
        unfold readSheet
        rw [View.readText_memory, key_loopPath, id, hget]
        simp only [Utf8.decode_encode]
        rfl
      have hnext : ∀ path ∈ loopPath (n + 1) :: seen, path.length ≤ (loopPath (n + 1)).length := by
        intro path hpath
        rcases List.mem_cons.mp hpath with rfl | hpath
        · exact Nat.le_refl _
        · exact Nat.le_trans (hseen path hpath) (Nat.le_of_lt hlonger)
      rw [inlineImports_succ, hpieces]
      have hload : loadFor (.memory id fun tree _ => tree) loopTree limit (loopPath n) seen
          (loopPath (n + 1)) "\\/a.css".toList = .error (.limit .nesting) :=
        (loadFor_eq_limit unlimited_memory).mpr ⟨hfile, loopSheet, hread, ih (n + 1) hnext⟩
      have htrim : trim "\\/a.css".toList = "\\/a.css".toList := by decide
      have hlocal : ¬ (decide ((0 : Int) ≠ 0) || isRemote "\\/a.css".toList) = true := by decide
      simp only [inlinePieces, htrim, if_neg hlocal, importPath_loopPath]
      rw [if_neg (by simpa using hfresh), hload]

/-- The stylesheet nests too deep for every limit, so flattening it does not finish, and nested
calls enter its file more than once. -/
theorem nested_imports_loop :
    flatten (.memory id fun tree _ => tree) loopTree "a.css".toList = .error (.limit .nesting) ∧
    (¬ ∃ limit, inlineImports (.memory id fun tree _ => tree) loopTree limit
      [Path.normalize "a.css".toList] "a.css".toList loopSheet ≠ .error (.limit .nesting)) ∧
    ¬ ∀ calls, IsNest (.memory id fun tree _ => tree) loopTree "a.css".toList loopSheet calls →
      ((visits "a.css".toList calls).map (·.1)).Nodup := by
  have hloop : ∀ limit, inlineImports (.memory id fun tree _ => tree) loopTree limit
      [Path.normalize "a.css".toList] "a.css".toList loopSheet = .error (.limit .nesting) := by
    intro limit
    apply inlineImports_loop limit 0
    decide
  refine ⟨?_, fun ⟨limit, hlimit⟩ => hlimit (hloop limit), ?_⟩
  · have hfile : (View.memory id fun tree (_ : Tree) => tree).isFile loopTree "a.css".toList =
        .ok true := by
      decide +kernel
    have hread : readSheet (.memory id fun tree _ => tree) loopTree "a.css".toList =
        .ok loopSheet := by
      decide +kernel
    rw [flatten_of_readSheet hfile hread]
    exact flattenText_eq_error (hloop Limit.maxNesting)
  · intro hkeys
    have hone : OnePath (.memory id fun tree _ => tree) loopTree "a.css".toList loopSheet :=
      fun calls h => (nodup_keys_iff h.nodup_paths).mp (hkeys calls h)
    exact not_limit_of_onePath hone (Nat.lt_succ_self _) (hloop _)

end AddonBundle.Stylesheet
