import AddonBundle.Proofs.Piece
import AddonBundle.Proofs.Tree
import AddonBundle.Stylesheet.Flatten
import Mathlib.Data.List.Chain
/-!
# Nested imports

Putting imports in place calls itself for every stylesheet that it meets. The calls are described
apart from the texts that they give: which loads a stylesheet asks for, and which call is entered
from which. Imports nest too deep exactly when there is a chain of calls as long as they may nest,
so a bound on the chains is a bound on the depth, and what is found within it does not depend on
the limit. A chain never enters the same path twice.
-/

namespace AddonBundle.Stylesheet

open Text

variable {σ : Type}

/-! ## What a stylesheet asks for -/

/-- The loads that the pieces of a stylesheet ask for, in order: the files met by then, and the
target. -/
def asked (load : List Text → Text → Text → Except Failure (Text × List Text)) (importer : Text) :
    Int → List Text → List (Piece Import) → List (List Text × Text)
  | _, _, [] => []
  | depth, seen, .plain c :: rest => asked load importer (depthAfter depth c) seen rest
  | depth, seen, .item statement _ :: rest =>
    let target := trim statement.target
    if depth ≠ 0 || isRemote target then asked load importer depth seen rest
    else
      let path := importPath importer target
      if seen.contains path then asked load importer depth seen rest
      else
        (seen, target) ::
          match load seen path target with
          | .error _ => []
          | .ok (_, seen) => asked load importer depth seen rest

variable {load load' : List Text → Text → Text → Except Failure (Text × List Text)}
  {importer : Text}

private theorem error_of_map {α β : Type} {f : α → β} {outcome : Except Failure α}
    {failure : Failure} (h : f <$> outcome = .error failure) : outcome = .error failure := by
  cases outcome with
  | ok a => cases h
  | error e => cases h; rfl

theorem ok_of_map {α β : Type} {f : α → β} {outcome : Except Failure α} {b : β}
    (h : f <$> outcome = .ok b) : ∃ a, outcome = .ok a ∧ f a = b := by
  cases outcome with
  | ok a => cases h; exact ⟨a, rfl, rfl⟩
  | error e => cases h

/-- Only a load that is asked for can fail. -/
theorem exists_asked_of_error {depth : Int} {seen : List Text} {pieces : List (Piece Import)}
    {failure : Failure} (h : inlinePieces load importer depth seen pieces = .error failure) :
    ∃ request ∈ asked load importer depth seen pieces,
      load request.1 (importPath importer request.2) request.2 = .error failure := by
  fun_induction inlinePieces load importer depth seen pieces with
  | case1 => cases h
  | case2 depth seen c rest ih =>
      rw [asked]
      exact ih (error_of_map h)
  | case3 depth seen statement text rest target hkept ih =>
      simp only [asked, target, if_pos hkept] at *
      exact ih (error_of_map h)
  | case4 depth seen statement text rest target hkept path hseen ih =>
      simp only [asked, target, path, if_neg hkept, if_pos hseen] at *
      exact ih h
  | case5 depth seen statement text rest target hkept path hseen e hload =>
      cases h
      simp only [asked, target, path, if_neg hkept, if_neg hseen] at *
      exact ⟨_, List.mem_cons_self, hload⟩
  | case6 depth seen statement text rest target hkept path hseen imported seen' hload ih =>
      simp only [asked, target, path, if_neg hkept, if_neg hseen] at *
      rw [hload]
      obtain ⟨request, hrequest, hfail⟩ := ih (error_of_map h)
      exact ⟨request, List.mem_cons_of_mem _ hrequest, hfail⟩

/-- The first load that fails is the last one that is asked for. -/
theorem inlinePieces_eq_error {depth : Int} {seen : List Text} {pieces : List (Piece Import)}
    {failure : Failure} {request : List Text × Text}
    (hmem : request ∈ asked load importer depth seen pieces)
    (h : load request.1 (importPath importer request.2) request.2 = .error failure) :
    inlinePieces load importer depth seen pieces = .error failure := by
  fun_induction inlinePieces load importer depth seen pieces with
  | case1 => cases hmem
  | case2 depth seen c rest ih =>
      rw [asked] at hmem
      rw [ih hmem]
      rfl
  | case3 depth seen statement text rest target hkept ih =>
      simp only [asked, target, if_pos hkept] at *
      rw [ih hmem]
      rfl
  | case4 depth seen statement text rest target hkept path hseen ih =>
      simp only [asked, target, path, if_neg hkept, if_pos hseen] at *
      exact ih hmem
  | case5 depth seen statement text rest target hkept path hseen e hload =>
      simp only [asked, target, path, if_neg hkept, if_neg hseen] at *
      rw [hload, List.mem_singleton] at hmem
      subst hmem
      rw [hload] at h
      exact h
  | case6 depth seen statement text rest target hkept path hseen imported seen' hload ih =>
      simp only [asked, target, path, if_neg hkept, if_neg hseen] at *
      rw [hload] at hmem
      rcases List.mem_cons.mp hmem with rfl | hmem
      · rw [hload] at h
        cases h
      · rw [ih hmem]
        rfl

/-- The loads that are asked for are all that matters. -/
theorem inlinePieces_congr {depth : Int} {seen : List Text} {pieces : List (Piece Import)}
    (h : ∀ request ∈ asked load importer depth seen pieces,
      load' request.1 (importPath importer request.2) request.2 =
        load request.1 (importPath importer request.2) request.2) :
    inlinePieces load' importer depth seen pieces =
      inlinePieces load importer depth seen pieces := by
  fun_induction inlinePieces load importer depth seen pieces with
  | case1 => rfl
  | case2 depth seen c rest ih =>
      rw [asked] at h
      rw [inlinePieces, ih h]
  | case3 depth seen statement text rest target hkept ih =>
      simp only [asked, target, if_pos hkept] at *
      simp only [inlinePieces, if_pos hkept, ih h]
  | case4 depth seen statement text rest target hkept path hseen ih =>
      simp only [asked, target, path, if_neg hkept, if_pos hseen] at *
      simp only [inlinePieces, if_neg hkept, if_pos hseen, ih h]
  | case5 depth seen statement text rest target hkept path hseen e hload =>
      simp only [asked, target, path, if_neg hkept, if_neg hseen] at *
      have hfirst := h _ List.mem_cons_self
      simp only [inlinePieces, if_neg hkept, if_neg hseen]
      rw [hfirst, hload]
  | case6 depth seen statement text rest target hkept path hseen imported seen' hload ih =>
      simp only [asked, target, path, if_neg hkept, if_neg hseen] at *
      rw [hload] at h
      have hfirst := h _ List.mem_cons_self
      simp only [inlinePieces, if_neg hkept, if_neg hseen]
      rw [hfirst, hload]
      simp only [ih fun request hrequest => h request (List.mem_cons_of_mem _ hrequest)]

/-- Loading forgets no file that has been met. -/
def Remembers (load : List Text → Text → Text → Except Failure (Text × List Text)) : Prop :=
  ∀ seen path target imported seen', load seen path target = .ok (imported, seen') → seen ⊆ seen'

theorem subset_of_inlinePieces (hload : Remembers load) {depth : Int} {seen seen' : List Text}
    {pieces : List (Piece Import)} :
    ∀ result : Text, inlinePieces load importer depth seen pieces = .ok (result, seen') →
      seen ⊆ seen' := by
  fun_induction inlinePieces load importer depth seen pieces with
  | case1 =>
      intro result h
      cases h
      exact List.Subset.refl _
  | case2 depth seen c rest ih =>
      intro result h
      obtain ⟨⟨front, met⟩, hrest, heq⟩ := ok_of_map h
      cases heq
      exact ih _ hrest
  | case3 depth seen statement text rest target hkept ih =>
      intro result h
      obtain ⟨⟨front, met⟩, hrest, heq⟩ := ok_of_map h
      cases heq
      exact ih _ hrest
  | case4 depth seen statement text rest target hkept path hseen ih => exact ih
  | case5 =>
      intro result h
      cases h
  | case6 depth seen statement text rest target hkept path hseen imported met hmet ih =>
      intro result h
      obtain ⟨⟨front, met'⟩, hrest, heq⟩ := ok_of_map h
      cases heq
      exact List.Subset.trans (hload _ _ _ _ _ hmet) (ih _ hrest)

/-- A load is asked for with all files met before, and for a path that is none of them. -/
theorem fresh_of_asked (hload : Remembers load) {depth : Int} {seen : List Text}
    {pieces : List (Piece Import)} {request : List Text × Text}
    (h : request ∈ asked load importer depth seen pieces) :
    seen ⊆ request.1 ∧ importPath importer request.2 ∉ request.1 := by
  fun_induction asked load importer depth seen pieces with
  | case1 => cases h
  | case2 depth seen c rest ih => exact ih h
  | case3 depth seen statement text rest target hkept ih => exact ih h
  | case4 depth seen statement text rest target hkept path hseen ih => exact ih h
  | case5 depth seen statement text rest target hkept path hseen ih =>
      rcases List.mem_cons.mp h with rfl | h
      · exact ⟨List.Subset.refl _, by simpa using hseen⟩
      · split at h
        · cases h
        · rename_i imported met hmet
          obtain ⟨hsubset, hfresh⟩ := ih met h
          exact ⟨List.Subset.trans (hload _ _ _ _ _ hmet) hsubset, hfresh⟩

/-- What is asked for is the target of an import that is no remote one. -/
theorem local_of_asked {depth : Int} {seen : List Text} {pieces : List (Piece Import)}
    {request : List Text × Text} (h : request ∈ asked load importer depth seen pieces) :
    ∃ statement text, Piece.item statement text ∈ pieces ∧ request.2 = trim statement.target ∧
      isRemote request.2 = false := by
  have hlater : ∀ (piece : Piece Import) (rest : List (Piece Import)),
      (∃ statement text, Piece.item statement text ∈ rest ∧ request.2 = trim statement.target ∧
        isRemote request.2 = false) →
      ∃ statement text, Piece.item statement text ∈ piece :: rest ∧
        request.2 = trim statement.target ∧ isRemote request.2 = false := by
    rintro piece rest ⟨statement, text, hmem, htarget⟩
    exact ⟨statement, text, List.mem_cons_of_mem _ hmem, htarget⟩
  fun_induction asked load importer depth seen pieces with
  | case1 => cases h
  | case2 depth seen c rest ih => exact hlater _ _ (ih h)
  | case3 depth seen statement text rest target hkept ih => exact hlater _ _ (ih h)
  | case4 depth seen statement text rest target hkept path hseen ih => exact hlater _ _ (ih h)
  | case5 depth seen statement text rest target hkept path hseen ih =>
      rcases List.mem_cons.mp h with rfl | h
      · have hremote : isRemote target = false := by
          rw [Bool.or_eq_true, not_or] at hkept
          exact Bool.not_eq_true _ ▸ hkept.2
        exact ⟨statement, text, List.mem_cons_self, rfl, hremote⟩
      · split at h
        · cases h
        · exact hlater _ _ (ih _ h)

/-! ## Calls -/

/-- A call: how deep imports may still nest, the files met, the stylesheet and its text. -/
structure Call where
  deeper : Nat
  seen : List Text
  path : Text
  text : Text

/-- What a call loads for its imports. -/
def loadFor (view : View σ) (s : σ) (deeper : Nat) (importer : Text) (seen : List Text)
    (path target : Text) : Except Failure (Text × List Text) :=
  match view.isFile s path with
  | .error failure => .error failure
  | .ok false => .error (.fault (.importMissing target importer))
  | .ok true =>
    match readSheet view s path with
    | .error failure => .error failure
    | .ok text => inlineImports view s deeper (path :: seen) path text

theorem inlineImports_succ (view : View σ) (s : σ) (deeper : Nat) (seen : List Text)
    (importer text : Text) :
    inlineImports view s (deeper + 1) seen importer text =
      inlinePieces (loadFor view s deeper importer) importer 0 seen
        (pieces recogniseImport (dropComments text)) := rfl

/-- Only whether paths are files, and the texts of files, matter. -/
theorem inlineImports_congr {τ : Type} {view : View σ} {view' : View τ} {s : σ} {s' : τ}
    (hfile : ∀ path, view.isFile s path = view'.isFile s' path)
    (hread : ∀ path, readSheet view s path = readSheet view' s' path) (deeper : Nat)
    (seen : List Text) (importer text : Text) :
    inlineImports view s deeper seen importer text =
      inlineImports view' s' deeper seen importer text := by
  induction deeper generalizing seen importer text with
  | zero => rfl
  | succ deeper ih =>
      have hload : loadFor view s deeper importer = loadFor view' s' deeper importer := by
        funext seen path target
        simp only [loadFor, hfile, hread, ih]
      rw [inlineImports_succ, inlineImports_succ, hload]

theorem flatten_congr {τ : Type} {view : View σ} {view' : View τ} {s : σ} {s' : τ}
    (hfile : ∀ path, view.isFile s path = view'.isFile s' path)
    (hread : ∀ path, readSheet view s path = readSheet view' s' path) (path : Text) :
    flatten view s path = flatten view' s' path := by
  simp only [flatten, flattenText, hfile, hread, inlineImports_congr hfile hread]

/-- The loads that a call asks for. -/
def Call.asked (view : View σ) (s : σ) (call : Call) : List (List Text × Text) :=
  match call.deeper with
  | 0 => []
  | deeper + 1 =>
    Stylesheet.asked (loadFor view s deeper call.path) call.path 0 call.seen
      (pieces recogniseImport (dropComments call.text))

/-- One call enters another: it asks for its stylesheet, which is a file that can be read. -/
structure Enters (view : View σ) (s : σ) (outer inner : Call) : Prop where
  deeper_eq : outer.deeper = inner.deeper + 1
  asked : ∃ request ∈ outer.asked view s, inner.path = importPath outer.path request.2 ∧
    inner.seen = inner.path :: request.1
  isFile : view.isFile s inner.path = .ok true
  text_eq : readSheet view s inner.path = .ok inner.text

variable {view : View σ} {s : σ}

theorem subset_of_inlineImports {deeper : Nat} {seen seen' : List Text}
    {importer text result : Text}
    (h : inlineImports view s deeper seen importer text = .ok (result, seen')) : seen ⊆ seen' := by
  induction deeper generalizing seen seen' importer text result with
  | zero => cases h
  | succ deeper ih =>
      rw [inlineImports_succ] at h
      refine subset_of_inlinePieces ?_ _ h
      intro seen path target imported met hmet
      unfold loadFor at hmet
      split at hmet
      · cases hmet
      · cases hmet
      · split at hmet
        · cases hmet
        · exact List.Subset.trans (List.subset_cons_self _ _) (ih hmet)

theorem remembers_loadFor (deeper : Nat) (importer : Text) :
    Remembers (loadFor view s deeper importer) := by
  intro seen path target imported met hmet
  unfold loadFor at hmet
  split at hmet
  · cases hmet
  · cases hmet
  · split at hmet
    · cases hmet
    · exact List.Subset.trans (List.subset_cons_self _ _) (subset_of_inlineImports hmet)

theorem Call.asked_succ (call : Call) {deeper : Nat} (h : call.deeper = deeper + 1) :
    call.asked view s = Stylesheet.asked (loadFor view s deeper call.path) call.path 0 call.seen
      (pieces recogniseImport (dropComments call.text)) := by
  unfold Call.asked
  rw [h]

/-- The call that is entered is for a path that has not been met, and remembers all that have. -/
theorem Enters.fresh {outer inner : Call} (h : Enters view s outer inner) :
    inner.path ∉ outer.seen ∧ outer.seen ⊆ inner.seen ∧ inner.path ∈ inner.seen := by
  obtain ⟨request, hrequest, hpath, hseen⟩ := h.asked
  rw [outer.asked_succ h.deeper_eq] at hrequest
  obtain ⟨hsubset, hfresh⟩ := fresh_of_asked (remembers_loadFor _ _) hrequest
  rw [← hpath] at hfresh
  rw [hseen]
  exact ⟨fun hmem => hfresh (hsubset hmem), List.Subset.trans hsubset (List.subset_cons_self _ _),
    List.mem_cons_self⟩

/-- A chain of calls never enters the same path twice. -/
theorem nodup_paths {start : Call} {calls : List Call}
    (h : List.IsChain (Enters view s) (start :: calls)) :
    (calls.map (·.path)).Nodup ∧ ∀ call ∈ calls, call.path ∉ start.seen := by
  induction calls generalizing start with
  | nil => exact ⟨List.nodup_nil, by simp⟩
  | cons next rest ih =>
      obtain ⟨henters, hrest⟩ := List.isChain_cons_cons.mp h
      obtain ⟨hnew, hsubset, hown⟩ := henters.fresh
      obtain ⟨hnodup, hfresh⟩ := ih hrest
      refine ⟨?_, ?_⟩
      · rw [List.map_cons, List.nodup_cons, List.mem_map]
        refine ⟨?_, hnodup⟩
        rintro ⟨call, hcall, heq⟩
        exact hfresh call hcall (heq ▸ hown)
      · intro call hcall
        rcases List.mem_cons.mp hcall with rfl | hcall
        · exact hnew
        · exact fun hmem => hfresh call hcall (hsubset hmem)

/-! ## The limit -/

/-- Reading from the tree never passes a limit. -/
def Unlimited (view : View σ) (s : σ) : Prop :=
  ∀ path passed, view.isFile s path ≠ .error (.limit passed) ∧
    readSheet view s path ≠ .error (.limit passed)

theorem loadFor_eq_limit (hview : Unlimited view s) {deeper : Nat} {importer path target : Text}
    {seen : List Text} :
    loadFor view s deeper importer seen path target = .error (.limit .nesting) ↔
      view.isFile s path = .ok true ∧ ∃ text, readSheet view s path = .ok text ∧
        inlineImports view s deeper (path :: seen) path text = .error (.limit .nesting) := by
  unfold loadFor
  constructor
  · intro h
    split at h
    · rename_i failure hfile
      rw [Except.error.injEq] at h
      rw [h] at hfile
      exact absurd hfile (hview path _).1
    · cases h
    · rename_i hfile
      split at h
      · rename_i failure hread
        rw [Except.error.injEq] at h
        rw [h] at hread
        exact absurd hread (hview path _).2
      · rename_i text hread
        exact ⟨hfile, text, hread, h⟩
  · rintro ⟨hfile, text, hread, h⟩
    rw [hfile, hread]
    exact h

/-- Imports nest too deep exactly when there is a chain of as many nested calls as they may
nest. -/
theorem inlineImports_eq_limit (hview : Unlimited view s) {deeper : Nat} {seen : List Text}
    {importer text : Text} :
    inlineImports view s deeper seen importer text = .error (.limit .nesting) ↔
      ∃ calls, List.IsChain (Enters view s) (⟨deeper, seen, importer, text⟩ :: calls) ∧
        calls.length = deeper := by
  induction deeper generalizing seen importer text with
  | zero => exact ⟨fun _ => ⟨[], List.isChain_singleton _, rfl⟩, fun _ => rfl⟩
  | succ deeper ih =>
      rw [inlineImports_succ]
      constructor
      · intro h
        obtain ⟨⟨met, target⟩, hrequest, hfail⟩ := exists_asked_of_error h
        obtain ⟨hfile, text', hread, hlimit⟩ := (loadFor_eq_limit hview).mp hfail
        obtain ⟨calls, hchain, hlength⟩ := ih.mp hlimit
        refine ⟨_ :: calls, List.isChain_cons_cons.mpr ⟨?_, hchain⟩, by simp [hlength]⟩
        exact ⟨rfl, ⟨_, hrequest, rfl, rfl⟩, hfile, hread⟩
      · rintro ⟨calls, hchain, hlength⟩
        cases calls with
        | nil => cases hlength
        | cons next rest =>
            obtain ⟨henters, hrest⟩ := List.isChain_cons_cons.mp hchain
            obtain ⟨deeper', met, path, text'⟩ := next
            obtain ⟨hdeeper, ⟨request, hrequest, hpath, hseen⟩, hfile, hread⟩ := henters
            obtain rfl : deeper = deeper' := Nat.succ.inj hdeeper
            dsimp only at hpath hseen hfile hread
            subst hpath hseen
            refine inlinePieces_eq_error hrequest ((loadFor_eq_limit hview).mpr ?_)
            exact ⟨hfile, text', hread, ih.mpr ⟨rest, hrest, Nat.succ.inj hlength⟩⟩

/-- What is found within a limit is found within every greater one. -/
theorem inlineImports_mono {deeper deeper' : Nat} {seen : List Text}
    {importer text : Text} (hle : deeper ≤ deeper')
    (h : inlineImports view s deeper seen importer text ≠ .error (.limit .nesting)) :
    inlineImports view s deeper' seen importer text =
      inlineImports view s deeper seen importer text := by
  induction deeper generalizing deeper' seen importer text with
  | zero => exact absurd rfl h
  | succ deeper ih =>
      obtain ⟨deeper', rfl⟩ : ∃ n, deeper' = n + 1 := ⟨deeper' - 1, by omega⟩
      rw [inlineImports_succ] at h ⊢
      rw [inlineImports_succ]
      apply inlinePieces_congr
      intro request hrequest
      have hload : loadFor view s deeper importer request.1 (importPath importer request.2)
          request.2 ≠ .error (.limit .nesting) :=
        fun hlimit => h (inlinePieces_eq_error hrequest hlimit)
      unfold loadFor at hload ⊢
      split
      · rfl
      · rfl
      · split
        · rfl
        · rename_i hfile _ text' hread
          apply ih (by omega)
          intro hlimit
          rw [hfile, hread] at hload
          exact hload hlimit

end AddonBundle.Stylesheet
