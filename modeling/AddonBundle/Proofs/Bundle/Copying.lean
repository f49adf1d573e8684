import AddonBundle.Proofs.Bundle.Steps
/-!
# Copying each library once

Libraries are copied by calls for one reference or for several, in any order, and a call that fails
may be followed by others. Every call is a row of attempts to copy one library, so what holds of
any history of calls is shown for one attempt and carried along the row.
-/

namespace AddonBundle.Bundle

open Build

/-! ## Histories of calls -/

/-- A call that copies libraries. -/
inductive CopyCall where
  | one (reference : Script.LibraryReference)
  | several (references : List Script.LibraryReference)

/-- The session behind a call, also behind one that fails. -/
def CopyCall.after (s : Session Trees) : CopyCall → Session Trees
  | .one reference => (exec (copyLibrary Places.memory reference) s).2
  | .several references => (exec (copyLibraries Places.memory references) s).2

/-- The session behind a history of calls. -/
def afterCalls (calls : List CopyCall) (s : Session Trees) : Session Trees :=
  calls.foldl CopyCall.after s

/-- An attempt to copy a library: whether it copied, or how it failed. -/
structure Attempt where
  reference : Script.LibraryReference
  outcome : Except Failure Bool

/-- Whether an attempt copied its library. -/
def Attempt.copied (attempt : Attempt) : Bool :=
  match attempt.outcome with
  | .ok copied => copied
  | .error _ => false

/-- The attempts for references in order. The first that fails is the last. -/
def attempts : List Script.LibraryReference → Session Trees → List Attempt
  | [], _ => []
  | reference :: rest, s =>
    match exec (copyLibrary Places.memory reference) s with
    | (.ok copied, s') => ⟨reference, .ok copied⟩ :: attempts rest s'
    | (.error failure, _) => [⟨reference, .error failure⟩]

/-- The attempts of a call. -/
def CopyCall.attempts (s : Session Trees) : CopyCall → List Attempt
  | .one reference => Bundle.attempts [reference] s
  | .several references => Bundle.attempts references s

/-- The attempts of a history of calls. -/
def history : List CopyCall → Session Trees → List Attempt
  | [], _ => []
  | call :: rest, s => call.attempts s ++ history rest (call.after s)

/-! ## What attempts leave -/

/-- The event of a copied library in the innermost open phase of a trace. -/
def copyEntry (trace : Trace) (reference : Script.LibraryReference) : Trace.Entry :=
  ⟨.libraryCopy reference.file reference.kind.name, trace.openPhases.head?⟩

/-- The references whose libraries attempts copied, in order. -/
def copiedReferences (made : List Attempt) : List Script.LibraryReference :=
  (made.filter (·.copied)).map (·.reference)

/-- A session that attempts have led to, from one in which no library had been copied. -/
structure CopiesOnce (start : Session Trees) (made : List Attempt) (s : Session Trees) : Prop where
  source_eq : s.storage.source = start.storage.source
  host_eq : s.storage.host = start.storage.host
  /-- The libraries are those copied, in the order of copying. -/
  libraries_eq : s.libraries = (copiedReferences made).map (·.file)
  nodup : s.libraries.Nodup
  /-- Each library is in the output with the bytes it has in the collection. -/
  held : ∀ file ∈ s.libraries, ∃ bytes,
    start.storage.source.get? (Path.key (libraryPath file)) = some bytes ∧
      s.storage.output.get? (Path.key (libraryPath file)) = some bytes
  /-- Nothing else is written. -/
  others : ∀ key, (∀ file ∈ s.libraries, key ≠ Path.key (libraryPath file)) →
    s.storage.output.get? key = start.storage.output.get? key
  /-- One event for each library, with the kind of the reference that it was copied for. -/
  trace_eq : s.trace = { start.trace with
    entries := start.trace.entries ++ (copiedReferences made).map (copyEntry start.trace) }
  /-- That reference is the first one to the library. -/
  first : ∀ attempt ∈ made, attempt.copied = true →
    made.find? (fun other => other.reference.file = attempt.reference.file) = some attempt
  /-- A library of which a copy was attempted is copied or can never be. -/
  settled : ∀ attempt ∈ made, attempt.reference.file ∈ s.libraries ∨
    libraryBytes? start.storage.source attempt.reference.file = none

namespace CopiesOnce

variable {start s : Session Trees} {made : List Attempt}

theorem refl (h : start.libraries = []) : CopiesOnce start [] start where
  source_eq := rfl
  host_eq := rfl
  libraries_eq := by simp [copiedReferences, h]
  nodup := by simp [h]
  held := by simp [h]
  others := fun _ _ => rfl
  trace_eq := by simp [copiedReferences]
  first := by simp
  settled := by simp

/-- An attempt that copies nothing. -/
theorem idle (h : CopiesOnce start made s) {attempt : Attempt} (hidle : attempt.copied = false)
    (hsettled : attempt.reference.file ∈ s.libraries ∨
      libraryBytes? start.storage.source attempt.reference.file = none) :
    CopiesOnce start (made ++ [attempt]) s where
  source_eq := h.source_eq
  host_eq := h.host_eq
  libraries_eq := by simp [h.libraries_eq, copiedReferences, hidle]
  nodup := h.nodup
  held := h.held
  others := h.others
  trace_eq := by simp [h.trace_eq, copiedReferences, hidle]
  first := by
    intro other hother hcopied
    rcases List.mem_append.mp hother with hother | hother
    · rw [List.find?_append, h.first other hother hcopied, Option.some_or]
    · rw [List.mem_singleton.mp hother, hidle] at hcopied
      cases hcopied
  settled := by
    intro other hother
    rcases List.mem_append.mp hother with hother | hother
    · exact h.settled other hother
    · rwa [List.mem_singleton.mp hother]

/-- An attempt that copies its library. No earlier attempt was for the same library: it would have
copied it then. -/
theorem copy (h : CopiesOnce start made s) {reference : Script.LibraryReference} {bytes : Bytes}
    (hnew : reference.file ∉ s.libraries)
    (hbytes : libraryBytes? start.storage.source reference.file = some bytes) :
    CopiesOnce start (made ++ [⟨reference, .ok true⟩]) (copiedSession reference bytes s) where
  source_eq := h.source_eq
  host_eq := h.host_eq
  libraries_eq := by simp [copiedSession, h.libraries_eq, copiedReferences, Attempt.copied]
  nodup := by
    rw [copiedSession, List.nodup_append]
    refine ⟨h.nodup, by simp, ?_⟩
    rintro file hfile _ hlast rfl
    exact hnew (List.mem_singleton.mp hlast ▸ hfile)
  held := by
    have hget : start.storage.source.get? (Path.key (libraryPath reference.file)) = some bytes := by
      unfold libraryBytes? at hbytes
      split at hbytes
      · cases hbytes
      · exact hbytes
    intro file hfile
    simp only [copiedSession, Tree.get?_writeBytes]
    -- another name of the same file has the same bytes
    by_cases hkey : Path.key (libraryPath file) = Path.key (libraryPath reference.file)
    · exact ⟨bytes, by rw [hkey, hget], if_pos hkey⟩
    · have hold : file ∈ s.libraries := by
        rcases List.mem_append.mp hfile with hfile | hfile
        · exact hfile
        · rw [List.mem_singleton.mp hfile] at hkey
          exact absurd rfl hkey
      rw [if_neg hkey]
      exact h.held file hold
  others := by
    intro key hother
    have hkey := hother reference.file (List.mem_append_right _ (List.mem_singleton_self _))
    simp only [copiedSession, Tree.get?_writeBytes, if_neg hkey]
    exact h.others key fun file hfile => hother file (List.mem_append_left _ hfile)
  trace_eq := by
    simp [copiedSession, Trace.record, h.trace_eq, copiedReferences, Attempt.copied, copyEntry]
  first := by
    intro other hother hcopied
    rcases List.mem_append.mp hother with hother | hother
    · rw [List.find?_append, h.first other hother hcopied, Option.some_or]
    · rw [List.mem_singleton.mp hother]
      have hnone : made.find? (fun earlier => earlier.reference.file = reference.file) = none := by
        rw [List.find?_eq_none]
        intro earlier hearlier hsame
        have hsame : earlier.reference.file = reference.file := by simpa using hsame
        rcases h.settled earlier hearlier with hmem | hmissing
        · exact hnew (hsame ▸ hmem)
        · rw [hsame, hbytes] at hmissing
          cases hmissing
      rw [List.find?_append, hnone]
      simp
  settled := by
    intro other hother
    rcases List.mem_append.mp hother with hother | hother
    · exact (h.settled other hother).imp_left (List.mem_append_left _)
    · rw [List.mem_singleton.mp hother]
      exact .inl (List.mem_append_right _ (List.mem_singleton_self _))

/-- One attempt, whatever its outcome. -/
theorem attempt (h : CopiesOnce start made s) (reference : Script.LibraryReference) :
    CopiesOnce start
      (made ++ [⟨reference, (exec (copyLibrary Places.memory reference) s).1⟩])
      (exec (copyLibrary Places.memory reference) s).2 := by
  rw [exec_copyLibrary, h.source_eq]
  split
  · rename_i hcopied
    exact h.idle rfl (.inl (by simpa using hcopied))
  · rename_i hnew
    cases hbytes : libraryBytes? start.storage.source reference.file with
    | some bytes => exact h.copy (by simpa using hnew) hbytes
    | none => exact h.idle rfl (.inr hbytes)

/-- The attempts for several references. -/
theorem references (h : CopiesOnce start made s) (references : List Script.LibraryReference) :
    CopiesOnce start (made ++ attempts references s)
      (exec (copyLibraries Places.memory references) s).2 := by
  induction references generalizing made s with
  | nil => simpa [attempts, copyLibraries] using h
  | cons reference rest ih =>
      have hone := h.attempt reference
      rw [attempts, copyLibraries, exec_bind]
      cases hexec : exec (copyLibrary Places.memory reference) s with
      | mk outcome s' =>
          rw [hexec] at hone
          cases outcome with
          | error failure => exact hone
          | ok copied =>
              have hrest := ih hone
              rw [List.append_assoc, List.singleton_append] at hrest
              dsimp only
              rw [exec_bind]
              cases hexec' : exec (copyLibraries Places.memory rest) s' with
              | mk outcome' s'' =>
                  rw [hexec'] at hrest
                  cases outcome' <;> exact hrest

theorem call (h : CopiesOnce start made s) (call : CopyCall) :
    CopiesOnce start (made ++ call.attempts s) (call.after s) := by
  cases call with
  | several references => exact h.references references
  | one reference =>
      have hone := h.attempt reference
      rw [CopyCall.attempts, CopyCall.after, attempts]
      cases hexec : exec (copyLibrary Places.memory reference) s with
      | mk outcome s' =>
          rw [hexec] at hone
          cases outcome <;> exact hone

theorem calls (h : CopiesOnce start made s) (calls : List CopyCall) :
    CopiesOnce start (made ++ history calls s) (afterCalls calls s) := by
  induction calls generalizing made s with
  | nil => simpa [history, afterCalls] using h
  | cons call rest ih =>
      have hrest := ih (h.call call)
      rwa [List.append_assoc] at hrest

/-- As many attempts copied as there are libraries. -/
theorem countP_copied (h : CopiesOnce start made s) :
    made.countP (·.copied) = s.libraries.length := by
  simp [h.libraries_eq, copiedReferences, List.countP_eq_length_filter]

/-- As many events of copying were recorded as there are libraries. -/
theorem length_ofKind (h : CopiesOnce start made s) :
    (s.trace.ofKind .libraryCopy).length =
      (start.trace.ofKind .libraryCopy).length + s.libraries.length := by
  have hall : ((copiedReferences made).map (copyEntry start.trace)).filter
      (fun e => e.event.kind = .libraryCopy) =
        (copiedReferences made).map (copyEntry start.trace) := by
    simp [List.filter_eq_self, copyEntry, Event.kind]
  simp only [Trace.ofKind, h.trace_eq, h.libraries_eq, List.filter_append, List.length_append, hall,
    List.length_map]

end CopiesOnce

/-! ## Outcomes -/

/-- A call for several references gives how many of its attempts copied, or the failure of the
last. -/
theorem exec_copyLibraries_outcome (references : List Script.LibraryReference) (s : Session Trees) :
    match (exec (copyLibraries Places.memory references) s).1 with
    | .ok count => (attempts references s).map (·.reference) = references ∧
        (attempts references s).countP (·.copied) = count
    | .error failure => ∃ earlier reference,
        attempts references s = earlier ++ [⟨reference, .error failure⟩] := by
  induction references generalizing s with
  | nil => simp [copyLibraries, attempts]
  | cons reference rest ih =>
      rw [attempts, copyLibraries, exec_bind]
      cases hexec : exec (copyLibrary Places.memory reference) s with
      | mk outcome s' =>
          cases outcome with
          | error failure => exact ⟨[], reference, rfl⟩
          | ok copied =>
              have hrest := ih s'
              dsimp only
              rw [exec_bind]
              cases hexec' : exec (copyLibraries Places.memory rest) s' with
              | mk outcome' s'' =>
                  rw [hexec'] at hrest
                  cases outcome' with
                  | error failure =>
                      obtain ⟨earlier, last, hlast⟩ := hrest
                      exact ⟨⟨reference, .ok copied⟩ :: earlier, last, by simp [hlast]⟩
                  | ok count =>
                      obtain ⟨hmap, hcount⟩ := hrest
                      refine ⟨by simp [hmap], ?_⟩
                      rw [List.countP_cons, hcount]
                      cases copied <;> rfl

/-- A library is skipped exactly when it has been copied. -/
theorem exec_copyLibrary_eq_false_iff (reference : Script.LibraryReference) (s : Session Trees) :
    (exec (copyLibrary Places.memory reference) s).1 = .ok false ↔
      reference.file ∈ s.libraries := by
  rw [exec_copyLibrary]
  split
  · rename_i hcopied
    simpa using hcopied
  · rename_i hnew
    have hnew : reference.file ∉ s.libraries := by simpa using hnew
    cases libraryBytes? s.storage.source reference.file <;> simp [hnew]

/-- An attempt that fails misses its library and changes nothing. -/
theorem exec_copyLibrary_error {reference : Script.LibraryReference} {s s' : Session Trees}
    {failure : Failure}
    (h : exec (copyLibrary Places.memory reference) s = (.error failure, s')) :
    failure = .fault (.libraryMissing reference.file (libraryPath reference.file)) ∧ s' = s := by
  rw [exec_copyLibrary] at h
  split at h
  · cases h
  · cases hbytes : libraryBytes? s.storage.source reference.file with
    | some bytes =>
        rw [hbytes] at h
        cases h
    | none =>
        rw [hbytes] at h
        cases h
        exact ⟨rfl, rfl⟩

/-- Over any history of calls, failing ones included, each library is copied once: when it is first
found, for the first reference to it. The libraries copied, the attempts that copied and the events
of copying are equally many, a library is skipped from its copy on, and a failure changes
nothing. -/
theorem copies_once (calls : List CopyCall) (s : Session Trees) :
    let start : Session Trees := { s with libraries := [] }
    let after := afterCalls calls start
    CopiesOnce start (history calls start) after ∧
      (history calls start).countP (·.copied) = after.libraries.length ∧
      (after.trace.ofKind .libraryCopy).length =
        (start.trace.ofKind .libraryCopy).length + after.libraries.length ∧
      (∀ reference, (exec (copyLibrary Places.memory reference) after).1 = .ok false ↔
        reference.file ∈ after.libraries) ∧
      (∀ reference failure t t',
        exec (copyLibrary Places.memory reference) t = (.error failure, t') →
          failure = .fault (.libraryMissing reference.file (libraryPath reference.file)) ∧
            t' = t) ∧
      ∀ references t, match (exec (copyLibraries Places.memory references) t).1 with
        | .ok count => (attempts references t).map (·.reference) = references ∧
            (attempts references t).countP (·.copied) = count
        | .error failure => ∃ earlier reference,
            attempts references t = earlier ++ [⟨reference, .error failure⟩] := by
  intro start after
  have hstart : CopiesOnce start [] start := .refl rfl
  have hafter : CopiesOnce start (history calls start) after := hstart.calls calls
  exact ⟨hafter, hafter.countP_copied, hafter.length_ofKind,
    fun reference => exec_copyLibrary_eq_false_iff reference after,
    fun _ _ _ _ h => exec_copyLibrary_error h, exec_copyLibraries_outcome⟩

/-- A load at run time comes before an import of the same library; a missing library ends the batch
that it stands in, and no more. -/
example :
    let calls : List CopyCall :=
      [.one ⟨"a.js".toList, .dynamicLoad⟩,
        .several [⟨"a.js".toList, .staticImport⟩, ⟨"b.js".toList, .staticImport⟩,
          ⟨"c.js".toList, .staticImport⟩],
        .one ⟨"c.js".toList, .staticImport⟩]
    let source := Tree.ofFiles
      [("libraries/a.js".toList, [1]), ("libraries/c.js".toList, [2])]
    let after := afterCalls calls { storage := { source } }
    after.libraries = ["a.js".toList, "c.js".toList] ∧
      after.trace.entries.map (·.event) =
        [.libraryCopy "a.js".toList "dynamic_load".toList,
          .libraryCopy "c.js".toList "static_import".toList] := by
  decide +kernel

end AddonBundle.Bundle
