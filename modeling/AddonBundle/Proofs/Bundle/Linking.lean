import AddonBundle.Bundle.Addon
import AddonBundle.Proofs.Markup
import AddonBundle.Proofs.Script.AssetTable
import AddonBundle.Proofs.Script.Load
import AddonBundle.Proofs.Script.Media
import AddonBundle.Proofs.Session
/-!
# Linking a script

Linking over a tree in memory always succeeds: it has an exact effect on the session, which is
none when the script mentions no root. The main statement says which paths the table of a linked
script answers and which paths are warned about, and that a plain load of a library never is.
-/

namespace AddonBundle

open Text

namespace Bundle

variable {σ : Type}

/-- The session behind warnings about paths that lead nowhere: one message and one event for each,
in order. -/
def warned (script : Text) (paths : List Text) (s : Session σ) : Session σ :=
  { s with
    log := s.log ++ paths.map fun path =>
      ⟨.warning, escapeMarkup (Script.missingWarning script path)⟩
    trace := (paths.map fun path => Event.warning (Script.missingWarning script path)).foldl
      Trace.record s.trace }

theorem exec_warnMissing (script : Text) (paths : List Text) (s : Session σ) :
    Build.exec (warnMissing script paths) s = (.ok (), warned script paths s) := by
  induction paths generalizing s with
  | nil => simp [warnMissing, warned]
  | cons path paths ih =>
      simp only [warnMissing, Build.exec_bind, Build.exec_log, Log.fault?_escapeMarkup,
        Build.exec_record, ih]
      simp [warned]

/-- The session behind the linking of a script with the media files beside it. -/
def linkedSession (media : List Text) (path text : Text) (s : Session σ) : Session σ :=
  let linked := Script.link media path text
  let warnedSession := warned path linked.missing s
  { warnedSession with
    trace := warnedSession.trace.record
      (.linking path linked.table.assets linked.table.libraries linked.sites) }

/-- The effect of linking over a tree in memory. -/
theorem exec_linkScript (get : σ → Tree) (set : Tree → σ → σ) (extensions : List Text)
    (path text : Text) (s : Session σ) :
    Build.exec (linkScript (.memory get set) extensions path text) s =
      if Script.mentionsRoot text then
        let media := Script.treeMedia (get s.storage) extensions (Path.parent path)
        (.ok ((Script.link media path text).text, some (Script.link media path text).table),
          linkedSession media path text s)
      else (.ok (text, none), s) := by
  unfold linkScript
  split
  · simp only [Build.exec_bind, Build.exec_storage, Build.exec_ofExcept,
      Script.mediaFiles_memory, exec_warnMissing, Build.exec_record, Build.exec_pure]
    rfl
  · rfl

theorem mentionsRoot_eq_false {text : Text} :
    Script.mentionsRoot text = false ↔
      ¬ "addon.self.dir".toList <:+: text ∧ ¬ "addon.self.lib".toList <:+: text := by
  rw [← Bool.not_eq_true, Script.mentionsRoot, Bool.or_eq_true, occursIn_iff, occursIn_iff, not_or]
  rfl

/-! ## What the table answers, and what is warned about -/

/-- The path of a computed path that is written out as a single string and that a table does not
answer. -/
def unanswered (table : Script.AssetTable) (site : Script.PathExpression) : Option Text :=
  (Script.literalPath site.operand).filter fun path => path ∉ table.entries.map (·.1)

/-- A linked script with its table, and the session behind it. -/
structure IsLinked (tree : Tree) (extensions : List Text) (path text : Text) (s : Session σ)
    (newText : Text) (table : Script.AssetTable) (s' : Session σ) : Prop where
  text_eq : newText =
    table.header (Script.librariesPath (Path.parent path)) ++ Script.linkSites text
  pairwise_assets : table.assets.Pairwise (· < ·)
  /-- The assets are the files beside the script with an extension that are no directories. -/
  mem_assets : ∀ name, name ∈ table.assets ↔
    '/' ∉ name ∧ Tree.keyStart (Path.parent path) ++ name ∈ tree.keys ∧
      tree.isDir (Path.child (Path.parent path) name) = false ∧
      ∃ extension ∈ extensions, lower extension <:+ lower name
  libraries_eq : table.libraries = distinct ((Script.libraryLoads text).map (·.value))
  keys_eq : table.entries.map (·.1) =
    distinct ((table.assets ++ table.libraries).map fun name => '/' :: name)
  /-- One warning for each computed path that is not answered, in order, and nothing else. -/
  session_eq :
    let missing := (Script.pathSites text).filterMap fun site => unanswered table site.value
    let messages := missing.map (Script.missingWarning path)
    s' = { s with
      log := s.log ++ messages.map fun message => ⟨.warning, escapeMarkup message⟩
      trace := (messages.map Event.warning ++ [Event.linking path table.assets table.libraries
        (Script.pathSites text).length]).foldl Trace.record s.trace }
  /-- A plain load of a library is never warned about. -/
  load_answered : ∀ site ∈ Script.pathSites text, ∀ quote name, site.value.root = .lib →
    Script.isQuote quote = true → name ≠ [] → (∀ c ∈ name, isName c = true) →
    site.value.operand = quote :: '/' :: (name ++ ".js".toList ++ [quote]) →
    unanswered table site.value = none

theorem unanswered_eq (table : Script.AssetTable) (site : Script.PathExpression) :
    unanswered table site =
      (Script.literalPath site.operand).filter fun path => (table.get? path).isNone := by
  unfold unanswered
  congr 1
  funext path
  rw [← Option.not_isSome, Bool.eq_iff_iff]
  simp only [decide_eq_true_eq, Bool.not_eq_true', ← Script.AssetTable.isSome_get?,
    Bool.not_eq_true]

private theorem isQuote_js {quote : Char} (h : Script.isQuote quote = true) (name : Text)
    (hname : ∀ c ∈ name, isName c = true) :
    Script.literalPath (quote :: '/' :: (name ++ ".js".toList ++ [quote])) =
      some ('/' :: (name ++ ".js".toList)) := by
  have hplain : ∀ c ∈ name, Script.isQuote c = false ∧ c ≠ '\\' := by
    intro c hc
    have hc' := hname c hc
    constructor
    · rw [← Bool.not_eq_true, Script.isQuote, Bool.or_eq_true, decide_eq_true_eq,
        decide_eq_true_eq]
      rintro (rfl | rfl) <;> exact absurd hc' (by decide)
    · rintro rfl
      exact absurd hc' (by decide)
  have hdrop : ('/' :: (name ++ ".js".toList ++ [quote])).dropLast =
      '/' :: (name ++ ".js".toList) := by
    rw [← List.cons_append, List.dropLast_concat]
  have hlast : ('/' :: (name ++ ".js".toList ++ [quote])).getLast? = some quote := by
    rw [← List.cons_append, List.getLast?_concat]
  simp only [Script.literalPath, hdrop, hlast, h]
  rw [if_pos]
  simp only [decide_true, Bool.and_true, Bool.true_and, List.all_cons, List.all_append,
    Bool.and_eq_true]
  refine ⟨by decide, ?_, by decide⟩
  rw [List.all_eq_true]
  intro c hc
  simp [(hplain c hc).1, (hplain c hc).2]

theorem isLinked_link {tree : Tree} (hnormal : tree.Normal) (extensions : List Text)
    (path text : Text) (s : Session σ) :
    let media := Script.treeMedia tree extensions (Path.parent path)
    IsLinked tree extensions path text s (Script.link media path text).text
      (Script.link media path text).table (linkedSession media path text s) := by
  intro media
  have hkeys := Script.AssetTable.keys_entries (Script.link media path text).table
  constructor
  · rfl
  · exact Script.pairwise_lt_treeMedia tree extensions _
  · intro name
    refine (Script.mem_treeMedia hnormal).trans ?_
    simp [Script.isMedia]
  · rfl
  · exact hkeys
  · have hmissing : (Script.link media path text).missing =
        (Script.pathSites text).filterMap fun site =>
          unanswered (Script.link media path text).table site.value := by
      simp only [unanswered_eq]
      rfl
    simp only [linkedSession, hmissing, warned, List.foldl_append, List.map_map]
    rfl
  · intro site hsite quote name hroot hquote hne hname hoperand
    have hload := Script.mem_libraryLoads_of_site hsite hroot hquote hne hname hoperand
    have hanswered : '/' :: (name ++ ".js".toList) ∈
        (Script.link media path text).table.entries.map (·.1) := by
      rw [hkeys, mem_distinct]
      refine List.mem_map.mpr ⟨name ++ ".js".toList, List.mem_append_right _ ?_, rfl⟩
      exact mem_distinct.mpr hload
    rw [unanswered, hoperand, isQuote_js hquote name hname, Option.filter_some, if_neg]
    simpa using hanswered

/-- Linking over a tree leaves a script alone exactly when it mentions no root. Any other script is
linked, with a table that answers its assets and its libraries, and with one warning for each path
written out that the table does not answer; a plain load of a library is always answered. -/
theorem linkScript_coverage (get : σ → Tree) (set : Tree → σ → σ) (extensions : List Text)
    (path text : Text) (s : Session σ) (hnormal : (get s.storage).Normal) :
    let outcome := Build.exec (linkScript (.memory get set) extensions path text) s
    (outcome = (.ok (text, none), s) ↔
      ¬ "addon.self.dir".toList <:+: text ∧ ¬ "addon.self.lib".toList <:+: text) ∧
    ("addon.self.dir".toList <:+: text ∨ "addon.self.lib".toList <:+: text →
      ∃ newText table, outcome.1 = .ok (newText, some table) ∧
        IsLinked (get s.storage) extensions path text s newText table outcome.2) := by
  intro outcome
  have houtcome : outcome = _ := exec_linkScript get set extensions path text s
  rw [← mentionsRoot_eq_false]
  cases hroot : Script.mentionsRoot text with
  | true =>
      rw [hroot, if_pos rfl] at houtcome
      refine ⟨?_, fun _ => ?_⟩
      · rw [houtcome]
        simp
      · have hlinked := isLinked_link hnormal extensions path text s
        rw [houtcome]
        exact ⟨_, _, rfl, hlinked⟩
  | false =>
      rw [hroot] at houtcome
      refine ⟨?_, fun hmention => ?_⟩
      · rw [houtcome]
        simp
      · obtain ⟨hdir, hlib⟩ := mentionsRoot_eq_false.mp hroot
        exact absurd hmention (not_or.mpr ⟨hdir, hlib⟩)

theorem linkScript_coverage_icon :
    let tree := Tree.ofFiles [("a/icon.svg".toList, [])]
    let text := "addon.self.dir + \"/icon.svg\"".toList
    let outcome := Build.exec (linkScript (.memory id fun tree _ => tree) [".svg".toList]
      "a/x.js".toList text) { storage := tree }
    ∃ newText table, outcome.1 = .ok (newText, some table) ∧
      IsLinked tree [".svg".toList] "a/x.js".toList text { storage := tree } newText table
        outcome.2 := by
  have hmention : "addon.self.dir".toList <:+: "addon.self.dir + \"/icon.svg\"".toList :=
    (occursIn_iff _ _).mp (by decide)
  exact (linkScript_coverage id (fun tree _ => tree) [".svg".toList] "a/x.js".toList _
    { storage := Tree.ofFiles [("a/icon.svg".toList, [])] } (Tree.normal_ofFiles _)).2
    (.inl hmention)

end Bundle

end AddonBundle
