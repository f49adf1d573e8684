import AddonBundle.Cli.Scan
import AddonBundle.Proofs.Script.ImportLines
import AddonBundle.Proofs.Script.SiteLines
import AddonBundle.Proofs.Utf8
/-!
# What a scan reports

A scan reads scripts with uniform line ends, a bundling run as they are. Markers and loads come out
the same, and so does the marker that does not decompose. Imports are lost where they are bare, and
computed paths are counted alike when their operands are read alike, as they are in a script with
regular line ends.
-/

namespace AddonBundle.Script

open Text

/-! ## Markers -/

theorem recogniseMarker_uniformLines (before before' : Option Char) (text : Text) :
    recogniseMarker before' (uniformLines text) = recogniseMarker before text := by
  have hmark : '\r' ∉ "FIXCLASS:".toList ∧ '\n' ∉ "FIXCLASS:".toList := by decide
  rw [recogniseMarker, recogniseMarker, after?_uniformLines text hmark.1 hmark.2,
    Option.map_eq_map, Option.map_map]
  congr 1
  funext rest
  obtain ⟨hgap, hrest⟩ := takeWhile_uniformLines (p := fun c => c = ' ' || c = '\t')
    (by decide) (by decide) rest
  simp only [Function.comp_apply, hgap, hrest,
    (takeWhile_uniformLines (p := isName) (by decide) (by decide) _).1]

theorem follows_marker : Follows recogniseMarker recogniseMarker id where
  none := by
    intro before text hnone
    rw [recogniseMarker_uniformLines before, hnone]
  some := by
    intro before text value length hsome
    have hlines := recogniseMarker_uniformLines before (before.map asLine) text
    rw [hsome] at hlines
    obtain ⟨rest, hafter, hvalue⟩ := Option.map_eq_some_iff.mp hsome
    simp only [Prod.mk.injEq] at hvalue
    obtain ⟨htoken, hlength⟩ := hvalue
    rw [htoken] at hlength
    generalize hgap : rest.takeWhile (fun c => c = ' ' || c = '\t') = gap at hlength
    obtain ⟨behind, hsplit⟩ : ∃ behind, rest = gap ++ (value ++ behind) :=
      ⟨_, by rw [← htoken, List.takeWhile_append_dropWhile, ← hgap, List.takeWhile_append_dropWhile]⟩
    have hreturn : '\r' ∉ "FIXCLASS:".toList ++ gap ++ value := by
      have hmark : '\r' ∉ "FIXCLASS:".toList := by decide
      have hblank : '\r' ∉ gap := fun hmem =>
        absurd (List.mem_takeWhile_imp (hgap ▸ hmem)) (by decide)
      have hname : '\r' ∉ value := fun hmem =>
        absurd (List.mem_takeWhile_imp (htoken ▸ hmem)) (by decide)
      simp only [List.mem_append, not_or]
      exact ⟨⟨hmark, hblank⟩, hname⟩
    have hwritten : length = ("FIXCLASS:".toList ++ gap ++ value).length := by
      rw [List.length_append, List.length_append, ← hlength]
      rfl
    refine ⟨"FIXCLASS:".toList ++ gap ++ value, behind, ?_, hwritten, ⟨'F', rfl, by decide⟩,
      fun hlast => hreturn (List.mem_of_getLast? hlast), value, length, hlines, fun _ => ?_⟩
    · rw [after?_eq_some.mp hafter, List.append_assoc, List.append_assoc, ← hsplit]
    · rw [uniformLines_eq_self hreturn, hwritten]

/-- Markers decompose by their names only. -/
theorem decomposeAll_congr {found found' : List (Found Text)}
    (h : found.map (·.value) = found'.map (·.value)) :
    (decomposeAll found).map (·.map (·.value)) = (decomposeAll found').map (·.map (·.value)) := by
  induction found generalizing found' with
  | nil =>
      obtain rfl : found' = [] := by simpa using h.symm
      rfl
  | cons first rest ih =>
      cases found' with
      | nil => cases h
      | cons first' rest' =>
          rw [List.map_cons, List.map_cons, List.cons.injEq] at h
          have hrest := ih h.2
          rw [decomposeAll, decomposeAll, h.1]
          cases decompose first'.value with
          | none => rfl
          | some marker =>
              have hcons : ∀ (found : Found ClassMarker) (rest : Except Text (List (Found ClassMarker))),
                  ((found :: ·) <$> rest).map (·.map (·.value)) =
                    (rest.map (·.map (·.value))).map (found.value :: ·) := by
                intro found rest
                cases rest <;> rfl
              rw [hcons, hcons, hrest]

theorem classMarkers_uniformLines (text : Text) :
    (classMarkers (uniformLines text)).map (·.map (·.value)) =
      (classMarkers text).map (·.map (·.value)) := by
  refine decomposeAll_congr (values_findAll follows_marker (fun before text value length hsome => ?_) text)
  exact ⟨length, by rw [recogniseMarker_uniformLines before, hsome]; rfl⟩

/-! ## Loads -/

/-- A literal that names a library has no line ends. -/
theorem not_mem_literal {mark line : Char} {name : Text} (hmark : isQuote mark = true)
    (hname : ∀ c ∈ name, isName c = true) (hline : line ∈ ['\r', '\n']) :
    line ∉ mark :: '/' :: (name ++ ".js".toList ++ [mark]) := by
  have hother : ∀ line ∈ ['\r', '\n'], isName line = false ∧ line ∉ '/' :: ".js".toList :=
    List.forall_mem_cons.mpr ⟨by decide, List.forall_mem_singleton.mpr (by decide)⟩
  obtain ⟨hnone, hchars⟩ := hother line hline
  have hquoted : line ∉ [mark] := by
    obtain ⟨hreturn, hfeed⟩ := not_mem_mark hmark
    simp only [List.mem_cons, List.not_mem_nil, or_false] at hline
    rcases hline with rfl | rfl
    · exact hreturn
    · exact hfeed
  have hnamed : line ∉ name := by
    intro hmem
    rw [hname line hmem] at hnone
    cases hnone
  simp only [List.mem_cons, List.mem_append, not_or] at hchars hquoted ⊢
  exact ⟨hquoted.1, hchars.1, ⟨hnamed, hchars.2⟩, hquoted⟩

private theorem literal_append (mark : Char) (file rest : Text) :
    mark :: '/' :: (file ++ mark :: rest) = mark :: '/' :: (file ++ [mark]) ++ rest := by
  simp only [List.append_assoc, List.cons_append, List.nil_append]

/-- A load from its parts. -/
theorem recogniseLoad_append (before : Option Char) {lead name : Text} {mark : Char} (rest : Text)
    (hlead : PathRoot.lib.IsLead lead) (hmark : isQuote mark = true) (hne : name ≠ [])
    (hname : ∀ c ∈ name, isName c = true) :
    recogniseLoad before (lead ++ (mark :: '/' :: (name ++ ".js".toList ++ [mark])) ++ rest) =
      some (name ++ ".js".toList,
        (lead ++ (mark :: '/' :: (name ++ ".js".toList ++ [mark]))).length) := by
  refine recogniseLoad_iff.mpr ⟨lead, mark, name, rest, hlead, hmark, hne, hname, rfl, ?_, ?_⟩
  · rw [literal_append mark _ rest, List.append_assoc lead]
  · simp only [List.length_append]

theorem load_uniformLines {before : Option Char} {text file : Text} {length : Nat}
    (h : recogniseLoad before text = some (file, length)) :
    ∃ front rest, text = front ++ rest ∧ length = front.length ∧ front.head? = some 'a' ∧
      front.getLast? ≠ some '\r' ∧
      recogniseLoad (before.map asLine) (uniformLines text) =
        some (file, (uniformLines front).length) := by
  obtain ⟨lead, mark, name, rest, hlead, hmark, hne, hname, rfl, htext, hlength⟩ :=
    recogniseLoad_iff.mp h
  have hreturn := not_mem_literal hmark hname (by decide : '\r' ∈ ['\r', '\n'])
  have hlines := recogniseLoad_append (before.map asLine) (uniformLines rest)
    (isLead_uniformLines.mpr hlead) hmark hne hname
  rw [literal_append, ← List.append_assoc] at htext
  generalize hliteral : mark :: '/' :: (name ++ ".js".toList ++ [mark]) = literal at *
  have hend : (lead ++ literal).getLast? ≠ some '\r' := by
    rw [← hliteral, List.getLast?_append_of_ne_nil _ (by simp), hliteral]
    exact fun hlast => hreturn (List.mem_of_getLast? hlast)
  have hhead : ∀ c ∈ literal.head?, isBlank c = false := by
    intro c hc
    rw [← hliteral] at hc
    rw [← Option.some.inj hc]
    exact isBlank_of_isQuote hmark
  have hfront : uniformLines (lead ++ literal) = uniformLines lead ++ literal := by
    rw [uniformLines_append_head hhead, uniformLines_eq_self hreturn]
  refine ⟨lead ++ literal, rest, htext, ?_, ?_, hend, ?_⟩
  · rw [htext, List.length_append] at hlength
    omega
  · obtain ⟨tail, rfl, -⟩ := hlead.eq_cons
    rfl
  · rw [htext, uniformLines_append fun hline => absurd hline hend, hfront]
    exact hlines

theorem follows_load : Follows recogniseLoad recogniseLoad id where
  none := by
    intro before text hnone
    rw [Option.eq_none_iff_forall_ne_some] at hnone ⊢
    rintro ⟨file, length⟩ hlines
    obtain ⟨lead, mark, name, rest, hlead, hmark, hne, hname, rfl, htext, -⟩ :=
      recogniseLoad_iff.mp hlines
    have hfeed := not_mem_literal hmark hname (by decide : '\n' ∈ ['\r', '\n'])
    rw [literal_append] at htext
    obtain ⟨lead', behind, rfl, rfl, hbehind⟩ := exists_of_uniformLines_append htext
    obtain ⟨rest', rfl, -⟩ := exists_of_uniformLines_append_plain hfeed hbehind
    have hraw := recogniseLoad_append before rest' (isLead_uniformLines.mp hlead) hmark hne hname
    rw [List.append_assoc] at hraw
    exact hnone _ hraw
  some := by
    intro before text file length hsome
    obtain ⟨front, rest, htext, hlength, hhead, hlast, hlines⟩ := load_uniformLines hsome
    exact ⟨front, rest, htext, hlength, ⟨'a', hhead, by decide⟩, hlast, file, _, hlines, fun _ => rfl⟩

theorem libraryLoads_uniformLines (text : Text) :
    (libraryLoads (uniformLines text)).map (·.value) = (libraryLoads text).map (·.value) := by
  refine values_findAll follows_load (fun before text file length hsome => ?_) text
  obtain ⟨front, rest, -, -, -, -, hlines⟩ := load_uniformLines hsome
  exact ⟨_, hlines⟩

end AddonBundle.Script

namespace AddonBundle.Cli

open Text Script

/-! ## The report -/

/-- How what is found in a script with uniform line ends relates to what is found in the script. -/
structure Agreement (scanned text : Text) : Prop where
  /-- The markers are the same, or the same name is the first that does not decompose. -/
  markers : (classMarkers scanned).map (·.map (·.value)) = (classMarkers text).map (·.map (·.value))
  loads : (libraryLoads scanned).map (·.value) = (libraryLoads text).map (·.value)
  /-- Bare imports are lost. -/
  imports : (libraryImports scanned).map (·.value) =
    ((libraryImports text).filter fun found => !isBareImport (text.drop found.start)).map (·.value)
  imports_iff : (libraryImports scanned).map (·.value) = (libraryImports text).map (·.value) ↔
    ∀ found ∈ libraryImports text, isBareImport (text.drop found.start) = false
  paths_iff : (pathSites scanned).map (·.value) =
      (pathSites text).map (fun site => site.value.uniform) ↔
    ∀ site ∈ pathSites text, ReadsAlike text site
  readsAlike : RegularLineEnds text → ∀ site ∈ pathSites text, ReadsAlike text site
  /-- A scan reports what a bundling run finds. -/
  row : (∀ found ∈ libraryImports text, isBareImport (text.drop found.start) = false) →
    (∀ site ∈ pathSites text, ReadsAlike text site) → ∀ name,
      (idioms scanned).map (idiomsRow name) = (idioms text).map (idiomsRow name)

/-- What a row is made of: the markers by their names, and the computed paths by their number. -/
private theorem row_eq (name text : Text) :
    (idioms text).map (idiomsRow name) =
      ((classMarkers text).map (·.map (·.value))).map fun markers =>
        let cell := fun texts => escapeMarkup (join ", ".toList texts)
        [name, cell ((libraryImports text).map (·.value)), cell ((libraryLoads text).map (·.value)),
          cell (markers.map (·.generated)), ofNat (pathSites text).length] := by
  rw [idioms]
  cases classMarkers text with
  | error token => rfl
  | ok markers => simp [Except.map, idiomsRow, Function.comp_def]

theorem agreement (text : Text) : Agreement (uniformLines text) text := by
  have himports := libraryImports_uniformLines text
  have hbare : (libraryImports (uniformLines text)).map (·.value) =
      (libraryImports text).map (·.value) ↔
        ∀ found ∈ libraryImports text, isBareImport (text.drop found.start) = false := by
    rw [himports]
    constructor
    · intro hsame
      have hlength := congrArg List.length hsame
      rw [List.length_map, List.length_map, List.length_filter_eq_length_iff] at hlength
      simpa using hlength
    · intro hnone
      rw [List.filter_eq_self.mpr]
      simpa using hnone
  refine ⟨classMarkers_uniformLines text, libraryLoads_uniformLines text, himports, hbare,
    pathSites_uniformLines_iff text, fun hregular site hsite => readsAlike_of_regular hregular hsite,
    fun hnone halike name => ?_⟩
  have hpaths := congrArg List.length ((pathSites_uniformLines_iff text).mpr halike)
  rw [List.length_map, List.length_map] at hpaths
  rw [row_eq, row_eq, classMarkers_uniformLines, hbare.mpr hnone, libraryLoads_uniformLines, hpaths]

theorem readScript_eq_ok {cwd : List Text} {disk : Disk} {l : Location} {bytes : Bytes} {text : Text}
    (hread : disk.readBytes cwd l = .ok bytes) (htext : Utf8.decode bytes = .ok text) :
    readScript cwd disk l = .ok (uniformLines text) := by
  rw [readScript, hread]
  simp only [htext]

theorem readText_eq_ok {σ : Type} {view : View σ} {s : σ} {path text : Text} {bytes : Bytes}
    (hread : view.readBytes s path = .ok bytes) (htext : Utf8.decode bytes = .ok text) :
    view.readText s path = .ok text := by
  rw [View.readText, hread]
  simp only [htext]

/-- A scan and a bundling run that read the same bytes. -/
theorem readScript_agreement {σ : Type} (view : View σ) (s : σ) (path : Text) (cwd : List Text)
    (disk : Disk) (l : Location) {bytes : Bytes} {text : Text}
    (hscan : disk.readBytes cwd l = .ok bytes) (hbundle : view.readBytes s path = .ok bytes)
    (htext : Utf8.decode bytes = .ok text) :
    ∃ scanned, readScript cwd disk l = .ok scanned ∧ view.readText s path = .ok text ∧
      Agreement scanned text :=
  ⟨uniformLines text, readScript_eq_ok hscan htext, readText_eq_ok hbundle htext, agreement text⟩

/-- A disk with one script. -/
def scriptDisk (text : Text) : Disk :=
  { files := [(["x.js".toList], Utf8.encode text)] }

def scriptPlace : Location :=
  ⟨0, ["x.js".toList]⟩

theorem readBytes_scriptDisk (text : Text) :
    (scriptDisk text).readBytes [] scriptPlace = .ok (Utf8.encode text) :=
  rfl

theorem readBytes_disk_scriptDisk (text : Text) :
    (View.disk [] {}).readBytes (scriptDisk text) "x.js".toList = .ok (Utf8.encode text) :=
  rfl

/-- A script with regular line ends. -/
theorem readScript_agreement_regular :
    let text := "import a from \"../libraries/a.js\";\r\naddon.self.dir + \"/b\";\r\n".toList
    let view := View.disk [] {}
    (scriptDisk text).readBytes [] scriptPlace = .ok (Utf8.encode text) ∧
      view.readBytes (scriptDisk text) "x.js".toList = .ok (Utf8.encode text) ∧
      Utf8.decode (Utf8.encode text) = .ok text ∧
      ∃ scanned, readScript [] (scriptDisk text) scriptPlace = .ok scanned ∧
        view.readText (scriptDisk text) "x.js".toList = .ok text ∧ Agreement scanned text := by
  intro text view
  have hscan := readBytes_scriptDisk text
  have hbundle := readBytes_disk_scriptDisk text
  have htext := Utf8.decode_encode text
  exact ⟨hscan, hbundle, htext, readScript_agreement view (scriptDisk text) "x.js".toList []
    (scriptDisk text) scriptPlace hscan hbundle htext⟩

/-- A bare import, a carriage return by itself and an escaped one: the scan misses the import, counts
two computed paths for one, and one for two. -/
theorem readScript_differs :
    let bare := "import\r\nfrom \"../libraries/a.js\"".toList
    let lone := "addon.self.dir + a\raddon.self.dir + b".toList
    let escaped := "addon.self.dir + \"a\\\r\naddon.self.dir + b\"".toList
    let found := fun text => (idioms text).map fun found => (found.libraries, found.paths.length)
    (∀ text ∈ [bare, lone, escaped],
      readScript [] (scriptDisk text) scriptPlace = .ok (uniformLines text) ∧
      (View.disk [] {}).readText (scriptDisk text) "x.js".toList = .ok text) ∧
    found bare = .ok (["a.js".toList], 0) ∧ found (uniformLines bare) = .ok ([], 0) ∧
    found lone = .ok ([], 1) ∧ found (uniformLines lone) = .ok ([], 2) ∧
    found escaped = .ok ([], 2) ∧ found (uniformLines escaped) = .ok ([], 1) := by
  intro bare lone escaped found
  refine ⟨fun text _ => ⟨?_, ?_⟩, by decide +kernel⟩
  · exact readScript_eq_ok (readBytes_scriptDisk text) (Utf8.decode_encode text)
  · exact readText_eq_ok (readBytes_disk_scriptDisk text) (Utf8.decode_encode text)

end AddonBundle.Cli
