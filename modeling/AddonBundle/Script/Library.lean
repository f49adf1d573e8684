import AddonBundle.Text.Piece
import AddonBundle.Text.Word
/-!
# References to shared libraries

A script refers to a shared library by a static import of `../…/libraries/<name>.js`, or by a
load at run time that appends `/<name>.js` to `addon.self.lib`.
-/

namespace AddonBundle.Script

open Text

/-- Quotation marks of plain strings. -/
def isQuote (c : Char) : Bool :=
  c = '"' || c = '\''

/-- A library file `<name>.js` at the start, and what follows it. -/
def libraryFile (text : Text) : Option (Text × Text) :=
  let name := text.takeWhile isName
  if name.isEmpty then none
  else (fun rest => (name ++ ".js".toList, rest)) <$> after? ".js".toList (text.drop name.length)

/-- What follows the steps up `../../…` at the start; there is at least one. -/
def afterStepsUp : Text → Option Text
  | '.' :: '.' :: '/' :: rest =>
    match afterStepsUp rest with
    | some deeper => some deeper
    | none => some rest
  | _ => none

/-- What may stand between the keyword `import` and the quoted path: blanks only, or blanks
around a clause that ends in the word `from`. A clause holds no semicolon. -/
def isImportClause (clause : Text) : Bool :=
  let body := trimEnd clause
  let names := body.dropLast.dropLast.dropLast.dropLast
  (!clause.isEmpty && clause.all isBlank) ||
    (body.length < clause.length && "from".toList.isSuffixOf body && 2 ≤ names.length &&
      (names.head?.any isBlank) && (names.getLast?.any isBlank) && !names.contains ';')

/-- Recognises a static import of a shared library and gives its file. -/
def recogniseImport : Recogniser Text := fun before text =>
  if before.any isWord then none
  else do
    let rest ← after? "import".toList text
    let clause := rest.takeWhile fun c => !isQuote c
    match rest.drop clause.length with
    | [] => none
    | quote :: path =>
      if isImportClause clause then
        let inside ← afterStepsUp path
        let inside ← after? "libraries/".toList inside
        let (file, rest) ← libraryFile inside
        if rest.head? = some quote then some (file, text.length - rest.length + 1) else none
      else none

/-- What follows a `+` with any blanks around it. -/
def afterPlus (text : Text) : Option Text :=
  (fun rest => rest.dropWhile isBlank) <$> after? ['+'] (text.dropWhile isBlank)

/-- Recognises a load of a shared library at run time and gives its file. -/
def recogniseLoad : Recogniser Text := fun _ text => do
  let rest ← after? "addon.self.lib".toList text
  let rest ← afterPlus rest
  match rest with
  | quote :: '/' :: path =>
    if isQuote quote then
      let (file, rest) ← libraryFile path
      if rest.head? = some quote then some (file, text.length - rest.length + 1) else none
    else none
  | _ => none

/-- The static imports of shared libraries, in order. -/
def libraryImports (text : Text) : List (Found Text) :=
  findAll recogniseImport text

/-- The loads of shared libraries at run time, in order. -/
def libraryLoads (text : Text) : List (Found Text) :=
  findAll recogniseLoad text

/-- How a script refers to a library. -/
inductive ReferenceKind where
  | staticImport
  | dynamicLoad
deriving Repr, DecidableEq

/-- The name of a kind of reference. -/
def ReferenceKind.name : ReferenceKind → Text
  | .staticImport => "static_import".toList
  | .dynamicLoad => "dynamic_load".toList

/-- A reference of a script to a shared library. -/
structure LibraryReference where
  file : Text
  kind : ReferenceKind
deriving Repr, DecidableEq

/-- All references of a script to shared libraries: the static imports, then the loads. -/
def libraryReferences (text : Text) : List LibraryReference :=
  (libraryImports text).map (fun found => ⟨found.value, .staticImport⟩) ++
    (libraryLoads text).map (fun found => ⟨found.value, .dynamicLoad⟩)

end AddonBundle.Script
