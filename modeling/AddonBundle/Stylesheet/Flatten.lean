import AddonBundle.Storage
import AddonBundle.Stylesheet.Import
import AddonBundle.Stylesheet.Variable
/-!
# Flattened stylesheets

A stylesheet is flattened by putting each local stylesheet that it imports at the top level in
the place of the import, and so on inside that one. Every file is put once, where it is met
first. Imports of other machines and imports inside blocks stay as they are. Afterwards variables
are replaced.
-/

namespace AddonBundle.Stylesheet

open Text

/-- The text of a stylesheet in a tree. -/
def readSheet {σ : Type} (view : View σ) (s : σ) (path : Text) : Except Failure Text :=
  match view.readText s path with
  | .ok text => .ok text
  | .error failure =>
    if failure.isUnreadable then .error (.fault (.sheetUnreadable failure.message path))
    else .error failure

/-- The path that an import in a stylesheet leads to. -/
def importPath (importer target : Text) : Text :=
  Path.normalize (Path.append (Path.parent importer) target)

/-- An imported text under its media query. -/
def underMedia (media text : Text) : Text :=
  if media.isEmpty then text
  else "@media ".toList ++ media ++ " \x7b\n".toList ++ text ++ "\n\x7d".toList

/-- Brace depth behind a plain character. -/
def depthAfter (depth : Int) (c : Char) : Int :=
  if c = '\x7b' then depth + 1 else if c = '\x7d' then depth - 1 else depth

/-- Puts imported texts in the place of their imports, among the pieces of one stylesheet at a
brace depth. `load` gives the text of an import and the files met by then. Gives the text, and
the files met. -/
def inlinePieces (load : List Text → Text → Text → Except Failure (Text × List Text))
    (importer : Text) :
    Int → List Text → List (Piece Import) → Except Failure (Text × List Text)
  | _, seen, [] => .ok ([], seen)
  | depth, seen, .plain c :: rest =>
    (fun r => (c :: r.1, r.2)) <$> inlinePieces load importer (depthAfter depth c) seen rest
  | depth, seen, .item statement text :: rest =>
    let target := trim statement.target
    if depth ≠ 0 || isRemote target then
      (fun r => (text ++ r.1, r.2)) <$> inlinePieces load importer depth seen rest
    else
      let path := importPath importer target
      if seen.contains path then inlinePieces load importer depth seen rest
      else
        match load seen path target with
        | .error failure => .error failure
        | .ok (imported, seen) =>
          (fun r => (underMedia (trim statement.media) imported ++ r.1, r.2)) <$>
            inlinePieces load importer depth seen rest

/-- The text of a stylesheet with its imports put in place, and the files met. The first argument
is how deep imports may still nest. -/
def inlineImports {σ : Type} (view : View σ) (s : σ) :
    Nat → List Text → Text → Text → Except Failure (Text × List Text)
  | 0, _, _, _ => .error (.limit .nesting)
  | deeper + 1, seen, importer, text =>
    let load := fun seen path target =>
      match view.isFile s path with
      | .error failure => .error failure
      | .ok false => .error (.fault (.importMissing target importer))
      | .ok true =>
        match readSheet view s path with
        | .error failure => .error failure
        | .ok text => inlineImports view s deeper (path :: seen) path text
    inlinePieces load importer 0 seen (pieces recogniseImport (dropComments text))

/-- Flattens the text of a stylesheet at a path. -/
def flattenText {σ : Type} (view : View σ) (s : σ) (path text : Text) : Except Failure Text :=
  match inlineImports view s Limit.maxNesting [Path.normalize path] path text with
  | .error failure => .error failure
  | .ok (inlined, _) =>
    match substituteVariables [] (some path) inlined with
    | .ok text => .ok text
    | .error fault => .error (.fault fault)

/-- Flattens the stylesheet at a path. -/
def flatten {σ : Type} (view : View σ) (s : σ) (path : Text) : Except Failure Text :=
  match view.isFile s path with
  | .error failure => .error failure
  | .ok false => .error (.fault (.sheetMissing path))
  | .ok true =>
    match readSheet view s path with
    | .error failure => .error failure
    | .ok text => flattenText view s path text

end AddonBundle.Stylesheet
