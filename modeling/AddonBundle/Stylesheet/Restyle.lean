import AddonBundle.Stylesheet.Block
import AddonBundle.Stylesheet.ClassMapping
import AddonBundle.Stylesheet.Flatten
import AddonBundle.Stylesheet.Selector.Reader
/-!
# Restyled rules

A rule of the host's stylesheet applies to generated names once its classes are renamed. The rules
at the top level whose selector can be read and is covered by the mapping are restyled, each with
its own declarations; at-rules are left out.
-/

namespace AddonBundle.Stylesheet

open Text

/-- A restyled rule: the selector before and after renaming, and the text of the rule. -/
structure RestyledRule where
  before : Text
  after : Text
  text : Text
deriving Repr, DecidableEq

/-- The restyled rule of a block, if it has one. -/
def restyleBlock (mapping : ClassMapping) (block : Block) : Option RestyledRule :=
  if block.isAtRule then none
  else do
    let before ← normalSelector block.prelude
    let after ← renameClasses mapping before
    some ⟨before, after, renderRule after (declarations block.body)⟩

/-- The restyled rules of a flat stylesheet, in order. -/
def restyleText (mapping : ClassMapping) (text : Text) : List RestyledRule :=
  (blocks text).filterMap (restyleBlock mapping)

/-- The directory of the host's components. -/
def componentsDir : Text := "components".toList

/-- The path of a component's stylesheet. -/
def sheetPath (directory sheet : Text) : Text :=
  directory ++ '/' :: sheet ++ '/' :: sheet ++ ".css".toList

/-- The restyled rules of the stylesheet that a mapping belongs to. -/
def restyleSheet {σ : Type} (view : View σ) (s : σ) (directory : Text) (mapping : ClassMapping) :
    Except Failure (List RestyledRule) :=
  let path := sheetPath directory mapping.sheet
  match view.present s path with
  | .error failure => .error failure
  | .ok false => .error (.fault (.markedSheetMissing mapping.sheet path))
  | .ok true => restyleText mapping <$> flatten view s path

end AddonBundle.Stylesheet
