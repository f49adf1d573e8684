import AddonBundle.Text.Lower
/-!
# Kinds of files

What is done with a file depends on its extension, in any case of letters.
-/

namespace AddonBundle

/-- The kinds of files. -/
inductive FileKind where
  | script
  | stylesheet
  | other
deriving Repr, DecidableEq

namespace FileKind

/-- The kind of the file at a path. -/
def ofPath (path : List Char) : FileKind :=
  if ".js".toList.isSuffixOf (Text.lower path) then .script
  else if ".css".toList.isSuffixOf (Text.lower path) then .stylesheet
  else .other

/-- The name of a kind. -/
def name : FileKind → List Char
  | .script => "script".toList
  | .stylesheet => "stylesheet".toList
  | .other => "other".toList

/-- Whether files of a kind carry a licence. -/
def isLicensed (kind : FileKind) : Bool :=
  kind ≠ .other

end FileKind

end AddonBundle
