import AddonBundle.Text.Basic
/-!
# Strings in stylesheets

A string runs from a quotation mark to the same mark or to the end of the line, and a backslash
takes the meaning of the character behind it. Structure is read outside strings only.
-/

namespace AddonBundle.Stylesheet

/-- Where a scan stands: outside strings, in a string with a given mark, or behind a backslash in
one. -/
inductive Quoting where
  | bare
  | inside (mark : Char)
  | escaped (mark : Char)
deriving Repr, DecidableEq

/-- Where the scan stands behind a character. -/
def Quoting.step (quoting : Quoting) (c : Char) : Quoting :=
  match quoting with
  | .bare => if c = '"' || c = '\'' then .inside c else .bare
  | .inside mark =>
    if c = '\\' then .escaped mark
    else if c = mark || c = '\n' then .bare
    else .inside mark
  | .escaped mark => .inside mark

/-- Whether a character at this point is structure: it stands outside strings and opens none. -/
def Quoting.isStructure (quoting : Quoting) (c : Char) : Bool :=
  quoting = .bare && quoting.step c = .bare

end AddonBundle.Stylesheet
