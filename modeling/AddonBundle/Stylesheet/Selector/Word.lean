import AddonBundle.Stylesheet.Selector
import AddonBundle.Text.Lower
/-!
# Words of selectors

Some tokens of a selector belong together: a class is a dot and a name, a pseudo-class a colon and
a name, and a bar binds a namespace to the name behind it. A word is such a group, or a token that
stands alone. Names of pseudo-classes and pseudo-elements are read in any case of letters.
-/

namespace AddonBundle.Stylesheet

open Text

/-- A word of a selector. -/
inductive Word where
  | ofClass (name : Text)
  | pseudo (name : Text)
  | function (name : Text)
  | negation
  | colons
  | universal (space : Space)
  /-- A namespace with its bar; no other than these is known. -/
  | qualifier (space : Option Space)
  | token (single : Token)
deriving Repr, DecidableEq

/-- The word that a token makes together with the word before it, if they belong together. -/
def Word.extend (word : Word) (token : Token) : Option Word :=
  match word, token with
  | .token (.char ':'), .char ':' => some .colons
  | .token (.char '.'), .identifier name => some (.ofClass name)
  | .token (.char ':'), .identifier name => some (.pseudo (':' :: name))
  | .colons, .identifier name => some (.pseudo (':' :: ':' :: name))
  | .pseudo start, .identifier name => some (.pseudo (start ++ name))
  | .token (.char ':'), .function name =>
    if name = "not".toList then some .negation else some (.function (':' :: name))
  | .colons, .function name => some (.function (':' :: ':' :: name))
  | .pseudo start, .function name => some (.function (start ++ name))
  | .qualifier (some space), .char '*' =>
    if space = .unqualified then none else some (.universal space)
  | .token (.identifier _), .char '|' => some (.qualifier none)
  | .universal .unqualified, .char '|' => some (.qualifier (some .any))
  | _, _ => none

/-- The word that a token is by itself. -/
def Word.ofToken : Token → Word
  | .char '*' => .universal .unqualified
  | .char '|' => .qualifier (some .empty)
  | single => .token single

/-- The words before a token and the token, with the last word first. -/
def pushToken (words : List Word) (token : Token) : List Word :=
  match words with
  | [] => [.ofToken token]
  | last :: before =>
    match last.extend token with
    | some word => word :: before
    | none => .ofToken token :: words

/-- The words of a sequence of tokens. -/
def words (tokens : List Token) : List Word :=
  (tokens.foldl pushToken []).reverse

/-- A name without the backslashes that take a character into it. -/
def bareName : Text → Text
  | [] => []
  | '\\' :: c :: rest =>
    if isHexDigit c then '\\' :: c :: bareName rest else c :: bareName rest
  | c :: rest => c :: bareName rest

/-- The name of a pseudo-class or pseudo-element as it is compared and written. -/
def pseudoName (name : Text) : Text :=
  lower (bareName name)

/-- Pseudo-elements: those with two colons, and four that may be written with one. -/
def isPseudoElement (name : Text) : Bool :=
  "::".toList.isPrefixOf name || name = ":first-line".toList || name = ":first-letter".toList ||
    name = ":before".toList || name = ":after".toList

/-- Names of functions whose argument is a selector. -/
def takesSelector (name : Text) : Bool :=
  name = ":is".toList || name = ":where".toList || name = ":has".toList ||
    name = ":matches".toList || name = ":any".toList || name = "::slotted".toList

end AddonBundle.Stylesheet
