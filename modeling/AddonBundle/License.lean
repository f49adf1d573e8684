import AddonBundle.Text.Basic
/-!
# Licence headers

Scripts and stylesheets are stamped with a header, unless they state their licence already.
-/

namespace AddonBundle.License

/-- The tag that states a licence. -/
def marker : Text := "@license".toList

/-- The header, unless another one is configured. -/
def defaultHeader : Text :=
  "/**!\n * Imported from the upstream addon collection\n".toList ++
    " * @license GPLv3.0 (see LICENSE_GPL or https://www.gnu.org/licenses/ ".toList ++
    "for more information)\n */\n\n".toList

/-- Whether a text states its licence: it has the tag somewhere, or a header of some length at its
start. -/
def isStated (header text : Text) : Bool :=
  Text.occursIn marker text || (!header.isEmpty && header.isPrefixOf text)

/-- The text with the header before it, unless it states its licence. -/
def stamp (header text : Text) : Text :=
  if isStated header text then text else header ++ text

end AddonBundle.License
