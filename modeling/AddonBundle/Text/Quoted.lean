import AddonBundle.Text.Basic
import AddonBundle.Text.Printable
/-!
# Quoted texts

How a name is shown inside a message: between single quotes, or between double quotes when it
holds a single quote and no double one, with line breaks and unprintable characters escaped.
-/

namespace AddonBundle.Text

/-- A character between quotes of the given kind. -/
def quotedChar (quote c : Char) : Text :=
  if c = quote || c = '\\' then ['\\', c]
  else if c = '\n' then "\\n".toList
  else if c = '\r' then "\\r".toList
  else if c = '\t' then "\\t".toList
  else if isPrintable c then [c]
  else if c.toNat < 0x100 then "\\x".toList ++ hex 2 c.toNat
  else if c.toNat < 0x10000 then "\\u".toList ++ hex 4 c.toNat
  else "\\U".toList ++ hex 8 c.toNat

/-- A text between quotes. -/
def quoted (text : Text) : Text :=
  let quote := if text.contains '\'' && !text.contains '"' then '"' else '\''
  quote :: text.flatMap (quotedChar quote) ++ [quote]

/-- Texts between quotes, in brackets. -/
def quotedList (texts : List Text) : Text :=
  '[' :: join ", ".toList (texts.map quoted) ++ [']']

end AddonBundle.Text
