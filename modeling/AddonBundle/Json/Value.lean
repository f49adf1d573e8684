import AddonBundle.Assoc
import AddonBundle.Decimal.Double
import AddonBundle.Text.CodePoint
/-!
# JSON values

Objects keep their members in order, with distinct names. Strings are code texts, since an
escape can name half of a surrogate pair.
-/

namespace AddonBundle.Json

/-- A JSON value. -/
inductive Value where
  | null
  | bool (b : Bool)
  | int (n : Int)
  | double (d : Double)
  | string (s : CodeText)
  | array (items : List Value)
  | object (members : List (CodeText × Value))
deriving Repr

/-- A string value from a text. -/
def Value.ofText (text : Text) : Value :=
  .string (CodePoint.ofText text)

/-- The value of a member of an object. -/
def Value.get? (value : Value) (name : Text) : Option Value :=
  match value with
  | .object members => Assoc.get? (CodePoint.ofText name) members
  | _ => none

end AddonBundle.Json
