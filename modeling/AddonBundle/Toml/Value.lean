import AddonBundle.Assoc
import AddonBundle.Decimal.Double
import AddonBundle.Text.Basic
/-!
# TOML values

Tables keep their keys in order. Dates and times are kept as written.
-/

namespace AddonBundle.Toml

/-- A TOML value. -/
inductive Value where
  | string (s : Text)
  | int (n : Int)
  | double (d : Double)
  | bool (b : Bool)
  | dateTime (written : Text)
  | date (written : Text)
  | time (written : Text)
  | array (items : List Value)
  | table (entries : List (Text × Value))
deriving Repr

/-- A table by its entries. -/
abbrev Table := List (Text × Value)

/-- A dotted key, by its parts. -/
abbrev Key := List Text

/-- Whether a value is a table or an array. -/
def Value.isContainer : Value → Bool
  | .array _ | .table _ => true
  | _ => false

/-- Changes the table behind a key, which is made if it is missing. With `throughArrays`, an array
on the way stands for its last item. Nothing when some other value is in the way. -/
def updateAt (throughArrays : Bool) (change : Table → Option Table) :
    Key → Table → Option Table
  | [], table => change table
  | part :: rest, table =>
    match Assoc.get? part table with
    | none => (fun inner => Assoc.put part (.table inner) table) <$>
        updateAt throughArrays change rest []
    | some (.table inner) => (fun inner => Assoc.put part (.table inner) table) <$>
        updateAt throughArrays change rest inner
    | some (.array items) =>
      if throughArrays then
        match items.getLast? with
        | some (.table inner) =>
          (fun inner => Assoc.put part (.array (items.dropLast ++ [.table inner])) table) <$>
            updateAt throughArrays change rest inner
        | _ => none
      else none
    | some _ => none

/-- Sets a new key of a table; nothing when it has a value. -/
def setNew (part : Text) (value : Value) (table : Table) : Option Table :=
  if (Assoc.get? part table).isSome then none else some (table ++ [(part, value)])

/-- Appends an empty table to the array of tables behind a key; nothing when some other value is
there. -/
def appendTable (part : Text) (table : Table) : Option Table :=
  match Assoc.get? part table with
  | none => some (table ++ [(part, .array [.table []])])
  | some (.array items) => some (Assoc.put part (.array (items ++ [.table []])) table)
  | some _ => none

end AddonBundle.Toml
