/-!
# Ordered maps

A map as a list of pairs in order of first insertion. A later value for a key takes the place of
the earlier one.
-/

namespace AddonBundle.Assoc

variable {κ ν : Type} [DecidableEq κ]

/-- Sets the value of a key: in its place if the key is there, else at the end. -/
def put (key : κ) (value : ν) : List (κ × ν) → List (κ × ν)
  | [] => [(key, value)]
  | (k, v) :: rest => if k = key then (k, value) :: rest else (k, v) :: put key value rest

/-- The value of a key. -/
def get? (key : κ) : List (κ × ν) → Option ν
  | [] => none
  | (k, v) :: rest => if k = key then some v else get? key rest

/-- Sets the value of a key that has none yet. -/
def putNew (key : κ) (value : ν) (pairs : List (κ × ν)) : List (κ × ν) :=
  if (get? key pairs).isSome then pairs else pairs ++ [(key, value)]

/-- The map of pairs put one after the other. -/
def ofList (pairs : List (κ × ν)) : List (κ × ν) :=
  pairs.foldl (fun map p => put p.1 p.2 map) []

end AddonBundle.Assoc
