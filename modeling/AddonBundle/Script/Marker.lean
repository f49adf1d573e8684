import AddonBundle.Text.Piece
import AddonBundle.Text.Word
/-!
# Class markers

A script that names a generated class of the host records it as
`FIXCLASS:<sheet>_<class>_<hash>`. The sheet is the shortest start that leaves two more parts,
and the hash is the last part, so that the class in between may hold underscores.
-/

namespace AddonBundle.Script

open Text

/-- A generated class name and its parts. -/
structure ClassMarker where
  /-- The stylesheet that the class comes from. -/
  sheet : Text
  /-- The class as the stylesheet writes it. -/
  plainClass : Text
  /-- The whole name. -/
  generated : Text
  /-- The last part. -/
  hash : Text
deriving Repr, DecidableEq

/-- Splits at the last underscore that has something on both sides. -/
def splitLast (text : Text) : Option (Text × Text) :=
  match text.reverse with
  | [] => none
  | last :: before =>
    match before.dropWhile (· ≠ '_') with
    | _ :: c :: cs => some ((c :: cs).reverse, (last :: before.takeWhile (· ≠ '_')).reverse)
    | _ => none

/-- The parts of a generated class name, if it has all three. -/
def decompose (token : Text) : Option ClassMarker :=
  match token with
  | [] => none
  | c :: rest =>
    let sheet := c :: rest.takeWhile (· ≠ '_')
    match rest.dropWhile (· ≠ '_') with
    | [] => none
    | _ :: tail =>
      if sheet.all isWord && tail.all isName then
        (fun parts => ⟨sheet, parts.1, token, parts.2⟩) <$> splitLast tail
      else none

/-- Recognises a marker and gives the name it records, which may be empty. -/
def recogniseMarker : Recogniser Text := fun _ text =>
  (fun rest =>
    let token := (rest.dropWhile fun c => c = ' ' || c = '\t').takeWhile isName
    let gap := (rest.takeWhile fun c => c = ' ' || c = '\t').length
    (token, 9 + gap + token.length)) <$> after? "FIXCLASS:".toList text

/-- Decomposes recorded names one after the other; the first that does not decompose is given
instead. -/
def decomposeAll : List (Found Text) → Except Text (List (Found ClassMarker))
  | [] => .ok []
  | found :: rest =>
    match decompose found.value with
    | none => .error found.value
    | some marker => (⟨marker, found.start, found.stop⟩ :: ·) <$> decomposeAll rest

/-- The markers of a script in order, or the first name that does not decompose. -/
def classMarkers (text : Text) : Except Text (List (Found ClassMarker)) :=
  decomposeAll (findAll recogniseMarker text)

end AddonBundle.Script
