import AddonBundle.Assoc
import AddonBundle.Script.Marker
import AddonBundle.Text.Quoted
/-!
# Class mappings

The markers of an addon give, for each stylesheet they name, a mapping of the classes written there
to their generated names. A selector is renamed class by class, and only when every class in it is
mapped. A class is a point and the longest run of word characters and hyphens behind it, wherever
it stands in the text of the selector.
-/

namespace AddonBundle.Stylesheet

open Text

/-- The generated names of a stylesheet's classes, in order of first insertion. -/
structure ClassMapping where
  sheet : Text
  classes : List (Text × Text) := []
deriving Repr, DecidableEq

namespace ClassMapping

/-- Maps a class; a later name takes the place of an earlier one. -/
def add (mapping : ClassMapping) (name generated : Text) : ClassMapping :=
  { mapping with classes := Assoc.put name generated mapping.classes }

/-- The generated name of a class. -/
def get? (mapping : ClassMapping) (name : Text) : Option Text :=
  Assoc.get? name mapping.classes

/-- Whether every class is mapped. -/
def covers (mapping : ClassMapping) (names : List Text) : Bool :=
  names.all fun name => (mapping.get? name).isSome

/-- Whether the mapping sends the same classes to the same names as pairs with distinct keys. -/
def agrees (mapping : ClassMapping) (pairs : List (Text × Text)) : Bool :=
  pairs.length = mapping.classes.length &&
    pairs.all fun pair => mapping.get? pair.1 = some pair.2

/-- How a mapping is shown. -/
def shown (mapping : ClassMapping) : Text :=
  let entries := mapping.classes.map fun entry => quoted entry.1 ++ ": ".toList ++ quoted entry.2
  "ClassMapping(".toList ++ quoted mapping.sheet ++ ", \x7b".toList ++
    join ", ".toList entries ++ "\x7d)".toList

end ClassMapping

/-- Adds a marker to the mapping of its stylesheet; a stylesheet not met before comes last. -/
def addMarker (marker : Script.ClassMarker) : List ClassMapping → List ClassMapping
  | [] => [ClassMapping.add ⟨marker.sheet, []⟩ marker.plainClass marker.generated]
  | mapping :: rest =>
    if mapping.sheet = marker.sheet then
      mapping.add marker.plainClass marker.generated :: rest
    else mapping :: addMarker marker rest

/-- The mappings of markers by stylesheet, in order of first occurrence. -/
def groupMarkers (markers : List Script.ClassMarker) : List ClassMapping :=
  markers.foldl (fun groups marker => addMarker marker groups) []

/-- Recognises a class in the text of a selector and gives its name. -/
def recogniseClass : Recogniser Text := fun _ text =>
  match text with
  | '.' :: rest =>
    let name := rest.takeWhile isName
    if name.isEmpty then none else some (name, name.length + 1)
  | _ => none

/-- The classes in the text of a selector, in order. -/
def selectorClasses (selector : Text) : List Text :=
  (findAll recogniseClass selector).map (·.value)

/-- The selector with every class renamed, if every class is mapped. -/
def renameClasses (mapping : ClassMapping) (selector : Text) : Option Text :=
  if mapping.covers (selectorClasses selector) then
    some (substitute recogniseClass (fun name => '.' :: (mapping.get? name).getD name) selector)
  else none

end AddonBundle.Stylesheet
