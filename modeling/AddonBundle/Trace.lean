import AddonBundle.Json.Value
/-!
# Traces

A trace lists what a run did. Phases nest; every other event belongs to the innermost phase that
is open when it is recorded, and the end of a phase belongs to its start. An event refers to
another by its index, which is always smaller than its own.
-/

namespace AddonBundle

/-- Something that a run did. -/
inductive Event where
  | phaseStart (name detail : Text)
  | phaseEnd
  | libraryCopy (file kind : Text)
  | classFix (sheet before after : Text)
  | linking (path : Text) (assets libraries : List Text) (sites : Nat)
  | licenseStamp (path : Text)
  | catalogWrite (language addon : Text)
  | warning (message : Text)
deriving Repr, DecidableEq

namespace Event

/-- The kinds of events. -/
inductive Kind where
  | phaseStart
  | phaseEnd
  | libraryCopy
  | classFix
  | linking
  | licenseStamp
  | catalogWrite
  | warning
deriving Repr, DecidableEq

/-- The kind of an event. -/
def kind : Event → Kind
  | .phaseStart .. => .phaseStart
  | .phaseEnd => .phaseEnd
  | .libraryCopy .. => .libraryCopy
  | .classFix .. => .classFix
  | .linking .. => .linking
  | .licenseStamp .. => .licenseStamp
  | .catalogWrite .. => .catalogWrite
  | .warning .. => .warning

/-- The name of a kind. -/
def Kind.name : Kind → Text
  | .phaseStart => "phase_start".toList
  | .phaseEnd => "phase_end".toList
  | .libraryCopy => "library_copy".toList
  | .classFix => "class_fix".toList
  | .linking => "import_rewrite".toList
  | .licenseStamp => "license_stamp".toList
  | .catalogWrite => "catalog_write".toList
  | .warning => "warning".toList

/-- All kinds. -/
def Kind.all : List Kind :=
  [.phaseStart, .phaseEnd, .libraryCopy, .classFix, .linking, .licenseStamp, .catalogWrite,
    .warning]

/-- The kind of a name. -/
def Kind.ofName? (name : Text) : Option Kind :=
  Kind.all.find? fun k => k.name = name

/-- What an event says. -/
def description : Event → Text
  | .phaseStart name _ => name
  | .phaseEnd => "End Phase".toList
  | .libraryCopy file _ => "Copied library ".toList ++ file
  | .classFix sheet _ _ => "Fixed rule from ".toList ++ sheet
  | .linking path _ _ _ => "Rewrote dynamic loads in ".toList ++ path
  | .licenseStamp path => "Stamped license on ".toList ++ path
  | .catalogWrite language addon =>
    "Wrote catalog ".toList ++ language ++ '/' :: addon
  | .warning message => message

/-- An object of JSON with the given names. -/
def record (members : List (Text × Json.Value)) : Json.Value :=
  .object (members.map fun m => (CodePoint.ofText m.1, m.2))

/-- The details of an event. -/
def metadata : Event → Json.Value
  | .phaseStart _ detail => record [("detail".toList, .ofText detail)]
  | .libraryCopy _ kind => record [("kind".toList, .ofText kind)]
  | .classFix _ before after =>
    record [("before".toList, .ofText before), ("after".toList, .ofText after)]
  | .linking _ assets libraries sites =>
    record [("assets".toList, .array (assets.map .ofText)),
      ("libraries".toList, .array (libraries.map .ofText)), ("sites".toList, .int sites)]
  | .warning _ => record [("level".toList, .ofText "warning".toList)]
  | .phaseEnd | .licenseStamp _ | .catalogWrite .. => record []

end Event

/-- An event and the index of the event that it belongs to. -/
structure Trace.Entry where
  event : Event
  parent : Option Nat
deriving Repr, DecidableEq

/-- The events recorded so far, and the starts of the open phases, innermost first. -/
structure Trace where
  entries : List Trace.Entry := []
  openPhases : List Nat := []
deriving Repr, DecidableEq

namespace Trace

/-- Records an event in the innermost open phase. -/
def record (trace : Trace) (event : Event) : Trace :=
  { trace with entries := trace.entries ++ [⟨event, trace.openPhases.head?⟩] }

/-- Opens a phase inside the innermost one. -/
def startPhase (trace : Trace) (name detail : Text) : Trace :=
  { entries := trace.entries ++ [⟨.phaseStart name detail, trace.openPhases.head?⟩]
    openPhases := trace.entries.length :: trace.openPhases }

/-- Closes the innermost phase; without an open phase nothing happens. -/
def endPhase (trace : Trace) : Trace :=
  match trace.openPhases with
  | [] => trace
  | phase :: outer =>
    { entries := trace.entries ++ [⟨.phaseEnd, some phase⟩], openPhases := outer }

/-- The entries of a kind. -/
def ofKind (trace : Trace) (kind : Event.Kind) : List Entry :=
  trace.entries.filter fun e => e.event.kind = kind

/-- The name by which an exported entry is referred to. -/
def label (index : Nat) : Json.Value :=
  .ofText ('#' :: Text.ofNat index)

/-- Entries as JSON, the first with the given index. Times are not recorded. -/
def exportFrom : Nat → List Entry → List Json.Value
  | _, [] => []
  | index, entry :: rest =>
    Event.record
      [("id".toList, label index), ("type".toList, .ofText entry.event.kind.name),
        ("timestamp".toList, .int 0), ("description".toList, .ofText entry.event.description),
        ("parent_id".toList, (entry.parent.map label).getD .null),
        ("metadata".toList, entry.event.metadata)] :: exportFrom (index + 1) rest

/-- The trace as JSON. -/
def toJson (trace : Trace) : Json.Value :=
  .array (exportFrom 0 trace.entries)

end Trace

end AddonBundle
