import AddonBundle.Log
/-!
# Consoles

Text for the user goes to the active console: the standard output, or one that has been put in its
place. Log messages follow, since the one handler that shows them is bound anew with every change.
-/

namespace AddonBundle

/-- Where text can go: a named console, or the standard output. -/
abbrev Console.Target := Option Text

/-- The active console, and the consoles that handlers show log messages on. -/
structure Console where
  active : Console.Target := none
  handlers : List Console.Target := [none]
deriving Repr, DecidableEq

namespace Console

/-- How many columns a console has. -/
def width : Nat := 200

/-- Whether log messages are passed on beyond the handlers. -/
def propagates : Bool := false

/-- Makes a console the active one. -/
def activate (_ : Console) (target : Target) : Console :=
  ⟨target, [target]⟩

/-- The lines of a text, without blanks at their ends. -/
def lines (text : Text) : List Text :=
  (Text.split '\n' text).map Text.trimEnd

/-- What a console shows of a marked-up text, or why it cannot be shown. -/
def printed (text : Text) : Except Text.MarkupFault (List Text) :=
  match Text.markupFault? text with
  | some fault => .error fault
  | none => .ok (lines (Text.plain text))

/-- A level in its column. -/
def levelColumn (level : Log.Level) : Text :=
  level.name ++ List.replicate (8 - level.name.length) ' '

/-- The lines of a log message: the level, and the message in a column beside it. -/
def entryLines (entry : Log.Entry) : List Text :=
  match Text.split '\n' (Text.plain entry.text) with
  | [] => []
  | first :: rest =>
    (Text.trimEnd (levelColumn entry.level ++ ' ' :: first)) ::
      rest.map fun line => Text.trimEnd (List.replicate 9 ' ' ++ line)

/-- What a console shows of a log message, or why it cannot be shown. -/
def logged (entry : Log.Entry) : Except Text.MarkupFault (List Text) :=
  match entry.fault? with
  | some fault => .error fault
  | none => .ok (entryLines entry)

end Console

end AddonBundle
