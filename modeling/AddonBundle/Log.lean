import AddonBundle.Text.Markup
/-!
# Log messages

What is told to the user. Messages may hold console markup, and each level has a sign of its own
that is put before the message.
-/

namespace AddonBundle.Log

/-- How much a message matters. -/
inductive Level where
  | info
  | success
  | warning
  | error
deriving Repr, DecidableEq

/-- The name of a level. -/
def Level.name : Level → Text
  | .info => "INFO".toList
  | .success => "SUCCESS".toList
  | .warning => "WARNING".toList
  | .error => "ERROR".toList

/-- The sign of a level, with the blanks behind it. -/
def Level.sign : Level → Text
  | .info => "\u2139\ufe0f  ".toList
  | .success => "\u2705 ".toList
  | .warning => "\u26a0\ufe0f  ".toList
  | .error => "\u274c ".toList

/-- A message with its level. -/
structure Entry where
  level : Level
  message : Text
deriving Repr, DecidableEq

/-- The message with its sign. -/
def Entry.text (entry : Entry) : Text :=
  entry.level.sign ++ entry.message

/-- What keeps a message from being shown, if anything does. -/
def Entry.fault? (entry : Entry) : Option Text.MarkupFault :=
  Text.markupFault? entry.text

/-- A text marked up as a path. -/
def path (text : Text) : Text :=
  "[path]".toList ++ text ++ "[/path]".toList

end AddonBundle.Log
