import AddonBundle.Text.Digit
/-!
# Command-line words

How the words of a command line are told apart. A word that starts with a hyphen names an option,
in full or by a start that no other option shares, and may give its value behind an equals sign.
Behind `--` no word is an option; nor is a negative number, or an unknown word with a blank in it.
-/

namespace AddonBundle.Cli

open Text

/-- An option: how it is written, and whether it takes a value. -/
structure Switch where
  name : Text
  takesValue : Bool
deriving Repr, DecidableEq

/-- What a word is. -/
inductive Word where
  | plain
  | known (switch : Switch) (value : Option Text)
  | unknown
  | ambiguous
deriving Repr, DecidableEq

/-- Whether a word is a negative number, in digits of any script; it may have a line end behind
it. -/
def isNegativeNumber (word : Text) : Bool :=
  match word with
  | '-' :: number =>
    let number := if number.getLast? = some '\n' then number.dropLast else number
    let whole := number.takeWhile isDigit
    match number.drop whole.length with
    | [] => !whole.isEmpty
    | '.' :: fraction => !fraction.isEmpty && fraction.all isDigit
    | _ => false
  | _ => false

/-- A word at its first equals sign: what stands before it and, if there is one, behind it. -/
def splitValue (word : Text) : Text × Option Text :=
  let start := word.takeWhile (· ≠ '=')
  match word.drop start.length with
  | [] => (start, none)
  | _ :: value => (start, some value)

/-- The options that a word may stand for, each with the value it would give. -/
def candidates (switches : List Switch) (word : Text) : List (Switch × Option Text) :=
  match word with
  | '-' :: '-' :: _ =>
    let (start, value) := splitValue word
    (switches.filter fun s => start.isPrefixOf s.name).map fun s => (s, value)
  | _ =>
    switches.filterMap fun s =>
      if s.name = word.take 2 then some (s, some (word.drop 2))
      else if word.isPrefixOf s.name then some (s, none)
      else none

/-- What a word is, before any `--`. -/
def classify (switches : List Switch) (word : Text) : Word :=
  if word.head? ≠ some '-' || word.length = 1 then .plain
  else
    match switches.find? fun s => s.name = word with
    | some s => .known s none
    | none =>
      let (start, value) := splitValue word
      match value, switches.find? fun s => s.name = start with
      | some value, some s => .known s (some value)
      | _, _ =>
        match candidates switches word with
        | [(s, value)] => .known s value
        | _ :: _ :: _ => .ambiguous
        | [] => if isNegativeNumber word || word.contains ' ' then .plain else .unknown

/-- The divider behind which no word is an option. -/
def divider : Text := "--".toList

/-- Whether a word before the divider may stand for several options. -/
def hasAmbiguous (switches : List Switch) (words : List Text) : Bool :=
  (words.takeWhile (· ≠ divider)).any fun word => classify switches word = .ambiguous

/-- Why the words of a command line give no command. -/
inductive Stop where
  /-- The words make no sense. -/
  | usage
  /-- Help is asked for. -/
  | help
  /-- The version is asked for. -/
  | version
deriving Repr, DecidableEq

/-- The option for help, in its two forms. -/
def helpSwitches : List Switch :=
  [⟨"-h".toList, false⟩, ⟨"--help".toList, false⟩]

/-- Whether an option asks for help. -/
def Switch.isHelp (s : Switch) : Bool :=
  s.name = "-h".toList || s.name = "--help".toList

/-- What is asked for by short options that are run together behind the one for help. The first
that is unknown is not looked at, but none takes a value or is a hyphen. -/
def stopBehind : Text → Stop
  | [] => .help
  | c :: rest =>
    if c = 'h' then stopBehind rest else if c = '=' || c = '-' then .usage else .help

/-- What a word that names the option for help asks for; it takes no value. -/
def stopAt (word : Text) : Stop :=
  match word with
  | '-' :: '-' :: name => if name.contains '=' then .usage else .help
  | _ => stopBehind (word.drop 2)

end AddonBundle.Cli
