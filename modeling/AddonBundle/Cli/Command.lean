import AddonBundle.Config.Load
import AddonBundle.Disk
import AddonBundle.Fault
import AddonBundle.Log
/-!
# Commands

A command works on a disk, tells the user what it does, prints tables and may start other programs.
It ends with an exit code, or breaks off with a failure that it does not expect.
-/

namespace AddonBundle.Cli

/-- A table for the user. -/
structure Table where
  title : Text
  columns : List Text
  rows : List (List Text)
deriving Repr, DecidableEq

/-- The cells of a column, from its heading down. -/
def Table.column (table : Table) (index : Nat) : List Text :=
  (table.columns :: table.rows).filterMap fun cells => cells[index]?

/-- What keeps a table from being shown, if anything does: columns are laid out one after the other,
and the title comes last. -/
def Table.fault? (table : Table) : Option Text.MarkupFault :=
  ((List.range table.columns.length).flatMap table.column ++ [table.title]).findSome?
    Text.markupFault?

/-- What a command has done so far. -/
structure Progress where
  disk : Disk
  log : List Log.Entry := []
  tables : List Table := []
  /-- The command lines of the programs started. -/
  started : List (List Text) := []
  /-- What was printed besides messages and tables. -/
  printed : Text := []
deriving Repr, DecidableEq

/-- A failure that a command does not expect. -/
inductive Crash where
  | config (cause : Config.LoadFailure)
  | failure (cause : Failure)
deriving Repr, DecidableEq

/-- The wording of a crash. -/
def Crash.message : Crash → Text
  | .config cause => cause.message
  | .failure cause => cause.message

/-- A command or a part of one. -/
abbrev Command := ExceptT Crash (StateM Progress)

namespace Command

/-- Runs a command on a disk. -/
def exec {α : Type} (command : Command α) (disk : Disk) : Except Crash α × Progress :=
  StateT.run (ExceptT.run command) { disk }

/-- Breaks off when a text cannot be shown. -/
def check (fault : Option Text.MarkupFault) : Command Unit :=
  match fault with
  | some fault => throw (.failure (.unshowable fault))
  | none => return ()

/-- Tells the user something; a message that cannot be shown is recorded before the command breaks
off. -/
def log (level : Log.Level) (message : Text) : Command Unit := do
  let entry : Log.Entry := ⟨level, message⟩
  modify fun p => { p with log := p.log ++ [entry] }
  check entry.fault?

/-- Tells the user what went wrong and ends with the exit code for it. -/
def fail (message : Text) : Command Nat := do
  log .error message
  return 1

/-- Prints a table; one that cannot be shown is recorded before the command breaks off. -/
def printTable (table : Table) : Command Unit := do
  modify fun p => { p with tables := p.tables ++ [table] }
  check table.fault?

/-- The outcome of asking the disk, as a step. -/
def ofExcept {α : Type} (outcome : Except Refusal α) : Command α :=
  match outcome with
  | .ok a => return a
  | .error refusal => throw (.failure (.refused refusal))

/-- The disk as it is now. -/
def disk : Command Disk := do
  return (← get).disk

/-- Puts a changed disk in the place of the disk. -/
def setDisk (disk : Disk) : Command Unit :=
  modify fun p => { p with disk }

end Command

end AddonBundle.Cli
