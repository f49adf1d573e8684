import AddonBundle.Toml.Reader
/-!
# TOML documents

A document is read statement by statement. A header opens a table, or a new table at the end of an
array of tables, and the pairs behind it go there. A table is opened once, a table that a dotted
key made may not be opened by a later header, and what stands between brackets or braces may not
be extended afterwards.
-/

namespace AddonBundle.Toml

open Text

/-- A document as far as it has been read. -/
structure Document where
  table : Table := []
  /-- The table that pairs go to. -/
  header : Key := []
  /-- Tables that may not be opened again. -/
  opened : List Key := []
  /-- Tables made by dotted keys, which the next header counts as opened. -/
  pending : List Key := []
  /-- Values that may not be extended. -/
  frozen : List Key := []
deriving Repr

namespace Document

/-- Whether a key lies at or below a value that may not be extended. -/
def isFrozen (document : Document) (key : Key) : Bool :=
  document.frozen.any fun f => f.isPrefixOf key

/-- Whether a table has been opened. -/
def isOpened (document : Document) (key : Key) : Bool :=
  document.opened.contains key

/-- Counts the pending tables as opened. -/
def settle (document : Document) : Document :=
  { document with opened := document.pending ++ document.opened, pending := [] }

/-- Opens a table. -/
def openTable (document : Document) (key : Key) : Option Document :=
  if document.isOpened key || document.isFrozen key then none
  else
    (fun table => { document with table, header := key, opened := key :: document.opened }) <$>
      updateAt true some key document.table

/-- Opens a new table at the end of an array of tables. What was said of the table before it no
longer holds. -/
def openItem (document : Document) (key : Key) : Option Document :=
  if document.isFrozen key then none
  else
    let keep := fun k : Key => !key.isPrefixOf k
    (fun table =>
      { document with
        table, header := key, opened := key :: document.opened.filter keep
        frozen := document.frozen.filter keep }) <$>
      updateAt true (appendTable (key.getLast?.getD [])) key.dropLast document.table

/-- The keys of the tables that a dotted key passes through. -/
def passed (header : Key) (key : Key) : List Key :=
  (List.range (key.length - 1)).map fun i => header ++ key.take (i + 1)

/-- Sets a pair. -/
def setPair (document : Document) (key : Key) (value : Value) : Option Document :=
  let through := passed document.header key
  let parent := document.header ++ key.dropLast
  if through.any document.isOpened || document.isFrozen parent then none
  else
    (fun table =>
      { document with
        table, pending := through ++ document.pending
        frozen := if value.isContainer then (document.header ++ key) :: document.frozen
          else document.frozen }) <$>
      updateAt true (setNew (key.getLast?.getD []) value) parent document.table

end Document

/-- Reads the statement at the start of a text, which is neither empty nor a comment; gives the
document behind it, and what follows. -/
def statementAt (document : Document) (text : Text) : Except Problem (Document × Text) :=
  match text with
  | '[' :: '[' :: rest => found? do
    let (key, rest) ← keyAt (rest.dropWhile isSpace)
    let document ← document.settle.openItem key
    let rest ← after? "]]".toList rest
    some (document, rest)
  | '[' :: rest => found? do
    let (key, rest) ← keyAt (rest.dropWhile isSpace)
    let document ← document.settle.openTable key
    let rest ← after? "]".toList rest
    some (document, rest)
  | _ => do
    let (key, value, rest) ← pairAt text
    let document ← found? (document.setPair key value)
    .ok (document, rest)

/-- Reads statements up to the end, one to a line. The first argument bounds their number. -/
def statementsFrom : Nat → Document → Text → Except Problem Document
  | 0, _, _ => .error .malformed
  | more + 1, document, text =>
    match text.dropWhile isSpace with
    | [] => .ok document
    | '\n' :: rest => statementsFrom more document rest
    | c :: rest =>
      let read := if c = '#' then .ok (document, c :: rest) else statementAt document (c :: rest)
      match read with
      | .error problem => .error problem
      | .ok (document, rest) =>
        match afterComment (rest.dropWhile isSpace) with
        | none => .error .malformed
        | some [] => .ok document
        | some ('\n' :: rest) => statementsFrom more document rest
        | some _ => .error .malformed

/-- The text with each pair of carriage return and line feed as a line feed. -/
def joinReturns : Text → Text
  | '\r' :: '\n' :: rest => '\n' :: joinReturns rest
  | c :: rest => c :: joinReturns rest
  | [] => []

/-- Reads a document. -/
def read (text : Text) : Except Problem Table :=
  let text := joinReturns text
  Document.table <$> statementsFrom (text.length + 1) {} text

end AddonBundle.Toml
