import AddonBundle.Stylesheet.Quoting
/-!
# Blocks of a stylesheet

The top level of a stylesheet is a sequence of statements that end in a semicolon and of blocks
`prelude { body }`. The body of a rule is a sequence of declarations, nested blocks and
at-statements, of which only the rule's own declarations are kept.
-/

namespace AddonBundle.Stylesheet

open Text

/-- A block at the top level. -/
structure Block where
  /-- What stands before the braces, trimmed. -/
  prelude : Text
  /-- What stands between them. -/
  body : Text
deriving Repr, DecidableEq

/-- Whether the block belongs to an at-rule. -/
def Block.isAtRule (block : Block) : Bool :=
  block.prelude.head? = some '@'

mutual

/-- The blocks of a text, outside all of them. The start of the current statement is held last
character first. -/
def blocksOutside (quoting : Quoting) (start : Text) : Text → List Block
  | [] => []
  | c :: rest =>
    if quoting.isStructure c && c = ';' then blocksOutside .bare [] rest
    else if quoting.isStructure c && c = '\x7b' then blocksInside .bare 0 start [] rest
    else blocksOutside (quoting.step c) (c :: start) rest

/-- The blocks of a text, inside the one with the given prelude and under a number of nested
braces. Prelude and body are held last character first. A block that is not closed reaches to
the end. -/
def blocksInside (quoting : Quoting) (nested : Nat) (start body : Text) : Text → List Block
  | [] => [⟨trim start.reverse, body.reverse⟩]
  | c :: rest =>
    if quoting.isStructure c && c = '\x7b' then
      blocksInside .bare (nested + 1) start (c :: body) rest
    else if quoting.isStructure c && c = '\x7d' then
      match nested with
      | 0 => ⟨trim start.reverse, body.reverse⟩ :: blocksOutside .bare [] rest
      | nested + 1 => blocksInside .bare nested start (c :: body) rest
    else blocksInside (quoting.step c) nested start (c :: body) rest

end

/-- The blocks at the top level of a stylesheet, in order. -/
def blocks (text : Text) : List Block :=
  blocksOutside .bare [] text

mutual

/-- The segments of a body between semicolons, under a number of open parentheses. The current
segment is held last character first. A nested block takes the text before it with it, and so
does a closing brace on its own. -/
def segmentsOutside (quoting : Quoting) (parens : Nat) (start : Text) : Text → List Text
  | [] => [start.reverse]
  | c :: rest =>
    if quoting.isStructure c then
      if c = '(' then segmentsOutside .bare (parens + 1) (c :: start) rest
      else if c = ')' then segmentsOutside .bare (parens - 1) (c :: start) rest
      else if c = ';' && parens = 0 then start.reverse :: segmentsOutside .bare 0 [] rest
      else if c = '\x7b' && parens = 0 then segmentsInside .bare 0 rest
      else if c = '\x7d' && parens = 0 then segmentsOutside .bare 0 [] rest
      else segmentsOutside .bare parens (c :: start) rest
    else segmentsOutside (quoting.step c) parens (c :: start) rest

/-- The segments behind a nested block, inside it and under a number of braces of its own. -/
def segmentsInside (quoting : Quoting) (nested : Nat) : Text → List Text
  | [] => [[]]
  | c :: rest =>
    if quoting.isStructure c && c = '\x7b' then segmentsInside .bare (nested + 1) rest
    else if quoting.isStructure c && c = '\x7d' then
      match nested with
      | 0 => segmentsOutside .bare 0 [] rest
      | nested + 1 => segmentsInside .bare nested rest
    else segmentsInside (quoting.step c) nested rest

end

/-- A property and its value as written. -/
structure Declaration where
  property : Text
  value : Text
deriving Repr, DecidableEq

/-- The declaration of a segment: what stands before and behind its first colon, trimmed. A
segment without a colon, without a property or with an at-sign at its start is none. -/
def declaration? (segment : Text) : Option Declaration :=
  let segment := trim segment
  if segment.head? = some '@' then none
  else
    match segment.dropWhile (· ≠ ':') with
    | [] => none
    | _ :: value =>
      let property := trim (segment.takeWhile (· ≠ ':'))
      if property.isEmpty then none else some ⟨property, trim value⟩

/-- The declarations of a body, in order. -/
def declarations (body : Text) : List Declaration :=
  (segmentsOutside .bare 0 [] body).filterMap declaration?

/-- A rule on one line: the selector, and the declarations in braces. -/
def renderRule (selector : Text) (declarations : List Declaration) : Text :=
  selector ++ " \x7b".toList ++
    declarations.flatMap (fun d => d.property ++ ':' :: d.value ++ [';']) ++ "\x7d\n".toList

end AddonBundle.Stylesheet
