import AddonBundle.Stylesheet.Token
/-!
# Selectors

A selector is a sequence of parts. Parts that follow each other directly test one element, and a
combinator leads from one element to the next. A part with an argument is written as an opening
part, the parts of the argument and a closing part, so that one sequence holds all of them.

This module holds the parts and their normal text: one blank for a descendant, one blank on both
sides of any other combinator, none before a closing mark, and strings in double quotes.
-/

namespace AddonBundle.Stylesheet

open Text

/-- How one element leads to the next. -/
inductive Combinator where
  | descendant
  | child
  | adjacent
  | sibling
deriving Repr, DecidableEq

/-- The text of a combinator. -/
def Combinator.text : Combinator → Text
  | .descendant => [' ']
  | .child => ['>']
  | .adjacent => ['+']
  | .sibling => ['~']

/-- The namespace that a name is looked up in. -/
inductive Space where
  | unqualified
  | any
  | empty
deriving Repr, DecidableEq

/-- What stands before a name in a namespace. -/
def Space.text : Space → Text
  | .unqualified => []
  | .any => "*|".toList
  | .empty => "|".toList

/-- A part of a selector. -/
inductive Part where
  | element (space : Space) (name : Text)
  | universal (space : Space)
  | ofClass (name : Text)
  | id (name : Text)
  /-- A pseudo-class or pseudo-element without an argument, with its colons. -/
  | pseudo (name : Text)
  /-- Opens the argument of a pseudo-class or pseudo-element, whose name has its colons. -/
  | openFunction (name : Text)
  | openNegation
  | closeArgument
  | openAttribute
  | attribute (space : Space) (name : Text)
  | comparison (relation : Comparison)
  | closeAttribute
  /-- A word that is compared with, or stands in an argument. -/
  | word (name : Text)
  | string (value : Text)
  | number (text : Text)
  | plus
  | minus
  /-- A blank in an argument. -/
  | gap
  | combinator (step : Combinator)
deriving Repr, DecidableEq

/-- A string in double quotes. A double quote in it is escaped, a line end is written by its code,
and a backslash at its end is doubled. -/
def stringText (value : Text) : Text :=
  let escaped := value.flatMap fun c =>
    if c = '"' then ['\\', '"']
    else if c = '\n' then "\\a ".toList
    else if c = '\r' then "\\d ".toList
    else if c = '\x0c' then "\\c ".toList
    else [c]
  let closed := if escaped.getLast? = some '\\' then escaped ++ ['\\'] else escaped
  '"' :: closed ++ ['"']

/-- The text of a part by itself. -/
def Part.text : Part → Text
  | .element space name => space.text ++ name
  | .universal space => space.text ++ ['*']
  | .ofClass name => '.' :: name
  | .id name => '#' :: name
  | .pseudo name => name
  | .openFunction name => name ++ ['(']
  | .openNegation => ":not(".toList
  | .closeArgument => [')']
  | .openAttribute => ['[']
  | .attribute space name => (if space = .any then space.text else []) ++ name
  | .comparison relation => relation.text
  | .closeAttribute => [']']
  | .word name => name
  | .string value => stringText value
  | .number text => text
  | .plus => ['+']
  | .minus => ['-']
  | .gap => [' ']
  | .combinator step => step.text

/-- Whether a part is a blank. -/
def Part.isGap (part : Part) : Bool :=
  part = .gap || part = .combinator .descendant

/-! ## The text of a selector

The texts of the parts are put together from left to right. What was written is kept with the last
text first. -/

/-- What was written, without a blank text at its end. -/
def dropGap : List Text → List Text
  | [] => []
  | last :: written => if last.all isBlank then written else last :: written

/-- Texts before which a blank is left out. -/
def isTight (text : Text) : Bool :=
  match text with
  | [c] => "+>~,:\x7b;)]/=\x7d".toList.contains c
  | _ => false

/-- Texts with a blank on both sides. -/
def isSpaced (text : Text) : Bool :=
  text = ['+'] || text = ['>'] || text = ['~']

/-- What is written once a part is added. A zero takes the place of the sign before it. -/
def writePart (written : List Text) (part : Part) : List Text :=
  let text := part.text
  let written :=
    if isTight text then dropGap written
    else if part = .number ['0'] && written.head? = some ['-'] then written.drop 1
    else written
  let written := if text.getLast? = some ' ' then dropGap written else written
  if isSpaced text then [' '] :: text :: [' '] :: written else text :: written

/-- The text of a sequence of parts. -/
def partsText (parts : List Part) : Text :=
  (dropGap (parts.foldl writePart [])).reverse.flatten

/-- The text of a list of selectors. -/
def selectorsText (selectors : List (List Part)) : Text :=
  join ", ".toList (selectors.map partsText)

end AddonBundle.Stylesheet
