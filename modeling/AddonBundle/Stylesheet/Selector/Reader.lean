import AddonBundle.Stylesheet.Selector.Word
/-!
# Reading selectors

The words of a selector are taken one by one. What may come next depends on what came before, and
on the argument or attribute test that is open. A word that may not come makes the selector
unreadable, and one selector that cannot be read makes its whole list unreadable.
-/

namespace AddonBundle.Stylesheet

open Text

/-- What may come next in a selector. -/
inductive Expected where
  /-- An element starts here. -/
  | element
  /-- An element, another test of the one before, or a combinator. -/
  | anything
  /-- Another test of the same element, or a combinator. -/
  | test
  | combinator
  /-- The name that a namespace was given for. -/
  | elementName
  /-- The one part that is negated. -/
  | negated
  | negationEnd
  /-- The name of an attribute, with or without a namespace. -/
  | attributeName
  /-- The name of an attribute whose namespace was given. -/
  | attributeLocalName
  | comparison
  | operand
  | attributeEnd
  /-- The first word of an argument. -/
  | argument
  /-- Another word of an argument, or its end. -/
  | argumentRest
deriving Repr, DecidableEq

/-- Whether the name of an element may come. -/
def Expected.takesElement (expected : Expected) : Bool :=
  expected = .element || expected = .anything || expected = .negated

/-- Whether a test of an element may come: a class, an id, an attribute or a pseudo-class. -/
def Expected.takesTest (expected : Expected) : Bool :=
  expected.takesElement || expected = .test

/-- Whether a negation may come. -/
def Expected.takesNegation (expected : Expected) : Bool :=
  expected.takesTest && expected ≠ .negated

/-- Whether the name of an attribute may come. -/
def Expected.takesAttributeName (expected : Expected) : Bool :=
  expected = .attributeName || expected = .attributeLocalName

/-- Whether a combinator or a comparison may come. -/
def Expected.takesCombinator (expected : Expected) : Bool :=
  expected = .anything || expected = .test || expected = .combinator || expected = .comparison

/-- What is open around a word. -/
inductive Enclosure where
  | attribute
  | negation
  /-- The argument of a pseudo-class or a pseudo-element; it may be a selector. -/
  | function (ofElement isSelector : Bool)
deriving Repr, DecidableEq

/-- A selector read so far: what is open, innermost first, what may come next, the namespace of
the name that comes next, and the parts with the last one first. -/
structure Reading where
  enclosures : List Enclosure
  expected : Expected
  space : Space
  parts : List Part
deriving Repr

/-- The start of a selector. -/
def Reading.start : Reading := ⟨[], .element, .unqualified, []⟩

namespace Reading

/-- Whether an attribute test is open. -/
def inAttribute (reading : Reading) : Bool :=
  reading.enclosures.head? = some .attribute

/-- Whether a negation is open. -/
def inNegation (reading : Reading) : Bool :=
  reading.enclosures.head? = some .negation

/-- Whether the argument of a function is open. -/
def inFunction (reading : Reading) : Bool :=
  match reading.enclosures with
  | .function _ _ :: _ => true
  | _ => false

/-- The reading behind a part. -/
def add (reading : Reading) (part : Part) (expected : Expected) : Reading :=
  ⟨reading.enclosures, expected, .unqualified, part :: reading.parts⟩

/-- The reading behind a part that opens an enclosure. -/
def enter (reading : Reading) (part : Part) (enclosure : Enclosure) (expected : Expected) :
    Reading :=
  { reading.add part expected with enclosures := enclosure :: reading.enclosures }

/-- The reading behind a part that closes the innermost enclosure. -/
def leave (reading : Reading) (part : Part) (expected : Expected) : Reading :=
  { reading.add part expected with enclosures := reading.enclosures.drop 1 }

/-- The reading behind a part that takes the place of a blank before it. -/
def addTight (reading : Reading) (part : Part) (expected : Expected) : Reading :=
  match reading.parts with
  | [] => reading.add part expected
  | last :: before =>
    if last.isGap then { reading with parts := before }.add part expected
    else reading.add part expected

/-- The reading behind a test of an element; a negation has only one. -/
def addTest (reading : Reading) (part : Part) : Reading :=
  reading.add part (if reading.inNegation then .negationEnd else .test)

/-- A blank is kept in an argument, except behind a sign. Where a combinator may come it leads to a
descendant, and elsewhere it means nothing. -/
def blank (reading : Reading) : Reading :=
  if reading.inFunction then
    match reading.parts with
    | .plus :: _ => reading
    | .minus :: _ => reading
    | _ => { reading with parts := .gap :: reading.parts }
  else if !reading.inAttribute && reading.expected.takesCombinator then
    { reading with
      parts := .combinator .descendant :: reading.parts
      expected := .anything }
  else reading

/-- A name by itself: of an attribute, of what it is compared with, of an element, or a word of an
argument. -/
def identifier (reading : Reading) (name : Text) : Option Reading :=
  if reading.inAttribute && reading.expected.takesAttributeName then
    some (reading.add (.attribute reading.space name) .comparison)
  else if reading.inAttribute && reading.expected = .operand then
    some (reading.add (.word name) .attributeEnd)
  else if reading.inNegation then
    some (reading.add (.element reading.space name) .negationEnd)
  else if reading.expected.takesElement || reading.expected = .elementName then
    some (reading.add (.element reading.space name) .test)
  else if reading.inFunction then some (reading.add (.word name) .argumentRest)
  else none

/-- A string: what an attribute is compared with, or a word of an argument. -/
def string (reading : Reading) (value : Text) : Option Reading :=
  if reading.inAttribute && reading.expected = .operand then
    some (reading.add (.string value) .attributeEnd)
  else if reading.inFunction then some (reading.add (.string value) .argumentRest)
  else none

/-- A closing bracket ends an attribute test. -/
def closeBracket (reading : Reading) : Option Reading :=
  if reading.inAttribute &&
      (reading.expected = .comparison || reading.expected = .attributeEnd) then
    let outer := reading.leave .closeAttribute .test
    some (if outer.inNegation then { outer with expected := .negationEnd } else outer)
  else none

/-- A closing parenthesis ends a negation or an argument. An argument that is a selector may end
anywhere, any other behind its first word; a combinator follows a pseudo-element. -/
def closeParenthesis (reading : Reading) : Option Reading :=
  match reading.enclosures with
  | .negation :: _ =>
    if reading.expected = .negationEnd then some (reading.leave .closeArgument .anything)
    else none
  | .function ofElement isSelector :: _ =>
    if reading.expected = .argumentRest || isSelector then
      some (reading.leave .closeArgument (if ofElement then .combinator else .anything))
    else none
  | _ => none

/-- A combinator other than a descendant. -/
def combinator (reading : Reading) (kind : Combinator) : Option Reading :=
  if reading.expected.takesCombinator then
    some (reading.addTight (.combinator kind) .element)
  else none

/-- A character that stands alone. -/
def char (reading : Reading) (c : Char) : Option Reading :=
  if c = ']' then reading.closeBracket
  else if c = ')' then reading.closeParenthesis
  else if c = '+' && reading.inFunction then some (reading.addTight .plus .argumentRest)
  else if c = '-' && reading.inFunction then some (reading.add .minus .argumentRest)
  else if c = '[' then
    if reading.expected.takesTest || reading.expected.takesAttributeName then
      some (reading.enter .openAttribute .attribute .attributeName)
    else none
  else if c = '+' then reading.combinator .adjacent
  else if c = '>' then reading.combinator .child
  else if c = '~' then reading.combinator .sibling
  else none

/-- The reading behind a word, if it may come. -/
def step (reading : Reading) (word : Word) : Option Reading :=
  match word with
  | .token .blank => some reading.blank
  | .token (.identifier name) => reading.identifier name
  | .token (.string value) => reading.string value
  | .token (.number text) =>
    if reading.inFunction then some (reading.add (.number text) .argumentRest) else none
  | .token (.hash name) =>
    if reading.expected.takesTest then some (reading.addTest (.id name)) else none
  | .token (.comparison relation) =>
    if reading.inAttribute && reading.expected.takesCombinator then
      some (reading.add (.comparison relation) .operand)
    else none
  | .token (.char c) => reading.char c
  | .token _ => none
  | .colons => none
  | .ofClass name =>
    if reading.expected.takesTest then some (reading.addTest (.ofClass name)) else none
  | .universal space =>
    if reading.expected.takesElement then some (reading.addTest (.universal space)) else none
  | .qualifier none => none
  | .qualifier (some space) =>
    if reading.inAttribute && reading.expected = .attributeName then
      some { reading with expected := .attributeLocalName, space := space }
    else if reading.expected.takesElement then
      some { reading with expected := .elementName, space := space }
    else none
  | .negation =>
    if reading.expected.takesNegation then some (reading.enter .openNegation .negation .negated)
    else none
  | .pseudo name =>
    let name := pseudoName name
    if !reading.expected.takesTest then none
    else if isPseudoElement name && !reading.inNegation then
      some (reading.add (.pseudo name) .combinator)
    else some (reading.addTest (.pseudo name))
  | .function name =>
    let name := pseudoName name
    if !reading.expected.takesTest then none
    else
      some (reading.enter (.openFunction name)
        (.function ("::".toList.isPrefixOf name) (takesSelector name))
        (if takesSelector name then .element else .argument))

/-- The parts of a selector that is complete, without a blank at its end. -/
def finish (reading : Reading) : Option (List Part) :=
  if !reading.enclosures.isEmpty || reading.expected = .element ||
      reading.expected = .elementName then none
  else
    match reading.parts with
    | [] => none
    | last :: before => some (if last.isGap then before else last :: before).reverse

end Reading

/-- The parts of one selector. -/
def readSelector (tokens : List Token) : Option (List Part) := do
  let reading ← (words tokens).foldlM Reading.step Reading.start
  reading.finish

/-! ## Lists and statements -/

/-- How many brackets of each kind are open. -/
structure Depth where
  braces : Int
  brackets : Int
  parentheses : Int
deriving Repr, DecidableEq

/-- Outside all brackets. -/
def Depth.zero : Depth := ⟨0, 0, 0⟩

/-- The depth behind a token. -/
def Depth.after (depth : Depth) (token : Token) : Depth :=
  match token with
  | .char '\x7b' => { depth with braces := depth.braces + 1 }
  | .char '\x7d' => { depth with braces := depth.braces - 1 }
  | .char '[' => { depth with brackets := depth.brackets + 1 }
  | .char ']' => { depth with brackets := depth.brackets - 1 }
  | .char '(' => { depth with parentheses := depth.parentheses + 1 }
  | .function _ => { depth with parentheses := depth.parentheses + 1 }
  | .char ')' => { depth with parentheses := depth.parentheses - 1 }
  | _ => depth

/-- The tokens before the first of some characters behind which no bracket is open, that character,
and what follows it. Without one, all tokens. -/
def cutAt (ends : Text) : Depth → List Token → List Token × Option (Char × List Token)
  | _, [] => ([], none)
  | depth, token :: rest =>
    let next := depth.after token
    let further := fun _ : Unit =>
      let (taken, behind) := cutAt ends next rest
      (token :: taken, behind)
    match token with
    | .char c =>
      if next = Depth.zero && ends.contains c then ([], some (c, rest)) else further ()
    | _ => further ()

/-- The members of a list of selectors. The first argument bounds their number. -/
def members : Nat → List Token → List (List Token)
  | 0, _ => []
  | more + 1, tokens =>
    match cutAt [','] Depth.zero tokens with
    | (member, none) => [member]
    | (member, some (_, rest)) => member :: members more rest

/-- The selectors of a list, if all of them can be read. -/
def readList (tokens : List Token) : Option (List (List Part)) :=
  (members (tokens.length + 1) tokens).mapM readSelector

/-- The selectors of a rule: those before its opening brace. The rule ends with a closing brace or
with the text. -/
def readRule (tokens : List Token) (last : Option Char) : Option (List (List Part)) :=
  match cutAt ['\x7b'] ⟨-1, 0, 0⟩ tokens with
  | (_, none) => none
  | (selectors, some _) => if last = some ';' then none else readList selectors

/-- The selectors of the first rule that can be read. Statements end with a semicolon or a closing
brace outside brackets; at-rules are passed over. The first argument bounds their number. -/
def firstRule : Nat → List Token → Option (List (List Part))
  | 0, _ => none
  | more + 1, tokens =>
    match tokens.dropWhile fun token => token = .blank || token = .hidingMark with
    | [] => none
    | first :: rest =>
      let depth :=
        match first with
        | .char c => if "[(\x7b".toList.contains c then Depth.zero.after first else Depth.zero
        | _ => Depth.zero
      let (taken, behind) := cutAt [';', '\x7d'] depth rest
      let rule := if first = .atWord then none else readRule (first :: taken) (behind.map (·.1))
      match rule, behind with
      | some selectors, _ => some selectors
      | none, some (_, rest) => firstRule more rest
      | none, none => none

/-- Reads a prelude: the selectors of the rule that it makes together with an empty block. -/
def readSelectors (prelude : Text) : Option (List (List Part)) :=
  let tokens := tokens (prelude ++ " \x7b\x7d".toList)
  firstRule (tokens.length + 1) tokens

/-- The normal text of a prelude that can be read. -/
def normalSelector (prelude : Text) : Option Text :=
  selectorsText <$> readSelectors prelude

end AddonBundle.Stylesheet
