import AddonBundle.Text.Piece
import AddonBundle.Text.Style
/-!
# Console markup

Messages for the console mark up parts of themselves with tags such as `[path]`. A tag starts
with a lower-case letter or one of `#`, `/`, `@`, and a backslash before it takes its meaning
away. A closing tag starts with a slash and ends the innermost style of its name, or the innermost
of all when it has none. Escaping makes any text safe to show, `markupFault?` tells what keeps a
text from being shown, and `plain` gives what the console shows.
-/

namespace AddonBundle.Text

/-- A tag with the backslashes that stand before it. -/
structure Tag where
  slashes : Nat
  body : Text
deriving Repr, DecidableEq

/-- The characters a tag may start with. -/
def isTagStart (c : Char) : Bool :=
  ('a' ≤ c && c ≤ 'z') || c = '#' || c = '/' || c = '@'

/-- The rest of a tag up to its closing bracket; no other opening bracket may come first. -/
def tagBody : Text → Option Text
  | [] => none
  | c :: rest =>
    if c = ']' then some [c]
    else if c = '[' then none
    else (c :: ·) <$> tagBody rest

/-- A tag at the start of a text. -/
def tagAt (text : Text) : Option Text :=
  match text with
  | '[' :: c :: rest =>
    if isTagStart c then (fun body => '[' :: c :: body) <$> tagBody rest else none
  | _ => none

/-- Recognises a tag together with the backslashes before it. -/
def recogniseTag : Recogniser Tag := fun _ text =>
  let slashes := (text.takeWhile (· = '\\')).length
  match tagAt (text.drop slashes) with
  | some body => some (⟨slashes, body⟩, slashes + body.length)
  | none => none

/-- The text with its tags made harmless. -/
def escapeMarkup (text : Text) : Text :=
  let escaped := substitute recogniseTag
    (fun tag => List.replicate (2 * tag.slashes + 1) '\\' ++ tag.body) text
  if "\\".toList.isSuffixOf escaped && !("\\\\".toList.isSuffixOf escaped) then escaped ++ ['\\']
  else escaped

/-- Whether a tag means something: the backslashes before it stand for each other. -/
def Tag.isActive (tag : Tag) : Bool :=
  tag.slashes % 2 = 0

/-- The name of a tag, up to an equals sign. -/
def Tag.name (tag : Tag) : Text :=
  (tag.body.drop 1).dropLast.takeWhile (· ≠ '=')

/-- Why a text cannot be shown. -/
inductive MarkupFault where
  /-- A closing tag names a style that is not open. -/
  | unmatched (tag : Text) (position : Nat)
  /-- A closing tag without a name stands where no style is open. -/
  | nothingOpen (position : Nat)
deriving Repr, DecidableEq

/-- The wording of a fault. -/
def MarkupFault.message : MarkupFault → Text
  | .unmatched tag position =>
    "closing tag '".toList ++ tag ++ "' at position ".toList ++ ofNat position ++
      " doesn't match any open tag".toList
  | .nothingOpen position =>
    "closing tag '[/]' at position ".toList ++ ofNat position ++ " has nothing to close".toList

/-- The styles that are open behind a tag, innermost first. -/
def openBehind (opened : List Text) (found : Found Tag) : Except MarkupFault (List Text) :=
  let position := found.start + found.value.slashes
  if !found.value.isActive then .ok opened
  else
    match found.value.name with
    | '/' :: name =>
      if (trim name).isEmpty then
        match opened with
        | [] => .error (.nothingOpen position)
        | _ :: outer => .ok outer
      else
        let style := styleName (trim name)
        if opened.contains style then .ok (opened.erase style)
        else .error (.unmatched found.value.body position)
    | name => .ok (styleName name :: opened)

/-- What keeps a text from being shown, if anything does. -/
def markupFault? (text : Text) : Option MarkupFault :=
  match (findAll recogniseTag text).foldlM openBehind [] with
  | .ok _ => none
  | .error fault => some fault

/-- Something that the console does not show as it is written: a tag, or a backslash before a
bracket that opens none. -/
inductive Mark where
  | tag (t : Tag)
  | bracket
deriving Repr, DecidableEq

/-- Recognises a mark. -/
def recogniseMark : Recogniser Mark := fun before text =>
  match recogniseTag before text, text with
  | some (tag, length), _ => some (.tag tag, length)
  | none, '\\' :: '[' :: _ => some (.bracket, 2)
  | none, _ => none

/-- What the console shows for a mark: backslashes before a tag come in pairs that stand for one,
an odd one keeps the tag as text, and any other tag is not shown. -/
def Mark.shown : Mark → Text
  | .tag t => List.replicate (t.slashes / 2) '\\' ++ (if t.slashes % 2 = 1 then t.body else [])
  | .bracket => ['[']

/-- What the console shows of a marked-up text. -/
def plain (text : Text) : Text :=
  substitute recogniseMark Mark.shown text

end AddonBundle.Text
