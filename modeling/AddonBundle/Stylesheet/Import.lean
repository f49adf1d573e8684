import AddonBundle.Text.Piece
/-!
# Comments and imports

Comments are dropped before anything else is read; one that is not closed is no comment. An import
names a stylesheet, quoted or in `url(…)`, and may go on with a media query up to its semicolon.
-/

namespace AddonBundle.Stylesheet

open Text

/-- The number of characters up to and including the end mark of a comment. -/
def commentRest : Text → Option Nat
  | [] => none
  | c :: rest =>
    if c = '*' && rest.head? = some '/' then some 2 else (· + 1) <$> commentRest rest

/-- Recognises a closed comment. -/
def recogniseComment : Recogniser Unit := fun _ text =>
  match text with
  | '/' :: '*' :: rest => (fun n => ((), n + 2)) <$> commentRest rest
  | _ => none

/-- The text without its comments. -/
def dropComments (text : Text) : Text :=
  substitute recogniseComment (fun _ => []) text

/-- An import: the stylesheet named and the media query behind it, both as written. -/
structure Import where
  target : Text
  media : Text
deriving Repr, DecidableEq

/-- Quotation marks. -/
def isMark (c : Char) : Bool :=
  c = '"' || c = '\''

/-- The target between `url(` and `)` from behind the opening parenthesis, and what follows. An
unquoted target of blanks only is the last of them. -/
def urlTarget (text : Text) : Option (Text × Text) :=
  let blanks := text.takeWhile isBlank
  match text.drop blanks.length with
  | [] => none
  | c :: rest =>
    if isMark c then
      let target := rest.takeWhile fun d => !isMark d && d ≠ ')'
      let behind := rest.drop target.length
      if target.isEmpty || behind.head? ≠ some c then none
      else (fun behind => (target, behind)) <$> after? [')'] ((behind.drop 1).dropWhile isBlank)
    else
      let target := (c :: rest).takeWhile fun d => !isMark d && d ≠ ')'
      let target' := if target.isEmpty then blanks.drop (blanks.length - 1) else target
      if target'.isEmpty then none
      else (fun behind => (target', behind)) <$> after? [')'] ((c :: rest).drop target.length)

/-- The target between quotation marks, and what follows. -/
def quotedTarget (text : Text) : Option (Text × Text) :=
  match text with
  | [] => none
  | c :: rest =>
    let target := rest.takeWhile fun d => !isMark d
    let behind := rest.drop target.length
    if isMark c && !target.isEmpty && behind.head? = some c then some (target, behind.drop 1)
    else none

/-- Recognises an import statement up to its semicolon. -/
def recogniseImport : Recogniser Import := fun _ text => do
  let rest ← after? "@import".toList text
  let blanks := rest.takeWhile isBlank
  if blanks.isEmpty then none
  else
    let rest := rest.drop blanks.length
    let (target, behind) ←
      match after? "url(".toList rest with
      | some inside => urlTarget inside
      | none => quotedTarget rest
    let behind := behind.dropWhile isBlank
    let media := behind.takeWhile fun c => c ≠ ';' && c ≠ '\x7b' && c ≠ '\x7d'
    let behind ← after? [';'] (behind.drop media.length)
    some (⟨target, media⟩, text.length - behind.length)

/-- Whether a target lies on another machine. -/
def isRemote (target : Text) : Bool :=
  "http:".toList.isPrefixOf target || "https:".toList.isPrefixOf target ||
    "//".toList.isPrefixOf target

end AddonBundle.Stylesheet
