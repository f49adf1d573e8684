import AddonBundle.Text.Basic
/-!
# Paths inside a tree

Paths are texts with parts divided by slashes. `normalize` drops empty parts and `.`, and lets
`..` take back the part before it. A tree finds its entries under the `key` of a path, where
backslashes divide parts too and a leading slash has no meaning.
-/

namespace AddonBundle.Path

open Text

/-- The slashes a normalized path starts with: none, one, or exactly two. -/
def leadingSlashes (path : Text) : Nat :=
  match path with
  | '/' :: '/' :: '/' :: _ => 1
  | '/' :: '/' :: _ => 2
  | '/' :: _ => 1
  | _ => 0

/-- Adds a part to the parts before it, which are held last first. -/
def pushPart (rooted : Bool) (done : List Text) (part : Text) : List Text :=
  if part = [] || part = ['.'] then done
  else if part ≠ "..".toList then part :: done
  else
    match done with
    | [] => if rooted then [] else [part]
    | last :: before => if last = "..".toList then part :: done else before

/-- The parts of a path after normalization. -/
def parts (path : Text) : List Text :=
  ((split '/' path).foldl (pushPart (leadingSlashes path ≠ 0)) []).reverse

/-- The normal form of a path; the empty path is `.`. -/
def normalize (path : Text) : Text :=
  let body := List.replicate (leadingSlashes path) '/' ++ join ['/'] (parts path)
  if body.isEmpty then ['.'] else body

/-- A path below another; one that starts with a slash stands for itself. -/
def append (base path : Text) : Text :=
  if path.head? = some '/' then path
  else if base.isEmpty || base.getLast? = some '/' then base ++ path
  else base ++ '/' :: path

/-- The text up to the last slash, that slash included. -/
def throughLastSlash (path : Text) : Text :=
  (path.reverse.dropWhile (· ≠ '/')).reverse

/-- The path of the directory that holds an entry. -/
def parent (path : Text) : Text :=
  let head := throughLastSlash path
  if head.all (· = '/') then head
  else (head.reverse.dropWhile (· = '/')).reverse

/-- The name of an entry in its directory. -/
def name (path : Text) : Text :=
  (path.reverse.takeWhile (· ≠ '/')).reverse

/-- How many parts two paths share at their start. -/
def sharedParts : List Text → List Text → Nat
  | a :: as, b :: bs => if a = b then sharedParts as bs + 1 else 0
  | _, _ => 0

/-- The way from a directory to a path, both seen from the same place. -/
def relative (path start : Text) : Text :=
  let target := parts path
  let base := parts start
  let shared := sharedParts base target
  let steps := List.replicate (base.length - shared) "..".toList ++ target.drop shared
  if steps.isEmpty then ['.'] else join ['/'] steps

/-- The key under which a tree holds the entry of a path; the root's is empty. -/
def key (path : Text) : Text :=
  if path.isEmpty then []
  else
    let clean := normalize (path.map fun c => if c = '\\' then '/' else c)
    if clean = ['.'] then [] else clean.dropWhile (· = '/')

end AddonBundle.Path
