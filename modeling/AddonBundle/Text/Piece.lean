import AddonBundle.Text.Basic
/-!
# Pieces of a text

A recogniser is asked, at each character from left to right, whether an item of interest starts
there. The answer splits a text into items and the plain characters between them. Items never
overlap: the search goes on behind the last one.

The main law is `texts_pieces`: the pieces put together are the text again, whatever the
recogniser.
-/

namespace AddonBundle.Text

/-- Asked with the character before and the text from here on: the item that starts here, and
how many characters it has. -/
abbrev Recogniser (α : Type) := Option Char → Text → Option (α × Nat)

/-- A plain character, or an item with its text. -/
inductive Piece (α : Type) where
  | plain (c : Char)
  | item (value : α) (text : Text)
deriving Repr, DecidableEq

/-- The characters of a piece. -/
def Piece.text {α : Type} : Piece α → Text
  | .plain c => [c]
  | .item _ text => text

/-- The pieces of a text, after a character and when a number of characters belong to the item
before. -/
def piecesFrom {α : Type} (recognise : Recogniser α) :
    Option Char → Nat → Text → List (Piece α)
  | _, _, [] => []
  | _, skip + 1, c :: rest => piecesFrom recognise (some c) skip rest
  | before, 0, c :: rest =>
    match recognise before (c :: rest) with
    | none => .plain c :: piecesFrom recognise (some c) 0 rest
    | some (value, length) =>
      .item value (c :: rest.take (length - 1)) ::
        piecesFrom recognise (some c) (length - 1) rest

/-- The pieces of a text. -/
def pieces {α : Type} (recognise : Recogniser α) (text : Text) : List (Piece α) :=
  piecesFrom recognise none 0 text

/-- The pieces put together are the text less what belonged to the item before. -/
theorem texts_piecesFrom {α : Type} (recognise : Recogniser α) (before : Option Char)
    (skip : Nat) (text : Text) :
    (piecesFrom recognise before skip text).flatMap Piece.text = text.drop skip := by
  induction text generalizing before skip with
  | nil => simp [piecesFrom]
  | cons c rest ih =>
      cases skip with
      | succ skip => simp [piecesFrom, ih]
      | zero =>
          rw [piecesFrom]
          split
          · simp [Piece.text, ih]
          · simp [Piece.text, ih]

/-- The pieces put together are the text. -/
theorem texts_pieces {α : Type} (recognise : Recogniser α) (text : Text) :
    (pieces recognise text).flatMap Piece.text = text := by
  simp [pieces, texts_piecesFrom]

/-- An item with the offsets of its first character and of the character behind it. -/
structure Found (α : Type) where
  value : α
  start : Nat
  stop : Nat
deriving Repr, DecidableEq

/-- The items among pieces that start at an offset. -/
def foundFrom {α : Type} : Nat → List (Piece α) → List (Found α)
  | _, [] => []
  | pos, .plain _ :: rest => foundFrom (pos + 1) rest
  | pos, .item value text :: rest =>
    ⟨value, pos, pos + text.length⟩ :: foundFrom (pos + text.length) rest

/-- The items of a text with their offsets, in order. -/
def findAll {α : Type} (recognise : Recogniser α) (text : Text) : List (Found α) :=
  foundFrom 0 (pieces recognise text)

/-- The text with each item replaced. -/
def substitute {α : Type} (recognise : Recogniser α) (replace : α → Text) (text : Text) :
    Text :=
  (pieces recognise text).flatMap fun
    | .plain c => [c]
    | .item value _ => replace value

end AddonBundle.Text
