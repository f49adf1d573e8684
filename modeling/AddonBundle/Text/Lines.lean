import AddonBundle.Text.Basic
/-!
# Lines

Line ends made uniform, and the line and column of an offset.
-/

namespace AddonBundle.Text

/-- Every line end, whatever its form, as a line feed. -/
def uniformLines : Text → Text
  | [] => []
  | '\r' :: '\n' :: rest => '\n' :: uniformLines rest
  | c :: rest => (if c = '\r' then '\n' else c) :: uniformLines rest

/-- A place in a text: its line and column, counted from one. -/
structure Place where
  line : Nat
  column : Nat
deriving Repr, DecidableEq

/-- The place of an offset. -/
def placeOf (text : Text) (offset : Nat) : Place :=
  let before := text.take offset
  ⟨before.count '\n' + 1, (before.reverse.takeWhile (· ≠ '\n')).length + 1⟩

end AddonBundle.Text
