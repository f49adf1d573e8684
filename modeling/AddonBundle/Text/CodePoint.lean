import AddonBundle.Text.Basic
/-!
# Code points

Escapes in data formats can name a half of a surrogate pair, which is a code point but no
character. Texts that may hold such halves are lists of code points.
-/

namespace AddonBundle

/-- A number below the end of the code space, surrogates included. -/
abbrev CodePoint := Fin 0x110000

/-- A text whose code points need not be characters. -/
abbrev CodeText := List CodePoint

namespace CodePoint

/-- The code point of a character. -/
def ofChar (c : Char) : CodePoint :=
  ⟨c.toNat, by
    have h := c.valid
    simp only [UInt32.isValidChar, Nat.isValidChar] at h
    simp only [Char.toNat]
    omega⟩

/-- Halves of surrogate pairs. -/
def isSurrogate (p : CodePoint) : Bool :=
  0xd800 ≤ p.val && p.val ≤ 0xdfff

/-- The character of a code point, unless it is half of a surrogate pair. -/
def toChar? (p : CodePoint) : Option Char :=
  if isSurrogate p then none else some (Char.ofNat p.val)

/-- The code points of a text. -/
def ofText (text : Text) : CodeText :=
  text.map ofChar

/-- The characters of a code text, with a replacement character for each lone half. -/
def toText (text : CodeText) : Text :=
  text.map fun p => (toChar? p).getD '\ufffd'

end CodePoint

end AddonBundle
