import AddonBundle.Bundle.Run
import AddonBundle.Proofs.Bundle.Linking
import AddonBundle.Proofs.CodePoint
import Mathlib.Data.Set.Insert
/-!
# What is due in the output

The files that a run calls for, and the contents due under the key of each. Both are read off the
collection and the settings alone.
-/

namespace AddonBundle

/-! ## Writing a text of characters -/

namespace Utf8

private theorem encodeFrom_ofText (pos : Nat) (text : Text) :
    encodeFrom pos (CodePoint.ofText text) = .ok (encode text) := by
  induction text generalizing pos with
  | nil => rfl
  | cons c rest ih =>
      have hrest : encodeFrom (pos + 1) (rest.map CodePoint.ofChar) = .ok (encode rest) :=
        ih (pos + 1)
      rw [CodePoint.ofText, List.map_cons, encodeFrom, CodePoint.isSurrogate_ofChar, if_neg (by simp),
        hrest]
      rfl

/-- A text of characters can always be written. -/
theorem encodeCode_ofText (text : Text) :
    encodeCode (CodePoint.ofText text) = .ok (encode text) :=
  encodeFrom_ofText 0 text

private theorem isWhole_of_encodeFrom {pos : Nat} {text : CodeText} {bytes : Bytes}
    (h : encodeFrom pos text = .ok bytes) : CodePoint.IsWhole text := by
  induction text generalizing pos bytes with
  | nil => exact CodePoint.isWhole_nil
  | cons p rest ih =>
      rw [encodeFrom] at h
      split at h
      · cases h
      · rename_i hp
        cases hrest : encodeFrom (pos + 1) rest with
        | error e =>
            rw [hrest] at h
            cases h
        | ok front => exact CodePoint.isWhole_cons.mpr ⟨by simpa using hp, ih hrest⟩

/-- A code text can be written exactly when it holds no lone half of a surrogate pair. -/
theorem exists_encodeCode_iff {text : CodeText} :
    (∃ bytes, encodeCode text = .ok bytes) ↔ CodePoint.IsWhole text := by
  constructor
  · rintro ⟨bytes, h⟩
    exact isWhole_of_encodeFrom h
  · intro h
    obtain ⟨characters, rfl⟩ := CodePoint.isWhole_iff.mp h
    exact ⟨_, encodeCode_ofText characters⟩

end Utf8

namespace Bundle

open Text

/-! ## Contents -/

/-- The text of a linked script. -/
def linkedText (source : Tree) (extensions : List Text) (path text : Text) : Text :=
  if Script.mentionsRoot text then
    (Script.link (Script.treeMedia source extensions (Path.parent path)) path text).text
  else text

/-- The text of a file of a tree. -/
def textAt (tree : Tree) (key : Text) : Option Text :=
  (tree.get? key).bind fun bytes => (Utf8.decode bytes).toOption

/-- What becomes of a file of an addon. -/
def bundledBytes (source : Tree) (settings : Settings) (key : Text) : Option Bytes :=
  match FileKind.ofPath key with
  | .script => (textAt source key).map fun text =>
      Utf8.encode (License.stamp settings.header
        (linkedText source settings.extensions key text))
  | .stylesheet => (textAt source key).map fun text =>
      Utf8.encode (License.stamp settings.header text)
  | .other => source.get? key

/-- The catalog that a file of a tree holds. -/
def catalogAt (tree : Tree) (key : Text) : Option Json.Value :=
  (textAt tree key).bind fun text => (Json.read text).toOption

/-- What becomes of a catalog. -/
def catalogBytes (source : Tree) (key : Text) : Option Bytes :=
  (catalogAt source key).bind fun catalog => (Utf8.encodeCode (Json.minimal catalog)).toOption

/-- The contents due in the output: by what directory the key is in. -/
def due (source : Tree) (settings : Settings) (key : Text) : Option Bytes :=
  if (addonsDir ++ ['/']).isPrefixOf key then bundledBytes source settings key
  else if (catalogsDir ++ ['/']).isPrefixOf key then catalogBytes source key
  else source.get? key

/-! ## Files -/

/-- The path of a file of an addon. -/
def addonFile (addon file : Text) : Text :=
  addonsDir ++ '/' :: addon ++ '/' :: file

/-- The text of a script of a tree. -/
def scriptAt (tree : Tree) (path : Text) : Option Text :=
  if FileKind.ofPath path = .script then textAt tree path else none

/-- The libraries that a script refers to. -/
def librariesFor (source : Tree) (path : Text) : Set Text :=
  { key | ∃ text, scriptAt source path = some text ∧
    ∃ reference ∈ Script.libraryReferences text, key = libraryPath reference.file }

/-- The files of the output that a file of an addon calls for. -/
def filesFor (source : Tree) (path : Text) : Set Text :=
  librariesFor source path ∪ {path}

/-- The files of the output that an addon calls for. -/
def addonFiles (source : Tree) (addon : Text) : Set Text :=
  { key | ∃ file, addonFile addon file ∈ source.keys ∧ key ∈ filesFor source (addonFile addon file) }

/-- The catalogs of addons in languages. -/
def catalogFiles (source : Tree) (languages addons : List Text) : Set Text :=
  { key | ∃ language ∈ languages, ∃ addon ∈ addons,
    key = catalogPath language addon ∧ key ∈ source.keys }

theorem due_addonFile (source : Tree) (settings : Settings) (addon file : Text) :
    due source settings (addonFile addon file) =
      bundledBytes source settings (addonFile addon file) := by
  rw [due, if_pos]
  rw [List.isPrefixOf_iff_prefix]
  exact ⟨addon ++ '/' :: file, by simp [addonFile]⟩

theorem due_libraryPath (source : Tree) (settings : Settings) (file : Text) :
    due source settings (libraryPath file) = source.get? (libraryPath file) := by
  rw [due, if_neg, if_neg]
  · exact Bool.false_ne_true
  · exact Bool.false_ne_true

theorem due_catalogPath (source : Tree) (settings : Settings) (language addon : Text) :
    due source settings (catalogPath language addon) =
      catalogBytes source (catalogPath language addon) := by
  rw [due, if_neg, if_pos]
  · rw [List.isPrefixOf_iff_prefix]
    exact ⟨language ++ '/' :: addon ++ ".json".toList, by simp [catalogPath]⟩
  · exact Bool.false_ne_true

end Bundle

end AddonBundle
