import AddonBundle.Config.Setting
import AddonBundle.License
import AddonBundle.Script.Linking
/-!
# Configurations

A configuration is made of settings field by field. Every field that does not fit is reported, in
the order of the fields; fields without a setting have their default, and unknown ones are passed
over.
-/

namespace AddonBundle

/-- What a run is configured to do. -/
structure Config where
  /-- The collection. -/
  source : Location := ⟨0, ["upstream".toList]⟩
  /-- Where the bundle goes. -/
  output : Location := {}
  /-- The host, with the stylesheets of its components. -/
  host : Location := ⟨0, ["..".toList]⟩
  /-- The addons to bundle, in order. -/
  addons : List Text := []
  /-- The file that lists the addons. -/
  addonsFile : Option Location := none
  /-- The extensions of media files. -/
  extensions : List Text := Script.defaultExtensions
  /-- The licence header. -/
  header : Text := License.defaultHeader
  /-- Whether what an earlier run wrote is removed first. -/
  clean : Bool := true
  /-- Where the collection is cloned from. -/
  cloneUrl : Option Text := none
  /-- The branch to clone. -/
  cloneBranch : Option Text := none
deriving Repr, DecidableEq

namespace Config

/-- Why a setting does not fit its field. -/
inductive Mismatch where
  | notPath
  | notList
  | notText
  | brokenText
  | notBool
  | unreadableBool
  | refused
deriving Repr, DecidableEq

/-- The name of a mismatch. -/
def Mismatch.name : Mismatch → Text
  | .notPath => "path_type".toList
  | .notList => "list_type".toList
  | .notText => "string_type".toList
  | .brokenText => "string_unicode".toList
  | .notBool => "bool_type".toList
  | .unreadableBool => "bool_parsing".toList
  | .refused => "value_error".toList

/-- A setting that does not fit: the field and, in a list, the place in it. -/
structure Issue where
  place : List Text
  mismatch : Mismatch
deriving Repr, DecidableEq

/-- An issue of the item at a place in a list. -/
def Issue.within (index : Nat) (issue : Issue) : Issue :=
  { issue with place := Text.ofNat index :: issue.place }

/-- The outcome for one field: its value, or what does not fit, from the field on. -/
abbrev Checked (α : Type) := Except (List Issue) α

/-- A mismatch of a whole field. -/
def misfit {α : Type} (mismatch : Mismatch) : Checked α :=
  .error [⟨[], mismatch⟩]

/-- A field that is a path. -/
def checkLocation : Setting → Checked Location
  | .text s => .ok (Location.ofText s)
  | .location l => .ok l
  | _ => misfit .notPath

/-- A field that is a text. -/
def checkText : Setting → Checked Text
  | .text s => .ok s
  | .brokenText => misfit .brokenText
  | _ => misfit .notText

/-- A field that may be left empty. -/
def checkOptional {α : Type} (check : Setting → Checked α) : Setting → Checked (Option α)
  | .missing => .ok none
  | setting => some <$> check setting

/-- The texts of a list from a place on, or all items that are none. -/
def checkTexts : Nat → List Setting → Checked (List Text)
  | _, [] => .ok []
  | index, item :: items =>
    match checkText item, checkTexts (index + 1) items with
    | .ok s, .ok texts => .ok (s :: texts)
    | .ok _, .error issues => .error issues
    | .error found, .ok _ => .error (found.map (·.within index))
    | .error found, .error issues => .error (found.map (·.within index) ++ issues)

/-- A field that is a list of texts. -/
def checkList : Setting → Checked (List Text)
  | .list items => checkTexts 0 items
  | _ => misfit .notList

/-- The addons of a list: none may be blank; blanks around them and repetitions are dropped. -/
def cleanAddons (addons : List Text) : Checked (List Text) :=
  if addons.any fun a => (Text.trim a).isEmpty then misfit .refused
  else .ok (Text.distinct (addons.map Text.trim))

/-- An extension in lower case and with a point before it; nothing for a blank one. -/
def cleanExtension (extension : Text) : Option Text :=
  let extension := Text.lower (Text.trim extension)
  if extension.isEmpty then none
  else if extension.head? = some '.' then some extension
  else some ('.' :: extension)

/-- The words for yes. -/
def yesWords : List Text :=
  ["1".toList, "on".toList, "t".toList, "true".toList, "y".toList, "yes".toList]

/-- The words for no. -/
def noWords : List Text :=
  ["0".toList, "off".toList, "f".toList, "false".toList, "n".toList, "no".toList]

/-- A field that is yes or no: a word for it in any case of letters, or a number that is one or
zero. -/
def checkBool : Setting → Checked Bool
  | .bool b => .ok b
  | .int n =>
    if n = 0 then .ok false
    else if n = 1 then .ok true
    else if -Int.pow 2 63 ≤ n && n < Int.pow 2 63 then misfit .unreadableBool
    else misfit .notBool
  | .double d =>
    if d.magnitude = 0 then .ok false
    else if d = Double.ofDecimal false 1 0 then .ok true
    else if d.isInteger &&
        d.magnitude < Double.magnitude (Double.ofDecimal false (Nat.pow 2 63) 0) then
      misfit .unreadableBool
    else misfit .notBool
  | .brokenText => misfit .brokenText
  | .text s =>
    let word := s.map Char.toLower
    if yesWords.contains word then .ok true
    else if noWords.contains word then .ok false
    else misfit .unreadableBool
  | _ => misfit .notBool

/-- The value of a field: its default without a setting, else what its setting gives. Issues name
the field. -/
def field {α : Type} (settings : Settings) (name : Text) (default : α)
    (check : Setting → Checked α) : Checked α :=
  match Assoc.get? name settings with
  | none => .ok default
  | some setting =>
    match check setting with
    | .ok value => .ok value
    | .error issues => .error (issues.map fun issue => ⟨name :: issue.place, issue.mismatch⟩)

/-- The issues of an outcome. -/
def Checked.issues {α : Type} : Checked α → List Issue
  | .ok _ => []
  | .error issues => issues

/-- The value of an outcome, or a default. -/
def Checked.getD {α : Type} (outcome : Checked α) (default : α) : α :=
  match outcome with
  | .ok value => value
  | .error _ => default

/-- The configuration that settings give, or everything that does not fit. -/
def ofSettings (settings : Settings) : Checked Config :=
  let d : Config := {}
  let source := field settings "source_root".toList d.source checkLocation
  let output := field settings "output_root".toList d.output checkLocation
  let host := field settings "host_root".toList d.host checkLocation
  let addons := field settings "addons".toList d.addons fun s => checkList s >>= cleanAddons
  let addonsFile := field settings "addons_file".toList d.addonsFile (checkOptional checkLocation)
  let extensions := field settings "asset_extensions".toList d.extensions fun s =>
    (fun texts => texts.filterMap cleanExtension) <$> checkList s
  let header := field settings "license_header".toList d.header checkText
  let clean := field settings "clean_output".toList d.clean checkBool
  let cloneUrl := field settings "upstream_url".toList d.cloneUrl (checkOptional checkText)
  let cloneBranch := field settings "upstream_branch".toList d.cloneBranch (checkOptional checkText)
  let issues := source.issues ++ output.issues ++ host.issues ++ addons.issues ++
    addonsFile.issues ++ extensions.issues ++ header.issues ++ clean.issues ++ cloneUrl.issues ++
    cloneBranch.issues
  if issues.isEmpty then
    .ok
      { source := source.getD d.source, output := output.getD d.output, host := host.getD d.host
        addons := addons.getD d.addons, addonsFile := addonsFile.getD d.addonsFile
        extensions := extensions.getD d.extensions, header := header.getD d.header
        clean := clean.getD d.clean, cloneUrl := cloneUrl.getD d.cloneUrl
        cloneBranch := cloneBranch.getD d.cloneBranch }
  else .error issues

end Config

end AddonBundle
