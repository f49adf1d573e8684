import AddonBundle.Config.Basic
import AddonBundle.Disk
import AddonBundle.Log
import AddonBundle.Text.Lines
import AddonBundle.Toml.Document
/-!
# Loading configurations

Settings come from the project document nearest to a directory, upwards, and from overrides, which
win. Paths in the document are seen from the document's directory. A document that cannot be read
as TOML is passed over with a warning, and no other one is looked for.
-/

namespace AddonBundle.Config

/-- Why no configuration could be loaded. -/
inductive LoadFailure where
  /-- The document is no text. -/
  | undecodable (error : Utf8.DecodeError)
  /-- A value in the document stands where a table is needed for an operation. -/
  | notTable (type operation : Text)
  /-- A value in the document stands where a path is needed. -/
  | notPath (type : Text)
  /-- A path that must be followed has a null character in it. -/
  | nullCharacter
  /-- The disk refuses to be searched. -/
  | refused (refusal : Refusal)
  /-- The document passes a limit. -/
  | limit (passed : Limit)
  /-- A warning cannot be shown. -/
  | unshowable (fault : Text.MarkupFault)
  /-- Settings do not fit their fields. -/
  | invalid (issues : List Issue)
deriving Repr, DecidableEq

/-- The wording of a failure. -/
def LoadFailure.message : LoadFailure → Text
  | .undecodable error => error.message
  | .notTable type operation =>
    '\'' :: type ++ "' object has no attribute '".toList ++ operation ++ ['\'']
  | .notPath type => "expected str, bytes or os.PathLike object, not ".toList ++ type
  | .nullCharacter => Refusal.Kind.nullCharacter.message
  | .refused refusal => refusal.message
  | .limit passed => passed.message
  | .unshowable fault => fault.message
  | .invalid issues =>
    Text.ofNat issues.length ++ " settings do not fit: ".toList ++
      Text.join ", ".toList (issues.map fun issue =>
        Text.join ['.'] issue.place ++ ' ' :: issue.mismatch.name)

/-- The name of the type of a value, and the same with the module that the type belongs to. -/
def typeName : Toml.Value → Text × Text
  | .string _ => ("str".toList, "str".toList)
  | .int _ => ("int".toList, "int".toList)
  | .double _ => ("float".toList, "float".toList)
  | .bool _ => ("bool".toList, "bool".toList)
  | .dateTime _ => ("datetime".toList, "datetime.datetime".toList)
  | .date _ => ("date".toList, "datetime.date".toList)
  | .time _ => ("time".toList, "datetime.time".toList)
  | .array _ => ("list".toList, "list".toList)
  | .table _ => ("dict".toList, "dict".toList)

/-- The name of the project document. -/
def documentName : Text := "pyproject.toml".toList

/-- The directories from a location upwards, nearest first. -/
def upwards (parts : List Text) : List (List Text) :=
  (List.range (parts.length + 1)).map fun n => parts.take (parts.length - n)

/-- The location of the project document in a directory. -/
def documentIn (dir : List Text) : Location :=
  ⟨1, dir ++ [documentName]⟩

/-- The first of some directories with a project document. -/
def documentDir (disk : Disk) : List (List Text) → Except Refusal (Option (List Text))
  | [] => .ok none
  | dir :: rest => do
    if ← disk.isFile [] (documentIn dir) then return some dir
    else documentDir disk rest

/-- The table of this program in a document. -/
def ownTable (document : Toml.Table) : Except LoadFailure Toml.Table :=
  match Assoc.get? "tool".toList document with
  | none => .ok []
  | some (.table tools) =>
    match Assoc.get? "addon_porter".toList tools with
    | none => .ok []
    | some (.table own) => .ok own
    | some value => .error (.notTable (typeName value).2 "items".toList)
  | some value => .error (.notTable (typeName value).2 "get".toList)

/-- The fields that are paths. -/
def pathFields : List Text :=
  ["source_root".toList, "output_root".toList, "host_root".toList, "addons_file".toList]

/-- The setting of an entry in a document; a path is seen from the document's directory. -/
def documentSetting (dir : List Text) (name : Text) (value : Toml.Value) :
    Except LoadFailure Setting :=
  if pathFields.contains name then
    match value with
    | .string s =>
      let l := Location.ofText s
      if l.isAbsolute then .ok (.location l)
      else if s.contains '\x00' then .error .nullCharacter
      else .ok (.location (l.resolve dir))
    | _ => .error (.notPath (typeName value).1)
  else .ok (.ofToml value)

/-- The settings of a document's table; the first path that is none fails. -/
def documentSettings (dir : List Text) : Toml.Table → Except LoadFailure Settings
  | [] => .ok []
  | (name, value) :: rest => do
    let setting ← documentSetting dir name value
    let others ← documentSettings dir rest
    .ok ((name, setting) :: others)

/-- The warning about a document that is no TOML. -/
def unreadableWarning (path : Text) : Log.Entry :=
  ⟨.warning, "Ignoring unreadable ".toList ++ Log.path path ++ ": not a TOML document".toList⟩

/-- The settings of the document in a directory, and the warnings about it. -/
def settingsIn (disk : Disk) (dir : List Text) : List Log.Entry × Except LoadFailure Settings :=
  match disk.readBytes [] (documentIn dir) with
  | .error refusal => ([], .error (.refused refusal))
  | .ok bytes =>
    match Utf8.decode bytes with
    | .error e => ([], .error (.undecodable e))
    | .ok text =>
      match Toml.read text with
      | .ok document => ([], ownTable document >>= documentSettings dir)
      | .error (.limit passed) => ([], .error (.limit passed))
      | .error .malformed =>
        let warning := unreadableWarning (documentIn dir).text
        match warning.fault? with
        | some fault => ([warning], .error (.unshowable fault))
        | none => ([warning], .ok [])

/-- The settings of the project document nearest to a location, and the warnings about it. -/
def nearestSettings (cwd : List Text) (disk : Disk) (search : Location) :
    List Log.Entry × Except LoadFailure Settings :=
  if search.text.contains '\x00' then ([], .error .nullCharacter)
  else
    match documentDir disk (upwards (search.resolve cwd).parts) with
    | .error refusal => ([], .error (.refused refusal))
    | .ok none => ([], .ok [])
    | .ok (some dir) => settingsIn disk dir

/-- Settings that win over those of a document. -/
structure Overrides where
  source : Option Location := none
  output : Option Location := none
  host : Option Location := none
  addonsFile : Option Location := none
  clean : Option Bool := none
  cloneUrl : Option Text := none
  cloneBranch : Option Text := none
deriving Repr, DecidableEq

/-- The overrides by field. -/
def Overrides.settings (o : Overrides) : List (Text × Option Setting) :=
  [("source_root".toList, o.source.map .location), ("output_root".toList, o.output.map .location),
    ("host_root".toList, o.host.map .location), ("addons_file".toList, o.addonsFile.map .location),
    ("clean_output".toList, o.clean.map .bool), ("upstream_url".toList, o.cloneUrl.map .text),
    ("upstream_branch".toList, o.cloneBranch.map .text)]

/-- Settings with overrides. A file of addons given as an override drops the addons listed. -/
def override (o : Overrides) (settings : Settings) : Settings :=
  let overridden := o.settings.foldl
    (fun settings entry =>
      match entry.2 with
      | some setting => Assoc.put entry.1 setting settings
      | none => settings)
    settings
  if o.addonsFile.isSome then overridden.filter fun entry => entry.1 ≠ "addons".toList
  else overridden

/-- Loads the configuration for a working directory, searching from a location; gives the warnings
too. -/
def load (cwd : List Text) (disk : Disk) (search : Location) (o : Overrides) :
    List Log.Entry × Except LoadFailure Config :=
  let (warnings, settings) := nearestSettings cwd disk search
  match settings with
  | .error failure => (warnings, .error failure)
  | .ok settings =>
    match ofSettings (override o settings) with
    | .ok config => (warnings, .ok config)
    | .error issues => (warnings, .error (.invalid issues))

end AddonBundle.Config
