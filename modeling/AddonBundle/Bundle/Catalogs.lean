import AddonBundle.Json.Printer
import AddonBundle.Json.Reader
import AddonBundle.Session
/-!
# Localization catalogs

A language is a directory of the localization tree, and an addon's catalog in it a JSON file. The
catalogs of the bundled addons are written anew in minimal form.
-/

namespace AddonBundle.Bundle

variable {σ : Type}

/-- The directory of the catalogs. -/
def catalogsDir : Text := "addons-l10n".toList

/-- The languages of a collection, in order. -/
def languages (source : View σ) (s : σ) : Except Failure (List Text) := do
  (← source.listDir s catalogsDir).filterM fun name => source.isDir s (catalogsDir ++ '/' :: name)

/-- The path of an addon's catalog. -/
def catalogPath (language addon : Text) : Text :=
  catalogsDir ++ '/' :: language ++ '/' :: addon ++ ".json".toList

/-- Reads a JSON file. What is no text and what is no JSON is a fault with the given reason; any
other failure stays. -/
def readJson (view : View σ) (s : σ) (path : Text) (invalid : Text → Fault) :
    Except Failure Json.Value :=
  match view.readText s path with
  | .error (.undecodable e) => .error (.fault (invalid e.message))
  | .error failure => .error failure
  | .ok text =>
    match Json.read text with
    | .ok value => .ok value
    | .error (.malformed e) => .error (.fault (invalid (e.message text)))
    | .error (.limit passed) => .error (.limit passed)

/-- The catalogs with one more. -/
def addCatalog (language addon : Text) (catalog : Json.Value) (catalogs : Catalogs) : Catalogs :=
  Assoc.put language
    (Assoc.put addon catalog ((Assoc.get? language catalogs).getD [])) catalogs

/-- Writes the catalog of an addon in a language, if there is one. -/
def writeCatalog (places : Places σ) (language addon : Text) : Build σ Unit := do
  let path := catalogPath language addon
  let storage ← Build.storage
  if ← Build.ofExcept (places.source.present storage path) then
    let catalog ← Build.ofExcept
      (readJson places.source storage path (Fault.catalogInvalid · path addon))
    modify fun s => { s with catalogs := addCatalog language addon catalog s.catalogs }
    Build.write (places.output.writeText path (Json.minimal catalog))
    Build.record (.catalogWrite language addon)

/-- Writes the catalogs of addons in a language. -/
def writeLanguage (places : Places σ) (language : Text) : List Text → Build σ Unit
  | [] => return ()
  | addon :: rest => do
    writeCatalog places language addon
    writeLanguage places language rest

/-- Writes the catalogs of addons in each language. -/
def writeLanguages (places : Places σ) (addons : List Text) : List Text → Build σ Unit
  | [] => return ()
  | language :: rest => do
    modify fun s => { s with catalogs := Assoc.putNew language [] s.catalogs }
    writeLanguage places language addons
    writeLanguages places addons rest

/-- Writes all catalogs of addons; gives the languages. -/
def writeCatalogs (places : Places σ) (addons : List Text) : Build σ (List Text) := do
  let found ← Build.ofExcept (languages places.source (← Build.storage))
  writeLanguages places addons found
  return found

end AddonBundle.Bundle
