import RequireLint.Config.Model
import RequireLint.Failure
import RequireLint.Toml.Document

/-!
# Configurations as documents

A configuration is written as a TOML document.  Keys that mean nothing here are passed over, and
keys left out have their defaults; a value of the wrong kind is an error.  A table may also be
given as the list of its values, in the order of its keys.
-/

namespace RequireLint

namespace Toml

def asBool? : Toml → Option Bool
  | boolean value => some value
  | _ => none

def asString? : Toml → Option Text
  | string text => some text
  | _ => none

/-- The strings of a list that holds nothing else. -/
def asStrings? : Toml → Option (List Text)
  | array items => items.mapM asString?
  | _ => none

/-- The entries of a table.  A list gives its values to `keys` in order.  A date or a time is
taken for a table without entries. -/
def asEntries? (keys : List Text) : Toml → Option Entries
  | table _ entries => some entries
  | array items => some (keys.zip items)
  | moment _ => some []
  | _ => none

/-- What an entry decodes to, with a default for a key left out. -/
def decodeAt {α : Type} (entries : Entries) (key : Text) (decode : Toml → Option α)
    (default : α) : Option α :=
  match find? key entries with
  | none => some default
  | some value => decode value

end Toml

def ScannerConfig.keys : List Text := ["gitignore", "extensions", "file_names", "exclude"]

def ScannerConfig.ofToml? (value : Toml) : Option ScannerConfig := do
  let entries ← value.asEntries? keys
  let gitignore ← Toml.decodeAt entries "gitignore" Toml.asBool? default.gitignore
  let extensions ← Toml.decodeAt entries "extensions" Toml.asStrings? default.extensions
  let fileNames ← Toml.decodeAt entries "file_names" Toml.asStrings? default.fileNames
  let exclude ← Toml.decodeAt entries "exclude" Toml.asStrings? default.exclude
  return ⟨gitignore, extensions, fileNames, exclude⟩

def RuleConfig.keys : List Text := ["enabled", "allow_in_test_directories"]

def RuleConfig.ofToml? (value : Toml) : Option RuleConfig := do
  let entries ← value.asEntries? keys
  let enabled ← Toml.decodeAt entries "enabled" (fun v => v.asBool?.map some) none
  let allowInTests ←
    Toml.decodeAt entries "allow_in_test_directories" (fun v => v.asBool?.map some) none
  return ⟨enabled, allowInTests⟩

def RuleTable.ofToml? : Toml → Option RuleTable
  | .table _ entries =>
    let setting (entry : Text × Toml) : Option (Text × RuleConfig) :=
      (RuleConfig.ofToml? entry.2).map fun rule => (entry.1, rule)
    (entries.mapM setting).map ofList
  | _ => none

namespace Config

def ofEntries? (entries : Toml.Entries) : Option Config := do
  let version ← Toml.decodeAt entries "version" (fun v => v.asString?.map some) none
  let scanner ← Toml.decodeAt entries "scanner" ScannerConfig.ofToml? .default
  let rules ← Toml.decodeAt entries "rules" RuleTable.ofToml? []
  return ⟨version, scanner, rules⟩

/-- The wording for a version that is not supported. -/
def unsupportedVersion (version : Text) : Text :=
  ("Unsupported config version '" : Text) ++ version ++ ("'. Only version '" : Text) ++
    formatVersion ++ ("' is supported." : Text)

def ofText (text : Text) : Except Failure Config :=
  match (Toml.ofText? text).bind ofEntries? with
  | none => .error .tomlParse
  | some config =>
    match config.version with
    | none => .ok config
    | some version =>
      if version = formatVersion then .ok config
      else .error (.config (unsupportedVersion version))

end Config

end RequireLint
