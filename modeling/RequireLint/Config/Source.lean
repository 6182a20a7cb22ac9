import RequireLint.Config.Document
import RequireLint.Path.Component

/-!
# Finding a configuration

A configuration is read from the file that is named, else from the first of the usual files that
is there, else it is the default.
-/

namespace RequireLint

/-- Where configurations are looked for. -/
structure ConfigStore where
  /-- The current directory, if it is known. -/
  current : Option Text
  /-- The directory of the user's settings for this program, if there is one. -/
  settings : Option Text
  /-- Whether there is anything at a path. -/
  contains : Text → Bool
  read : Text → Except FileError Text

structure LoadedConfig where
  config : Config
  /-- The file, unless the configuration is the default. -/
  source : Option Text
deriving Repr, DecidableEq

namespace LoadedConfig

/-- The default, which comes from no file. -/
def default : LoadedConfig := ⟨.default, none⟩

end LoadedConfig

namespace ConfigStore

def userFileName : Text := "config.toml"

/-- The usual files, the one to prefer first. -/
def candidates (store : ConfigStore) : List Text :=
  (store.current.map (Path.under · Config.fileName)).toList ++
    (store.settings.map (Path.under · userFileName)).toList

def loadFrom (store : ConfigStore) (path : Text) : Except Failure LoadedConfig :=
  match store.read path with
  | .error cause => .error (.fileRead path cause)
  | .ok content => (Config.ofText content).map fun config => ⟨config, some path⟩

/-- The configuration in the first of the usual files that is there. -/
def load (store : ConfigStore) : Except Failure LoadedConfig :=
  match store.candidates.find? store.contains with
  | some path => store.loadFrom path
  | none => .ok .default

end ConfigStore

end RequireLint
