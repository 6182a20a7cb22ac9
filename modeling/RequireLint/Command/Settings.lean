import RequireLint.Command.Outcome
import RequireLint.Config.Printer
import RequireLint.Config.Template
import RequireLint.Config.Validation

/-!
# Commands on configurations

A new configuration file is written, one is validated, and the one in effect is shown.
-/

namespace RequireLint

namespace Command

/-- The wording for a file that must not be overwritten. -/
def alreadyExists (path : Text) : Text :=
  ("Configuration file already exists: " : Text) ++ path ++
    (". Use --force to overwrite." : Text)

def writeTemplate (ws : Workspace) (path : Text) (force : Bool) : Except Failure FileTree :=
  if ws.tree.contains ws.current path && !force then .error (.config (alreadyExists path))
  else
    match ws.tree.write ws.current path Config.template with
    | .ok tree => .ok tree
    | .error cause => .error (.fileWrite path cause)

def runInit (ws : Workspace) (call : Invocation) (path : Text) (force : Bool) : Outcome :=
  match writeTemplate ws path force with
  | .error failure => .failed call ws failure
  | .ok tree =>
    let out :=
      if call.quiet then []
      else ("Created configuration file: " : Text) ++ path ++ ("\n" : Text)
    ⟨tree, out, [], successCode⟩

def validateFile (ws : Workspace) (path : Text) : Except Failure Unit := do
  if !ws.tree.contains ws.current path then
    .error (.config (("Configuration file not found: " : Text) ++ path))
  let loaded ← ws.configStore.loadFrom path
  loaded.config.validate

def runValidate (ws : Workspace) (call : Invocation) (path : Text) : Outcome :=
  match validateFile ws path with
  | .error failure => .failed call ws failure
  | .ok () =>
    .success ws <|
      if call.quiet then []
      else ("Configuration is valid: " : Text) ++ path ++ ("\n" : Text)

/-- A configuration in some form. -/
def shownConfig (loaded : LoadedConfig) : ConfigFormat → Text
  | .text =>
    ("# source: " : Text) ++ loaded.source.getD "built-in defaults" ++ ("\n" : Text) ++
      loaded.config.toText
  | .json => loaded.config.toJson.render ++ ("\n" : Text)
  | .toml => loaded.config.toToml

def runShow (ws : Workspace) (call : Invocation) (path : Option Text) (format : ConfigFormat) :
    Outcome :=
  match ws.loadConfig call.skipConfig path with
  | .error failure => .failed call ws failure
  | .ok loaded => .success ws (shownConfig loaded format)

end Command

end RequireLint
