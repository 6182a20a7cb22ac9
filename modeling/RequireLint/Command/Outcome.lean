import RequireLint.Command.Line
import RequireLint.Config.Source
import RequireLint.Report.Notice
import RequireLint.Workspace

/-!
# Outcomes of commands

A command leaves a file tree behind, has written to standard output and standard error, and ends
with an exit code.
-/

namespace RequireLint

/-- What a command comes to. -/
structure Outcome where
  tree : FileTree
  out : Text
  err : Text
  exitCode : Nat

def successCode : Nat := 0

def offensesCode : Nat := 1

def failureCode : Nat := 2

namespace Invocation

/-- The lines that report a failure to the user. -/
def failureLines (call : Invocation) (ws : Workspace) (failure : Failure) : Text :=
  failure.lines (call.color.useColors ws.errIsTerminal ws.forbidsColors)

end Invocation

namespace Outcome

/-- A run that leaves the files alone and ends well. -/
def success (ws : Workspace) (out : Text) : Outcome := ⟨ws.tree, out, [], successCode⟩

/-- A run that leaves the files alone and fails. -/
def failed (call : Invocation) (ws : Workspace) (failure : Failure) : Outcome :=
  ⟨ws.tree, [], call.failureLines ws failure, failureCode⟩

end Outcome

/-- What a command comes to before a failure of it is reported. -/
structure Attempt where
  tree : FileTree
  out : Text
  err : Text
  /-- The exit code, or why the command has failed. -/
  result : Except Failure Nat

namespace Attempt

/-- The outcome of an attempt: a failure is reported to the user. -/
def outcome (attempt : Attempt) (ws : Workspace) (call : Invocation) : Outcome :=
  match attempt.result with
  | .ok code => ⟨attempt.tree, attempt.out, attempt.err, code⟩
  | .error failure =>
    ⟨attempt.tree, attempt.out, attempt.err ++ call.failureLines ws failure, failureCode⟩

end Attempt

namespace Workspace

/-- Where configurations are looked for. -/
def configStore (ws : Workspace) : ConfigStore where
  current := some ws.currentPath
  settings := ws.settings.map fun settings => Path.under settings.directory "packaging-guard"
  contains := ws.tree.contains ws.current
  read := ws.tree.read ws.current

/-- The configuration of a run: none but the default if configuration files are passed over, else
that of the named file, else that of the usual files. -/
def loadConfig (ws : Workspace) (skip : Bool) (path : Option Text) :
    Except Failure LoadedConfig :=
  if skip then .ok .default
  else
    match path with
    | some path => ws.configStore.loadFrom path
    | none => ws.configStore.load

/-- The lines of a warning.  They are coloured on a terminal. -/
def warning (ws : Workspace) (notice : Notice) : Text :=
  notice.warningLines (ColorMode.auto.useColors ws.errIsTerminal ws.forbidsColors)

end Workspace

end RequireLint
