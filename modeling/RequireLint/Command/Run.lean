import RequireLint.Command.Check
import RequireLint.Command.Parser
import RequireLint.Command.Settings
import RequireLint.Rule.Listing

/-!
# Running the program

A command line is read and its command carried out in a workspace.
-/

namespace RequireLint

namespace Invocation

def run (call : Invocation) (ws : Workspace) : Outcome :=
  match call.command with
  | .check options => options.run ws call
  | .rules => .success ws (if call.quiet then [] else RuleId.listing)
  | .init path force => Command.runInit ws call path force
  | .validate path => Command.runValidate ws call path
  | .showConfig path format => Command.runShow ws call path format

end Invocation

namespace Refusal

/-- What is written when a command line is not carried out. -/
def output : Refusal → Text
  | versionWanted => programName ++ (" " : Text) ++ programVersion ++ ("\n" : Text)
  | _ => ("Usage: " : Text) ++ programName ++ (" [OPTIONS] <COMMAND>\n" : Text)

end Refusal

end RequireLint
