import RequireLint.Policy.Decision
import RequireLint.Rule.Offense

/-!
# The rules on inclusion calls

These rules judge the calls of a file one by one, each call by itself.
-/

namespace RequireLint

/-- What a rule sees of one file. -/
structure SourceUnit where
  content : Text
  calls : List InclusionCall
  /-- Where it lies in its project. -/
  context : Context

namespace InclusionCall

def offense (call : InclusionCall) (rule : RuleId) (content : Text)
    (correction : Option Correction) : Offense :=
  ⟨rule, call.span, call.span.text content, correction⟩

def isBundlerSetup (call : InclusionCall) : Bool :=
  call.kind == .require && call.argument == .str "bundler/setup"

end InclusionCall

/-- The offenses of the calls that a policy objects to. -/
def Policy.offenses (policy : Policy) (rule : RuleId) (unit : SourceUnit) : List Offense :=
  unit.calls.filterMap fun call =>
    let decision := policy.evaluate call.kind call.argument unit.context
    if decision.offense then
      some (call.offense rule unit.content (decision.replacement.map .replace))
    else none

/-- The calls that set up the bundler in test code. -/
def bundlerSetupOffenses (unit : SourceUnit) : List Offense :=
  if unit.context.inTestDirectory then
    (unit.calls.filter (·.isBundlerSetup)).map fun call =>
      call.offense .bundlerSetupInTests unit.content (some .remove)
  else []

end RequireLint
