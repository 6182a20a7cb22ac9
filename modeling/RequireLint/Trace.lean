import RequireLint.Rule.Set
import RequireLint.Text.Quoted

/-!
# Events of a check

While a file is checked and corrected, a log can tell what was passed over and why.  The events
are a function of the same inputs as the check itself.
-/

namespace RequireLint

inductive LogLevel where
  /-- Something is wrong. -/
  | warn
  /-- A step of the run. -/
  | info
  /-- A decision. -/
  | debug
  /-- Everything else. -/
  | trace
deriving Repr, DecidableEq

namespace LogLevel

def name : LogLevel → Text
  | warn => "warn"
  | info => "info"
  | debug => "debug"
  | trace => "trace"

/-- The position of a level, the most important first. -/
def rank : LogLevel → Nat
  | warn => 0
  | info => 1
  | debug => 2
  | trace => 3

/-- The least important level that is logged at a verbosity. -/
def ofVerbosity : Nat → LogLevel
  | 0 => warn
  | 1 => info
  | 2 => debug
  | _ => trace

end LogLevel

structure LogEvent where
  level : LogLevel
  message : Text
  /-- What it happened to. -/
  fields : List (Text × Text)
deriving Repr, DecidableEq

namespace LogEvent

def unparsed (call : InclusionCall) : LogEvent :=
  ⟨.debug, ("line " : Text) ++ Text.ofNat call.span.line ++ (": unparsed " : Text) ++
    call.kind.keyword ++ (" argument" : Text), []⟩

/-- The event of the calls of a file having been read. -/
def callsRead (root file : Text) (calls : Nat) : LogEvent :=
  ⟨.trace, "read inclusion calls",
    [("path", file), ("root", root), ("calls", Text.ofNat calls)]⟩

def policyName : Policy → Text
  | .hardcodingLib => "HardcodingLib"
  | .relativeHardcodingLib allowInTests =>
    ("RelativeHardcodingLib \x7b allow_in_test_directories: " : Text) ++
      (if allowInTests then "true" else "false") ++ (" \x7d" : Text)
  | .textualRelativeLib => "TextualRelativeLib"
  | .textualRelativePath => "TextualRelativePath"

def ofRecognition : Expr → List LogEvent
  | .expandPath (.str literal) =>
    [⟨.debug, ("declined single-argument expand_path(" : Text) ++ Text.quoted literal ++
      (")" : Text), []⟩]
  | _ => []

def ofEvaluation (policy : Policy) (ctx : Context) (call : InclusionCall) : List LogEvent :=
  match Reference.ofExpr? call.argument with
  | none =>
    ofRecognition call.argument ++
      [⟨.trace, ctx.filePath ++ (":" : Text) ++ Text.ofNat call.span.line ++
        (": argument not recognized" : Text), []⟩]
  | some reference =>
    if policy.appliesTo call.kind reference.shape && policy.isMatch reference ctx
        && policy.exempts ctx then
      [⟨.debug, ctx.filePath ++ (": exempt from " : Text) ++ policyName policy, []⟩]
    else []

def ofCheck (rules : RuleSet) (root file content : Text) : List LogEvent :=
  let read := readings content
  let calls := read.map (·.call)
  let ctx := Context.ofPaths root file
  ((read.filter fun reading => !reading.understood).map fun reading => unparsed reading.call) ++
    [callsRead root file calls.length] ++
    (rules.filterMap (·.policy?)).flatMap fun policy => calls.flatMap (ofEvaluation policy ctx)

def ofCorrections (content : Text) (offenses : List Offense) : List LogEvent :=
  (Correction.run content offenses).skipped.map fun span =>
    ⟨.debug, ("skipping overlapping correction at line " : Text) ++ Text.ofNat span.line, []⟩

/-- The events that are logged at a verbosity. -/
def atVerbosity (verbosity : Nat) (events : List LogEvent) : List LogEvent :=
  events.filter fun event => event.level.rank ≤ (LogLevel.ofVerbosity verbosity).rank

end LogEvent

end RequireLint
