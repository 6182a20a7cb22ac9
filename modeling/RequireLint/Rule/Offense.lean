import RequireLint.Rule.Id
import RequireLint.Source.Directive

/-!
# Offenses

An offense is a place in a content that a rule objects to, with the correction for it if the
rule knows one.
-/

namespace RequireLint

/-- A change that repairs an offense. -/
inductive Correction where
  /-- Write this text instead of the statement. -/
  | replace (text : Text)
  /-- Delete the statement. -/
  | remove
deriving Repr, DecidableEq

/-- A place that a rule objects to. -/
structure Offense where
  rule : RuleId
  span : Span
  /-- The text at the place. -/
  source : Text
  correction : Option Correction
deriving Repr, DecidableEq

namespace Offense

/-- Whether an offense comes no later than another: by position, then by rule. -/
def le (a b : Offense) : Bool :=
  if a.span.start = b.span.start then a.rule.index ≤ b.rule.index
  else decide (a.span.start < b.span.start)

end Offense

end RequireLint
