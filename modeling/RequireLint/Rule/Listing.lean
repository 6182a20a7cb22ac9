import RequireLint.Rule.Id

/-!
# The list of rules

One line for each rule: its identifier, whether it runs by default, whether it can correct, and
what it looks for, in columns.
-/

namespace RequireLint.RuleId

/-- The width of the column of identifiers. -/
def nameWidth : Nat := (all.map fun id => id.name.length).foldl max 0

def listingLine (id : RuleId) : Text :=
  Text.padRight nameWidth id.name ++ ("  " : Text) ++
    Text.padRight 8 (if id.enabledByDefault then "enabled" else "disabled") ++
    (if id.autocorrectable then "  fix  " else "       ") ++ id.description ++ ("\n" : Text)

def listing : Text := all.flatMap listingLine

end RequireLint.RuleId
