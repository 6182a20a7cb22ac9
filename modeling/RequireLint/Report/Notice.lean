import RequireLint.Failure
import RequireLint.Report.Color

/-!
# Notices

A failure or a warning is told in a block of lines: what it is about, then its cause and what
to do about it.
-/

namespace RequireLint

structure Notice where
  /-- What it is about. -/
  message : Text
  /-- The cause. -/
  detail : Option Text
  /-- What to do. -/
  suggestion : Option Text
deriving Repr, DecidableEq

namespace Notice

/-- The first line, with its heading. -/
def headLine (useColors : Bool) (style : Style) (heading message : Text) : Text :=
  (if useColors then Style.bold.start ++ style.start ++ heading ++ Style.reset else heading) ++
    (" " : Text) ++ message ++ ("\n" : Text)

/-- The lines after the first. -/
def tailLines (useColors : Bool) (notice : Notice) : Text :=
  let cause (detail : Text) : Text :=
    ("  " : Text) ++ paint useColors .dim (("× " : Text) ++ detail) ++ ("\n" : Text)
  let help (suggestion : Text) : Text :=
    ("  " : Text) ++ paint useColors .cyan "help:" ++ (" " : Text) ++ suggestion ++ ("\n" : Text)
  (notice.detail.map cause).getD [] ++ (notice.suggestion.map help).getD []

def errorLines (useColors : Bool) (category : Text) (notice : Notice) : Text :=
  headLine useColors .red (("✖ " : Text) ++ category ++ (":" : Text)) notice.message ++
    notice.tailLines useColors

def warningLines (useColors : Bool) (notice : Notice) : Text :=
  headLine useColors .yellow "⚠ Warning:" notice.message ++ notice.tailLines useColors

end Notice

def Failure.lines (useColors : Bool) (failure : Failure) : Text :=
  Notice.errorLines useColors failure.category
    ⟨failure.message, failure.detail?, failure.suggestion?⟩

end RequireLint
