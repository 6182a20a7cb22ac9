import RequireLint.Text.Word
import RequireLint.Trace

/-!
# Filters of events

A filter is a list of directives, which set how important the events of some part of the program
have to be.  The most specific directive comes first.
-/

namespace RequireLint

/-- What is let through, from nothing to everything. -/
def logThresholds : List Text := ["off", "error", "warn", "info", "debug", "trace"]

/-- The threshold with a given name, in any case of letters, or a given number. -/
def logThreshold? (text : Text) : Option Text :=
  match text with
  | [c] => if c.isDigit then logThresholds[c.toNat - 48]? else none
  | _ => logThresholds.find? fun name => name = text.toLowerAscii

structure LogDirective where
  /-- The part of the program that it is about, unless it is about all of it. -/
  target : Option Text
  /-- What it lets through. -/
  threshold : Text
deriving Repr, DecidableEq

namespace LogDirective

/-- The directive with a given text: a threshold, a target, which lets everything through, or
both with an equals sign between them. -/
def ofText? (text : Text) : Option LogDirective :=
  match text with
  | [] => none
  | c :: _ =>
    if !(Text.isWord c || c == '-' || c == ':') then none
    else
      let target := text.takeWhile (· ≠ '=')
      match text.dropWhile (· ≠ '=') with
      | [] =>
        match logThreshold? text with
        | some threshold => some ⟨none, threshold⟩
        | none => some ⟨some text, "trace"⟩
      | ['='] => some ⟨some target, "trace"⟩
      | _ :: level => (logThreshold? level).map fun threshold => ⟨some target, threshold⟩

/-- How specific a directive is. -/
def rank (directive : LogDirective) : Nat :=
  match directive.target with
  | none => 0
  | some target => Text.byteSize target + 1

/-- Whether a directive comes before another: the more specific one does, and of equally specific
ones the greater. -/
def precedes (a b : LogDirective) : Bool :=
  if a.rank = b.rank then !Text.le (a.target.getD []) (b.target.getD []) else b.rank < a.rank

/-- Adds a directive in its place.  It replaces the one with the same target. -/
def insert (directive : LogDirective) : List LogDirective → List LogDirective
  | [] => [directive]
  | first :: rest =>
    if first.target = directive.target then directive :: rest
    else if directive.precedes first then directive :: first :: rest
    else first :: insert directive rest

def render (directive : LogDirective) : Text :=
  match directive.target with
  | none => directive.threshold
  | some target => target ++ ['='] ++ directive.threshold

end LogDirective

/-- The filter that a run logs by, as text: the directives that the environment asks for, or that
of the verbosity if it asks for none. -/
def LogLevel.filterText (verbosity : Nat) (requested : Option Text) : Text :=
  let directives := (((requested.getD []).splitOn ',').filterMap LogDirective.ofText?).foldl
    (fun found directive => directive.insert found) []
  if directives.isEmpty then (ofVerbosity verbosity).name
  else Text.join "," (directives.map (·.render))

end RequireLint
