import RequireLint.Path.Lexical

/-!
# Paths by component

A path is also a list of components: its root, the names on it and the dots that say where
to go.  Repeated separators and inner dots do not count.  File lists are ordered by component,
and a report shows a path without the components of its base directory.
-/

namespace RequireLint

inductive Component where
  | root
  /-- A `.` at the start of a relative path. -/
  | current
  /-- A `..`. -/
  | parent
  | name (text : Text)
deriving Repr, DecidableEq

namespace Component

/-- The component that a segment stands for, if it counts. -/
def ofSegment? (segment : Text) : Option Component :=
  if segment = [] ∨ segment = ['.'] then none
  else if segment = ['.', '.'] then some parent
  else some (name segment)

/-- Where a kind of component stands among the others. -/
def rank : Component → Nat
  | root => 0
  | current => 1
  | parent => 2
  | name _ => 3

/-- The order of components: by kind, and names by their text. -/
def le : Component → Component → Bool
  | name a, name b => Text.le a b
  | a, b => a.rank ≤ b.rank

/-- The order of component lists: the first difference decides, and a prefix comes first. -/
def leList : List Component → List Component → Bool
  | [], _ => true
  | _ :: _, [] => false
  | a :: as, b :: bs => if a = b then leList as bs else le a b

end Component

namespace Path

/-- The component that the first segment of a path stands for.  A path that starts with `/`
has an empty first segment. -/
def firstComponent? (path segment : Text) : Option Component :=
  if path.startsWith "/" then some .root
  else if segment = ['.'] then some .current
  else Component.ofSegment? segment

def components (path : Text) : List Component :=
  match path.splitOn '/' with
  | [] => []
  | first :: rest => (firstComponent? path first).toList ++ rest.filterMap Component.ofSegment?

/-- Order of paths, component by component. -/
def le (a b : Text) : Bool := Component.leList (components a) (components b)

/-- Whether a segment does not count as a component, away from the start of a path. -/
def isSilent (segment : Text) : Bool := (Component.ofSegment? segment).isNone

/-- The segments after the first `n` components. -/
def dropComponents : Nat → List Text → List Text
  | 0, segments => segments
  | _ + 1, [] => []
  | n + 1, segment :: rest =>
    if isSilent segment then dropComponents (n + 1) rest else dropComponents n rest

/-- The segments without those at the end that do not count. -/
def trimSegments : List Text → List Text
  | [] => []
  | segment :: rest =>
    match trimSegments rest with
    | [] => if isSilent segment then [] else [segment]
    | kept => segment :: kept

/-- The text of a path with the same start as `path` and the segments `rest` after the first. -/
def withSegments (path first : Text) (rest : List Text) : Text :=
  if rest.isEmpty && path.startsWith "/" then "/" else Text.join "/" (first :: rest)

/-- What is left of a path below the directory `base`, if it lies there. -/
def relativeTo? (path base : Text) : Option Text :=
  let steps := components base
  if steps.isPrefixOf (components path) then
    match steps, path.splitOn '/' with
    | _, [] => some []
    | [], first :: rest => some (withSegments path first (trimSegments rest))
    | _ :: below, _ :: rest =>
      let kept := dropComponents below.length rest
      some (Text.join "/" (trimSegments (kept.dropWhile isSilent)))
  else none

/-- The last component of a path, if it is a name. -/
def fileName? (path : Text) : Option Text :=
  match (components path).getLast? with
  | some (.name text) => some text
  | _ => none

/-- What follows the last dot of the file name.  A name that only starts with a dot has none. -/
def extension? (path : Text) : Option Text :=
  match fileName? path with
  | none => none
  | some name =>
    match Text.beforeLast? '.' name with
    | none | some [] => none
    | some _ => Text.afterLast? "." name

/-- The path without its last component.  The root and the empty path have no parent. -/
def parent? (path : Text) : Option Text :=
  let steps := components path
  match steps.getLast? with
  | none | some .root => none
  | some _ =>
    match path.splitOn '/' with
    | [] => none
    | first :: rest =>
      let steps := trimSegments rest
      if steps.isEmpty then some []
      else some (withSegments path first (trimSegments steps.dropLast))

/-- A path below a directory; an absolute path stays as it is. -/
def under (dir path : Text) : Text :=
  if path.startsWith "/" then path
  else if dir.isEmpty then path
  else join dir path

/-- The path as a report shows it: below `base` when it lies there, with `/` as separator. -/
def display (path : Text) (base : Option Text) : Text :=
  let shown := (base.bind (relativeTo? path)).getD path
  if shown.isEmpty then "." else toSlash shown

end Path

end RequireLint
