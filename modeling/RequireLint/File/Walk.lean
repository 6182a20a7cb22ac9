import RequireLint.File.Tree

/-!
# Walking through a file tree

A walk starts at a place and goes down through all directories.  What it does not keep it passes
over, with all that is below.
-/

namespace RequireLint

/-- What a walk comes to. -/
structure WalkEntry where
  /-- The path to it from where the walk starts. -/
  below : Place
  node : Node
deriving Repr, DecidableEq

namespace FileTree

/-- The names of what stands in a directory. -/
def namesIn (tree : FileTree) (dir : Place) : List Text :=
  tree.entries.filterMap fun entry =>
    if entry.1.dropLast = dir then entry.1.getLast? else none

/-- How many names lead to the deepest place. -/
def depth (tree : FileTree) : Nat := (tree.entries.map fun entry => entry.1.length).foldr max 0

/-- What stands at the path `below` the place `root`, if a walk keeps it. -/
def visit? (tree : FileTree) (root : Place) (keeps : WalkEntry → Bool) (below : Place) :
    Option WalkEntry :=
  ((tree.node? (root ++ below)).map fun node => ⟨below, node⟩).filter keeps

/-- The paths that lead one step further than a walk from `root` has come. -/
def steps (tree : FileTree) (root : Place) (entry : WalkEntry) : List Place :=
  match entry.node with
  | .directory => (tree.namesIn (root ++ entry.below)).map fun name => entry.below ++ [name]
  | .file _ => []

/-- What a walk from `root` comes to at a path and at most so many levels further down. -/
def walkFrom (tree : FileTree) (root : Place) (keeps : WalkEntry → Bool) :
    Nat → Place → List WalkEntry
  | 0, below => (tree.visit? root keeps below).toList
  | levels + 1, below =>
    match tree.visit? root keeps below with
    | none => []
    | some entry => entry :: (tree.steps root entry).flatMap (tree.walkFrom root keeps levels)

/-- All that a walk from `root` comes to.  No way down is longer than the tree is deep. -/
def walk (tree : FileTree) (root : Place) (keeps : WalkEntry → Bool) : List WalkEntry :=
  tree.walkFrom root keeps tree.depth []

/-- The files at or below a place, relative to it, as they are listed. -/
def filesBelow (tree : FileTree) (root : Place) : List Place :=
  tree.entries.filterMap fun entry =>
    match entry.2 with
    | .file _ => if root.isPrefixOf entry.1 then some (entry.1.drop root.length) else none
    | .directory => none

end FileTree

end RequireLint
