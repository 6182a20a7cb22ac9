import RequireLint.Workspace

/-!
# Project roots

The root of a project is the nearest directory above a file that holds one of the markers.
-/

namespace RequireLint

def rootMarkers : List Text := ["Gemfile", "gems.rb", Config.fileName, ".git"]

/-- A path and the paths above it, the nearest first. -/
def Path.ancestors (path : Text) : List Text :=
  match Path.parent? path with
  | none => [path]
  | some above =>
    if above.length < path.length then path :: Path.ancestors above else [path]
termination_by path.length

namespace Workspace

def hasMarker (ws : Workspace) (dir : Text) : Bool :=
  rootMarkers.any fun marker => ws.tree.contains ws.current (Path.under dir marker)

/-- The root of the project that a file belongs to, or `fallback` when there is none. -/
def projectRoot (ws : Workspace) (fallback file : Text) : Text :=
  ((Path.ancestors ((Path.parent? file).getD file)).find? ws.hasMarker).getD fallback

end Workspace

end RequireLint
