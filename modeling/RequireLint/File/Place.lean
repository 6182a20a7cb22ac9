import RequireLint.Path.Component

/-!
# Places in a file tree

A place is the list of the names that lead to it from the root.  Places are ordered name by
name, which is the order of their paths by component.
-/

namespace RequireLint

/-- The names from the root of a file tree to a place in it. -/
abbrev Place := List Text

namespace Place

/-- The absolute path of a place. -/
def toText (place : Place) : Text := ('/' :: Text.join "/" place)

/-- The path of a place relative to the directory that its names start from. -/
def toRelative (place : Place) : Text := Text.join "/" place

/-- The order of places. -/
def le : Place → Place → Bool
  | [], _ => true
  | _ :: _, [] => false
  | a :: as, b :: bs => if a = b then le as bs else Text.le a b

/-- The places without those that are equal to the next one. -/
def distinct : List Place → List Place
  | a :: b :: rest => if a = b then distinct (b :: rest) else a :: distinct (b :: rest)
  | places => places

/-- The places in order. -/
def sorted (places : List Place) : List Place := places.mergeSort le

end Place

end RequireLint
