import RequireLint.File.Content
import RequireLint.File.Place

/-!
# File trees

A tree has a file or a directory at each of its places; its root is always a directory.
`FileTree.node?` is the view that all other operations are defined by, and `put` changes it at
one place only.  Paths lead through a tree as they do through a disk: every step but the last
has to arrive at a directory.  A tree may refuse to have a file read, or a place written to.
-/

namespace RequireLint

/-- What stands at a place. -/
inductive Node where
  | file (content : FileContent)
  | directory
deriving Repr, DecidableEq

/-- Files and directories by place. -/
structure FileTree where
  /-- The places below the root with what stands there. -/
  entries : List (Place × Node)
  /-- One thing stands at a place. -/
  nodup : (entries.map Prod.fst).Nodup
  /-- Why the file at a place cannot be read, if it cannot. -/
  readRefusal : Place → Option FileError := fun _ => none
  /-- Why a place cannot be written to, if it cannot.  No text gets into the file that stands
  there, and no file or directory is made there. -/
  writeRefusal : Place → Option FileError := fun _ => none

namespace FileTree

/-- The tree that has nothing but its root. -/
def empty : FileTree := { entries := [], nodup := by simp }

/-- What stands at a place. -/
def node? (tree : FileTree) (place : Place) : Option Node :=
  if place.isEmpty then some .directory
  else (tree.entries.find? fun entry => entry.1 = place).map Prod.snd

/-- The entries with `node` at a place. -/
def putEntry (place : Place) (node : Node) : List (Place × Node) → List (Place × Node)
  | [] => [(place, node)]
  | entry :: rest =>
    if entry.1 = place then (place, node) :: rest else entry :: putEntry place node rest

theorem mem_putEntry {place p : Place} {node : Node} {entries : List (Place × Node)} :
    p ∈ (putEntry place node entries).map Prod.fst ↔ p = place ∨ p ∈ entries.map Prod.fst := by
  induction entries with
  | nil => simp [putEntry]
  | cons entry rest ih =>
    by_cases h : entry.1 = place
    · simp [putEntry, h]
    · simp only [putEntry, h, if_false, List.map_cons, List.mem_cons, ih]
      constructor
      · rintro (h1 | h1 | h1) <;> simp [h1]
      · rintro (h1 | h1 | h1) <;> simp [h1]

theorem nodup_putEntry {place : Place} {node : Node} {entries : List (Place × Node)}
    (h : (entries.map Prod.fst).Nodup) :
    ((putEntry place node entries).map Prod.fst).Nodup := by
  induction entries with
  | nil => simp [putEntry]
  | cons entry rest ih =>
    simp only [List.map_cons, List.nodup_cons] at h
    by_cases heq : entry.1 = place
    · simp only [putEntry, heq, if_true, List.map_cons, List.nodup_cons]
      exact ⟨heq ▸ h.1, h.2⟩
    · rw [putEntry, if_neg heq, List.map_cons, List.nodup_cons, mem_putEntry, not_or]
      exact ⟨⟨heq, h.1⟩, ih h.2⟩

/-- The tree with `node` at a place. -/
def put (tree : FileTree) (place : Place) (node : Node) : FileTree :=
  { tree with
    entries := putEntry place node tree.entries
    nodup := nodup_putEntry tree.nodup }

@[simp] theorem readRefusal_put (tree : FileTree) (place : Place) (node : Node) :
    (tree.put place node).readRefusal = tree.readRefusal := rfl

@[simp] theorem writeRefusal_put (tree : FileTree) (place : Place) (node : Node) :
    (tree.put place node).writeRefusal = tree.writeRefusal := rfl

/-- The tree without what stands at a place or below it. -/
def remove (tree : FileTree) (place : Place) : FileTree :=
  { tree with
    entries := tree.entries.filter fun entry => !place.isPrefixOf entry.1
    nodup := (List.filter_sublist.map Prod.fst).nodup tree.nodup }

/-- The tree in which the file at a place cannot be read. -/
def refuseRead (tree : FileTree) (place : Place) (cause : FileError) : FileTree :=
  { tree with readRefusal := fun p => if p = place then some cause else tree.readRefusal p }

/-- The tree in which a place cannot be written to. -/
def refuseWrite (tree : FileTree) (place : Place) (cause : FileError) : FileTree :=
  { tree with writeRefusal := fun p => if p = place then some cause else tree.writeRefusal p }

theorem find?_putEntry (place p : Place) (node : Node) (entries : List (Place × Node)) :
    ((putEntry place node entries).find? fun entry => entry.1 = p).map Prod.snd =
      if p = place then some node
      else (entries.find? fun entry => entry.1 = p).map Prod.snd := by
  induction entries with
  | nil =>
    by_cases h : p = place
    · simp [putEntry, h]
    · simp [putEntry, h, Ne.symm h]
  | cons entry rest ih =>
    by_cases heq : entry.1 = place
    · by_cases h : p = place
      · simp [putEntry, heq, h]
      · simp [putEntry, heq, h, Ne.symm h]
    · by_cases h : entry.1 = p
      · have : p ≠ place := fun hp => heq (h.trans hp)
        simp [putEntry, h, this]
      · simp [putEntry, heq, h, ih]

/-- `put` changes a tree at one place only. -/
theorem node?_put (tree : FileTree) (place p : Place) (node : Node) :
    (tree.put place node).node? p =
      if p ≠ [] ∧ p = place then some node else tree.node? p := by
  by_cases hp : p = []
  · simp [node?, hp]
  · simp [node?, put, hp, find?_putEntry]

theorem find?_eq_some_of_mem {entries : List (Place × Node)} {entry : Place × Node}
    (hnodup : (entries.map Prod.fst).Nodup) (h : entry ∈ entries) :
    (entries.find? fun other => other.1 = entry.1) = some entry := by
  induction entries with
  | nil => cases h
  | cons first rest ih =>
    simp only [List.map_cons, List.nodup_cons] at hnodup
    rcases List.mem_cons.1 h with rfl | hrest
    · simp
    · have hne : first.1 ≠ entry.1 := fun heq =>
        hnodup.1 (heq ▸ List.mem_map.2 ⟨entry, hrest, rfl⟩)
      rw [List.find?_cons_of_neg (by simpa using hne)]
      exact ih hnodup.2 hrest

/-- What is listed at a place stands there. -/
theorem node?_of_mem {tree : FileTree} {entry : Place × Node} (h : entry ∈ tree.entries)
    (hplace : entry.1 ≠ []) : tree.node? entry.1 = some entry.2 := by
  rw [node?, if_neg (by simpa using hplace), find?_eq_some_of_mem tree.nodup h]
  rfl

/-- Follows the segments of a path from a place. -/
def follow (tree : FileTree) : Place → List Text → Except FileError Place
  | here, [] => .ok here
  | here, segment :: rest =>
    match tree.node? here with
    | none => .error .missing
    | some (.file _) => .error .notDirectory
    | some .directory =>
      if segment = [] ∨ segment = ['.'] then tree.follow here rest
      else if segment = ['.', '.'] then tree.follow here.dropLast rest
      else
        let next := here ++ [segment]
        if (tree.node? next).isSome then tree.follow next rest else .error .missing

/-- Where a path starts: at the root, or at the current directory. -/
def origin (current : Place) (path : Text) : Place :=
  if path.startsWith "/" then [] else current

/-- The place that a path leads to from the current directory. -/
def resolve (tree : FileTree) (current : Place) (path : Text) : Except FileError Place :=
  if path.isEmpty then .error .missing
  else tree.follow (origin current path) (path.splitOn '/')

/-- The place that a path to be checked leads to.  The empty path stands for the current
directory. -/
def locate (tree : FileTree) (current : Place) (path : Text) : Except FileError Place :=
  if path.isEmpty then .ok current else tree.resolve current path

/-- What a path leads to. -/
def nodeAt? (tree : FileTree) (current : Place) (path : Text) : Option Node :=
  match tree.resolve current path with
  | .ok place => tree.node? place
  | .error _ => none

/-- Whether a path leads to something. -/
def contains (tree : FileTree) (current : Place) (path : Text) : Bool :=
  (tree.nodeAt? current path).isSome

/-- What is read from the file at a place. -/
def contentAt (tree : FileTree) (place : Place) : Except FileError FileContent :=
  match tree.node? place with
  | none => .error .missing
  | some .directory => .error .isDirectory
  | some (.file content) =>
    match tree.readRefusal place with
    | some cause => .error cause
    | none => .ok content

/-- The text of the file at a place. -/
def readPlace (tree : FileTree) (place : Place) : Except FileError Text := do
  let content ← tree.contentAt place
  content.asText

/-- The text of the file that a path leads to. -/
def read (tree : FileTree) (current : Place) (path : Text) : Except FileError Text := do
  let place ← tree.resolve current path
  tree.readPlace place

/-- The place at which a path asks for a file to be written.  The last segment has to be a
name. -/
def target (tree : FileTree) (current : Place) (path : Text) : Except FileError Place := do
  if path.isEmpty then .error .missing
  let segments := path.splitOn '/'
  let named := segments.reverse.dropWhile (·.isEmpty)
  let directory ← tree.follow (origin current path) named.tail.reverse
  match tree.node? directory with
  | some .directory =>
    match named with
    | [] => .error .isDirectory
    | name :: _ =>
      if named.length < segments.length ∨ name = ['.'] ∨ name = ['.', '.'] then
        .error .isDirectory
      else if tree.node? (directory ++ [name]) = some .directory then .error .isDirectory
      else return directory ++ [name]
  | some (.file _) => .error .notDirectory
  | none => .error .missing

/-- The tree after a text has been written to the file at a place. -/
def writePlace (tree : FileTree) (place : Place) (content : Text) : Except FileError FileTree :=
  match tree.writeRefusal place with
  | some cause => .error cause
  | none => .ok (tree.put place (.file (.text content)))

/-- The tree after a text has been written to the file that a path names. -/
def write (tree : FileTree) (current : Place) (path content : Text) :
    Except FileError FileTree := do
  let place ← tree.target current path
  tree.writePlace place content

/-- The tree after the directories along some segments have been made, and why that came to an
end, if it did.  `made` tells whether a directory has been made before. -/
def makeAlong (tree : FileTree) (made : Bool) : Place → List Text → FileTree × Option FileError
  | _, [] => (tree, none)
  | here, segment :: rest =>
    if segment = [] ∨ segment = ['.'] then tree.makeAlong made here rest
    else if segment = ['.', '.'] then tree.makeAlong made here.dropLast rest
    else
      let next := here ++ [segment]
      match tree.node? next with
      | some .directory => tree.makeAlong made next rest
      | some (.file _) =>
        (tree, some (if rest.isEmpty || made then .alreadyExists else .notDirectory))
      | none =>
        match tree.writeRefusal next with
        | some cause => (tree, some cause)
        | none => (tree.put next .directory).makeAlong true next rest

/-- The tree after the directories of a path have been made. -/
def makeDirectories (tree : FileTree) (current : Place) (path : Text) :
    FileTree × Option FileError :=
  tree.makeAlong false (origin current path) (path.splitOn '/')

/-- What has changed from one tree to another, apart from what is gone. -/
def changes (before after : FileTree) : List (Place × Node) :=
  after.entries.filter fun entry => before.node? entry.1 != some entry.2

/-- The absolute path that a path stands for: that of its place if it leads to one, else the path
as seen from the current directory. -/
def absolute (tree : FileTree) (current : Place) (path : Text) : Text :=
  match tree.resolve current path with
  | .ok place => place.toText
  | .error _ => Path.under current.toText path

end FileTree

end RequireLint
