import RequireLint.Text

/-!
# Absolute paths, read lexically

Paths are compared as written, without a look at any disk.  An absolute path is a drive,
which is empty or a letter and a colon, and the names below its root; `Location.ofText?`
reads one from a text and `normalize` writes it back in its canonical form.
-/

namespace RequireLint

/-- An absolute place: a drive and the names from its root down. -/
structure Location where
  /-- Empty, or a letter and a colon. -/
  drive : Text
  /-- The names from the root down. -/
  names : List Text
deriving Repr, DecidableEq

namespace Location

/-- The canonical text of a place. -/
def toText (place : Location) : Text :=
  place.drive ++ ("/" : Text) ++ Text.join "/" place.names

/-- Whether `place` is `dir` or lies below it. -/
def isWithin (place dir : Location) : Bool :=
  place.drive == dir.drive && dir.names.isPrefixOf place.names

end Location

namespace Path

/-- The path with `/` for every `\`. -/
def toSlash (path : Text) : Text := path.map fun c => if c = '\\' then '/' else c

/-- The drive of an absolute path, and what follows it from the first `/` on. -/
def splitDrive? : Text → Option (Text × Text)
  | '/' :: rest => some ([], '/' :: rest)
  | c :: ':' :: '/' :: rest => if c.isAlpha then some ([c, ':'], '/' :: rest) else none
  | _ => none

def isAbsolute (path : Text) : Bool := (splitDrive? path).isSome

/-- Walks from the names on `stack`, the nearest first: an empty segment and `.` stay, `..`
goes up, any other segment goes down.  There is no way up from the root. -/
def walk : (stack segments : List Text) → Option (List Text)
  | stack, [] => some stack
  | stack, segment :: rest =>
    if segment = [] ∨ segment = ['.'] then walk stack rest
    else if segment = ['.', '.'] then
      match stack with
      | [] => none
      | _ :: up => walk up rest
    else walk (segment :: stack) rest

end Path

def Location.ofText? (path : Text) : Option Location :=
  match Path.splitDrive? path with
  | none => none
  | some (drive, rest) =>
    (Path.walk [] (rest.splitOn '/')).map fun stack => ⟨drive, stack.reverse⟩

namespace Path

/-- The canonical form of an absolute path: no empty segment, no `.` and no `..`. -/
def normalize (path : Text) : Option Text := (Location.ofText? path).map Location.toText

/-- The canonical form of `path` seen from the directory `base`. -/
def expand (path base : Text) : Option Text :=
  if isAbsolute path then normalize path else normalize (base ++ ("/" : Text) ++ path)

/-- Whether `path` is `dir` or lies below it, segment by segment. -/
def isWithin (path dir : Text) : Bool :=
  let dir := dir.dropEndWhile (· = '/')
  if dir.isEmpty then path.startsWith "/"
  else
    match Text.dropPrefix? dir path with
    | none => false
    | some rest => rest.isEmpty || rest.startsWith "/"

/-- Everything before the last `/`. -/
def dirname (path : Text) : Text :=
  match Text.beforeLast? '/' path with
  | none => "."
  | some [] => "/"
  | some dir => dir

/-- A name below a directory. -/
def join (dir name : Text) : Text :=
  if dir.endsWith "/" then dir ++ name else dir ++ ("/" : Text) ++ name

end Path

end RequireLint
