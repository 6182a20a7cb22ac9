import RequireLint.Path.Lexical
import RequireLint.Source.Expr

/-!
# Recognizing path expressions

Only a closed set of argument shapes is resolved.  `Reference.ofExpr?` says which path an
argument refers to: the literal it is written with, and what the literal is resolved against.
-/

namespace RequireLint

/-- The form that a recognized argument takes. -/
inductive Shape where
  | plainLiteral
  /-- A path expanded against `__FILE__` or `__dir__`. -/
  | expandPathFromMarker
  /-- A path expanded against anything else. -/
  | expandPathFromOther
  /-- The directory of a file, followed by a suffix. -/
  | dirnameConcat
deriving Repr, DecidableEq

/-- What the literal of a reference is resolved against. -/
inductive Base where
  /-- The directory of the inspected file. -/
  | fileDirectory
  /-- The inspected file, taken as a directory. -/
  | file
  /-- Nothing: the literal is absolute. -/
  | rooted
  /-- A place that the text alone does not tell. -/
  | unknown
deriving Repr, DecidableEq

/-- The path that an argument refers to. -/
structure Reference where
  /-- The path text that is resolved. -/
  literal : Text
  /-- What it is resolved against. -/
  base : Base
  shape : Shape
deriving Repr, DecidableEq

namespace Reference

/-- The path as the source has it.  The suffix of a directory is resolved with a dot in front,
which the source does not have. -/
def written (reference : Reference) : Text :=
  match reference.shape with
  | .dirnameConcat =>
    (Text.dropPrefix? "." reference.literal).getD reference.literal
  | _ => reference.literal

/-- A literal against `base`, unless the literal is absolute. -/
def resolved (literal : Text) (base : Base) (shape : Shape) : Reference :=
  ⟨literal, if Path.isAbsolute literal then .rooted else base, shape⟩

/-- A suffix put behind the directory of `path`.  Any simple `path` is taken to be the
inspected file. -/
def ofDirname? (path : Expr) (suffix : Text) : Option Reference :=
  match path with
  | .currentFile | .currentDir | .str _ | .ident _ =>
    some ⟨'.' :: suffix, .fileDirectory, .dirnameConcat⟩
  | _ => none

def ofExpandPath (literal : Text) (base : Expr) : Reference :=
  match base with
  | .currentFile => resolved literal .file .expandPathFromMarker
  | .currentDir => resolved literal .fileDirectory .expandPathFromMarker
  | _ => ⟨literal, .unknown, .expandPathFromOther⟩

/-- The path that an argument refers to, if its shape is one of those resolved.  A path
expanded alone depends on the working directory of the process and is not resolved. -/
def ofExpr? : Expr → Option Reference
  | .str literal => some (resolved literal .fileDirectory .plainLiteral)
  | .expandPathFrom (.str literal) base => some (ofExpandPath literal base)
  | .concat (.dirname path) (.str suffix) => ofDirname? path suffix
  | .interpolated (.expr (.dirname path) (.text suffix .nil)) => ofDirname? path suffix
  | _ => none

end Reference

end RequireLint
