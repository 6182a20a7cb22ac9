import RequireLint.Toml.Reader

/-!
# TOML documents

A document is read into its statements, one a line, and the statements are then carried out
one after the other: a header says which table the settings after it belong to.
-/

namespace RequireLint.Toml

inductive Statement where
  /-- The header of a table. -/
  | header (path : List Text) (key : Text)
  /-- The header of one more table in a list. -/
  | element (path : List Text) (key : Text)
  | setting (path : List Text) (key : Text) (value : Toml)

namespace Statement

/-- A header, after the brackets that open it; `closing` closes it. -/
def header? (closing : Text) (s : Text) : Option ((List Text × Text) × Text) :=
  match key? (s.dropWhile Text.isInlineBlank) with
  | none => none
  | some (target, rest) =>
    (Text.dropPrefix? closing rest).map fun after => (target, after)

def read? : Reader Statement
  | '[' :: '[' :: rest =>
    (header? "]]" rest).map fun ((path, key), after) => (element path key, after)
  | '[' :: rest => (header? "]" rest).map fun ((path, key), after) => (header path key, after)
  | s =>
    (setting? (value? maxDepth) s).map fun ((path, key, v), after) => (setting path key v, after)

/-- The text after the line end that follows a statement, and all blank lines after it. -/
def lineEnd? (s : Text) : Option Text :=
  match s.dropWhile Text.isInlineBlank with
  | [] => some []
  | '#' :: rest => filler? true rest
  | rest => (afterNewline? rest).bind (filler? false)

/-- The statements of a text that starts with one, or is at its end. -/
def readAll? (s : Text) : Option (List Statement) :=
  match s with
  | [] => some []
  | c :: t =>
    match read? (c :: t) with
    | none => none
    | some (statement, rest) =>
      match lineEnd? rest with
      | none => none
      | some next =>
        if next.length ≤ t.length then (readAll? next).map (statement :: ·) else none
termination_by s.length

/-- Carries out a statement.  The state is the document so far, and the path and key of the
table that settings belong to, if a header has named one. -/
def perform? (state : Entries × Option (List Text × Text)) :
    Statement → Option (Entries × Option (List Text × Text))
  | header path key => (openTable path key state.1).map fun es => (es, some (path, key))
  | element path key => (openElement path key state.1).map fun es => (es, some (path, key))
  | setting path key value =>
    let changed :=
      match state.2 with
      | none => assign path key value state.1
      | some (above, name) =>
        enter false (fun _ inner => assign path key value inner) (above ++ [name]) .header state.1
    changed.map fun es => (es, state.2)

def performAll? (statements : List Statement) : Option Entries :=
  (statements.foldlM perform? ([], none)).map (·.1)

end Statement

/-- The character that may mark the start of a text. -/
def byteOrderMark : Char := '\ufeff'

def ofText? (text : Text) : Option Entries :=
  let body := if text.head? = some byteOrderMark then text.tail else text
  ((filler? false body).bind Statement.readAll?).bind Statement.performAll?

end RequireLint.Toml
