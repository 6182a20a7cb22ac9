import RequireLint.Text

/-!
# TOML documents as trees

A document is a table of keys.  How a table came about decides what may still be added to it,
so each table knows its origin: an inline table is closed, a table made by dotted keys takes
further dotted keys, and a table that only stands above a header may get a header of its own.
-/

namespace RequireLint

/-- How a table came about. -/
inductive TableOrigin where
  /-- It was written between braces. -/
  | inline
  /-- It has a header of its own. -/
  | header
  /-- It stands above a table that has a header. -/
  | implied
  /-- It was made by dotted keys. -/
  | dotted
deriving Repr, DecidableEq

inductive Toml where
  | string (text : Text)
  | boolean (value : Bool)
  /-- A number, as written. -/
  | number (text : Text)
  /-- A date, a time or both, as written. -/
  | moment (text : Text)
  | array (items : List Toml)
  | table (origin : TableOrigin) (entries : List (Text × Toml))
  /-- A list of tables that have headers. -/
  | tables (items : List (List (Text × Toml)))

namespace Toml

abbrev Entries := List (Text × Toml)

def find? (key : Text) (entries : Entries) : Option Toml :=
  (entries.find? fun entry => entry.1 = key).map (·.2)

/-- Puts a value in the place of the one that a key has. -/
def replace (key : Text) (value : Toml) (entries : Entries) : Entries :=
  entries.map fun entry => if entry.1 = key then (key, value) else entry

/-- Gives a value to a key that has none. -/
def insertNew (key : Text) (value : Toml) (entries : Entries) : Option Entries :=
  if (find? key entries).isSome then none else some (entries ++ [(key, value)])

/-- Changes the table that a path of keys leads to.  Missing tables are made, by dotted keys or
above a header.  The path leads into the last of a list of tables; it must not lead into an
inline table, and dotted keys not into a table with a header. -/
def enter (byDots : Bool) (change : TableOrigin → Entries → Option Entries) :
    List Text → TableOrigin → Entries → Option Entries
  | [], origin, entries => change origin entries
  | key :: path, _, entries =>
    match find? key entries with
    | none =>
      let origin : TableOrigin := if byDots then .dotted else .implied
      (enter byDots change path origin []).map fun inner =>
        entries ++ [(key, .table origin inner)]
    | some (.table origin inner) =>
      if origin = .inline ∨ (byDots ∧ origin = .header) then none
      else (enter byDots change path origin inner).map fun changed =>
        replace key (.table origin changed) entries
    | some (.tables items) =>
      match items.getLast? with
      | none => none
      | some last =>
        (enter byDots change path .header last).map fun changed =>
          replace key (.tables (items.dropLast ++ [changed])) entries
    | some _ => none

/-- Gives a value to a key below a path of dotted keys. -/
def assign (path : List Text) (key : Text) (value : Toml) (entries : Entries) :
    Option Entries :=
  match path with
  | [] => insertNew key value entries
  | _ :: _ =>
    enter true (fun origin inner => if origin = .dotted then insertNew key value inner else none)
      path .header entries

/-- Gives a table its header.  A table gets no second header, and none when dotted keys made
it. -/
def openTable (path : List Text) (key : Text) (entries : Entries) : Option Entries :=
  enter false (fun _ inner =>
    match find? key inner with
    | none => some (inner ++ [(key, .table .header [])])
    | some (.table .implied below) => some (replace key (.table .header below) inner)
    | some _ => none) path .header entries

/-- Adds a table to a list of tables that have headers. -/
def openElement (path : List Text) (key : Text) (entries : Entries) : Option Entries :=
  enter false (fun _ inner =>
    match find? key inner with
    | none => some (inner ++ [(key, .tables [[]])])
    | some (.tables items) => some (replace key (.tables (items ++ [[]])) inner)
    | some _ => none) path .header entries

end Toml

end RequireLint
