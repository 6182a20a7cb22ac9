import RequireLint.Toml.Quoted
import RequireLint.Toml.Scalar
import RequireLint.Toml.Value

/-!
# Keys and values of TOML

A reader is given the text from where something may start.  Arrays and inline tables hold
values in turn, so the reader of values is made level by level from the reader of the values
inside: `value? depth` takes up to `depth` brackets around a scalar.
-/

namespace RequireLint.Toml

/-- The text after blanks, line ends and comments, from inside a comment or not.  Other control
characters do not belong there. -/
def filler? : (inComment : Bool) → Text → Option Text
  | _, [] => some []
  | true, '\n' :: rest => filler? false rest
  | true, '\r' :: '\n' :: rest => filler? false rest
  | true, c :: rest => if isPlain c then filler? true rest else none
  | false, '\n' :: rest => filler? false rest
  | false, '\r' :: '\n' :: rest => filler? false rest
  | false, '#' :: rest => filler? true rest
  | false, c :: rest => if Text.isInlineBlank c then filler? false rest else some (c :: rest)

def isKeyChar (c : Char) : Bool := c.isAlphanum || c == '-' || c == '_'

def simpleKey? : Reader Text
  | '"' :: rest => basicString rest
  | '\x27' :: rest => literalString rest
  | s =>
    let key := s.takeWhile isKeyChar
    if key.isEmpty then none else some (key, s.dropWhile isKeyChar)

/-- A key with its dots: the keys above the last one, and the last. -/
def key? (s : Text) : Option ((List Text × Text) × Text) :=
  match simpleKey? s with
  | none => none
  | some (key, rest) =>
    match rest.dropWhile Text.isInlineBlank with
    | '.' :: rest =>
      let next := rest.dropWhile Text.isInlineBlank
      if next.length < s.length then
        (key? next).map fun ((path, last), after) => ((key :: path, last), after)
      else none
    | after => some (([], key), after)
termination_by s.length

/-- What the word at the start of a text stands for.  A date takes the time after a blank with
it. -/
def word? (s : Text) : Option (Toml × Text) :=
  let word := s.takeWhile isWordChar
  let rest := s.dropWhile isWordChar
  if word = "true" then some (.boolean true, rest)
  else if word = "false" then some (.boolean false, rest)
  else if isInteger word || isFloat word then some (.number word, rest)
  else
    match afterDate? word, rest with
    | some [], ' ' :: c :: after =>
      if c.isDigit then
        let time := (c :: after).takeWhile isWordChar
        if isTime true time then
          some (.moment (word ++ ' ' :: time), (c :: after).dropWhile isWordChar)
        else none
      else some (.moment word, rest)
    | _, _ => if isMoment word then some (.moment word, rest) else none

/-- A value without brackets. -/
def scalar? (s : Text) : Option (Toml × Text) :=
  if s.head? = some '"' ∨ s.head? = some '\x27' then
    (string? s).map fun (text, rest) => (.string text, rest)
  else word? s

/-- The rest of an array whose values `value` reads. -/
def items? (value : Reader Toml) (s : Text) : Option (List Toml × Text) :=
  match filler? false s with
  | none => none
  | some (']' :: rest) => some ([], rest)
  | some start =>
    match value start with
    | none => none
    | some (item, rest) =>
      match filler? false rest with
      | some (',' :: next) =>
        if next.length < s.length then
          (items? value next).map fun (items, after) => (item :: items, after)
        else none
      | some (']' :: after) => some ([item], after)
      | _ => none
termination_by s.length

/-- A key, an equals sign and a value. -/
def setting? (value : Reader Toml) (s : Text) : Option ((List Text × Text × Toml) × Text) :=
  match key? s with
  | some ((path, key), '=' :: rest) =>
    (value (rest.dropWhile Text.isInlineBlank)).map fun (v, after) => ((path, key, v), after)
  | _ => none

/-- The rest of an inline table that has the given entries so far. -/
def fields? (value : Reader Toml) (entries : Entries) (s : Text) : Option (Entries × Text) :=
  match filler? false s with
  | none => none
  | some ('\x7d' :: rest) => some (entries, rest)
  | some start =>
    match setting? value start with
    | none => none
    | some ((path, key, v), rest) =>
      match assign path key v entries with
      | none => none
      | some extended =>
        match filler? false rest with
        | some (',' :: next) =>
          if next.length < s.length then fields? value extended next else none
        | some ('\x7d' :: after) => some (extended, after)
        | _ => none
termination_by s.length

/-- A value that holds at most `depth` levels of brackets. -/
def value? : (depth : Nat) → Reader Toml
  | depth + 1, '[' :: rest =>
    (items? (value? depth) rest).map fun (items, after) => (.array items, after)
  | depth + 1, '\x7b' :: rest =>
    (fields? (value? depth) [] rest).map fun (entries, after) => (.table .inline entries, after)
  | _, s => scalar? s

/-- How deep brackets may be nested. -/
def maxDepth : Nat := 80

end RequireLint.Toml
