import RequireLint.Text.Quoted

/-!
# JSON documents

The values that reports are made of, and their text over several lines: two blanks for each
level, one entry a line, and fields in the order in which they were given.
-/

namespace RequireLint

/-- A JSON value.  Numbers count something. -/
inductive Json where
  | bool (value : Bool)
  | number (value : Nat)
  | string (value : Text)
  | array (values : List Json)
  /-- Named values, in order. -/
  | object (fields : List (Text × Json))

namespace Json

/-- A character as it stands in a string. -/
def escaped (c : Char) : Text :=
  if c = '"' ∨ c = '\\' then ['\\', c]
  else if c = '\n' then "\\n"
  else if c = '\r' then "\\r"
  else if c = '\t' then "\\t"
  else if c.toNat = 8 then "\\b"
  else if c.toNat = 12 then "\\f"
  else if c.toNat < 32 then ("\\u" : Text) ++ Text.hexDigits 4 c
  else [c]

def quoted (t : Text) : Text := ['"'] ++ t.flatMap escaped ++ ['"']

/-- A line end and the blanks of a level. -/
def newLine (level : Nat) : Text := '\n' :: List.replicate (2 * level) ' '

/-- The entries of a list or an object between its brackets. -/
def bracketed (opening closing : Char) (level : Nat) (entries : List Text) : Text :=
  if entries.isEmpty then [opening, closing]
  else
    [opening] ++ newLine (level + 1) ++
      Text.join (',' :: newLine (level + 1)) entries ++ newLine level ++ [closing]

mutual

/-- The text of a value that stands at a level. -/
def renderAt (level : Nat) : Json → Text
  | bool value => if value then "true" else "false"
  | number value => Text.ofNat value
  | string value => quoted value
  | array values => bracketed '[' ']' level (renderValues (level + 1) values)
  | object fields => bracketed '\x7b' '\x7d' level (renderFields (level + 1) fields)

def renderValues (level : Nat) : List Json → List Text
  | [] => []
  | value :: rest => renderAt level value :: renderValues level rest

def renderFields (level : Nat) : List (Text × Json) → List Text
  | [] => []
  | (name, value) :: rest =>
    (quoted name ++ (": " : Text) ++ renderAt level value) :: renderFields level rest

end

def render (value : Json) : Text := renderAt 0 value

def strings (ts : List Text) : Json := array (ts.map string)

/-- An object with some fields that always have a value, and then those of some others that
have one. -/
def record (fields : List (Text × Json)) (optional : List (Text × Option Json)) : Json :=
  object (fields ++ optional.filterMap fun (name, value) => value.map fun v => (name, v))

end Json

end RequireLint
