import RequireLint.Text

/-!
# Strings of TOML

A string stands between double quotes, which allow escapes, or between single quotes, which do
not.  Tripled quotes allow line ends.
-/

namespace RequireLint.Toml

/-- A reader returns what it read and the text after it. -/
abbrev Reader (α : Type) := Text → Option (α × Text)

/-- Whether a character may stand for itself on a line. -/
def isPlain (c : Char) : Bool := c == '\t' || (32 ≤ c.toNat && c.toNat != 127)

def afterNewline? : Text → Option Text
  | '\n' :: rest => some rest
  | '\r' :: '\n' :: rest => some rest
  | _ => none

/-- The number of `count` hexadecimal digits, with `total` read before them. -/
def hexNumber? (total : Nat) : (count : Nat) → Text → Option (Nat × Text)
  | 0, t => some (total, t)
  | _ + 1, [] => none
  | count + 1, c :: rest =>
    match Text.digitValue? 16 c with
    | none => none
    | some d => hexNumber? (total * 16 + d) count rest

/-- The character whose number is written with `count` hexadecimal digits. -/
def numbered? (count : Nat) (t : Text) : Option (Char × Text) :=
  match hexNumber? 0 count t with
  | none => none
  | some (n, rest) => if n.isValidChar then some (Char.ofNat n, rest) else none

/-- The character that an escape stands for, after its backslash. -/
def escape? : Reader Char
  | 'b' :: rest => some (Char.ofNat 8, rest)
  | 't' :: rest => some ('\t', rest)
  | 'n' :: rest => some ('\n', rest)
  | 'f' :: rest => some (Char.ofNat 12, rest)
  | 'r' :: rest => some ('\r', rest)
  | 'e' :: rest => some (Char.ofNat 27, rest)
  | '"' :: rest => some ('"', rest)
  | '\\' :: rest => some ('\\', rest)
  | 'x' :: rest => numbered? 2 rest
  | 'u' :: rest => numbered? 4 rest
  | 'U' :: rest => numbered? 8 rest
  | _ => none

/-- Adds a character to what is read from the rest. -/
def consTo (c : Char) (found : Option (Text × Text)) : Option (Text × Text) :=
  found.map fun (text, rest) => (c :: text, rest)

/-- The rest of a string between double quotes. -/
def basicString (s : Text) : Option (Text × Text) :=
  match s with
  | [] => none
  | '"' :: rest => some ([], rest)
  | '\\' :: rest =>
    match escape? rest with
    | none => none
    | some (c, after) =>
      if after.length ≤ rest.length then consTo c (basicString after) else none
  | c :: rest => if isPlain c then consTo c (basicString rest) else none
termination_by s.length

/-- The rest of a string between single quotes. -/
def literalString : Reader Text
  | [] => none
  | '\x27' :: rest => some ([], rest)
  | c :: rest => if isPlain c then consTo c (literalString rest) else none

/-- The quotes that end a string between tripled quotes: up to two more than three belong to the
string. -/
def closingQuotes? (quote : Char) (s : Text) : Option (Text × Text) :=
  let run := s.takeWhile (· = quote)
  if run.length < 3 then none
  else
    let extra := min (run.length - 3) 2
    some (List.replicate extra quote, s.drop (extra + 3))

/-- The text after an escaped line end and the white space that follows it. -/
def afterEscapedNewline? (s : Text) : Option Text :=
  (afterNewline? (s.dropWhile Text.isInlineBlank)).map fun rest =>
    rest.dropWhile fun c => Text.isInlineBlank c || c == '\n' || c == '\r'

/-- The rest of a string between tripled double quotes. -/
def longBasicString (s : Text) : Option (Text × Text) :=
  match closingQuotes? '"' s with
  | some found => some found
  | none =>
    match s with
    | [] => none
    | '\\' :: rest =>
      match afterEscapedNewline? rest with
      | some after => if after.length ≤ rest.length then longBasicString after else none
      | none =>
        match escape? rest with
        | none => none
        | some (c, after) =>
          if after.length ≤ rest.length then consTo c (longBasicString after) else none
    | '\r' :: '\n' :: rest => consTo '\n' (longBasicString rest)
    | c :: rest => if isPlain c || c == '\n' then consTo c (longBasicString rest) else none
termination_by s.length

/-- The rest of a string between tripled single quotes. -/
def longLiteralString (s : Text) : Option (Text × Text) :=
  match closingQuotes? '\x27' s with
  | some found => some found
  | none =>
    match s with
    | [] => none
    | '\r' :: '\n' :: rest => consTo '\n' (longLiteralString rest)
    | c :: rest => if isPlain c || c == '\n' then consTo c (longLiteralString rest) else none
termination_by s.length

/-- A string of any kind, if one starts here. -/
def string? : Reader Text
  | '"' :: '"' :: '"' :: rest => longBasicString ((afterNewline? rest).getD rest)
  | '"' :: rest => basicString rest
  | '\x27' :: '\x27' :: '\x27' :: rest => longLiteralString ((afterNewline? rest).getD rest)
  | '\x27' :: rest => literalString rest
  | _ => none

end RequireLint.Toml
