import RequireLint.Text.Quoted
import RequireLint.Toml.Reader

/-!
# Writing TOML

A string is written in the plainest of its forms: between double quotes when nothing in it has
to be escaped, else between single quotes, else in one of the tripled forms, and with escapes
only when no other form can hold it.
-/

namespace RequireLint.Toml

def needsEscape (c : Char) : Bool :=
  (c.toNat < 32 && c != '\t' && c != '\n') || c.toNat == 127

/-- The number of equal characters `c` at the longest place where they follow each other, with
`run` of them just before the text. -/
def longestRun (c : Char) (run : Nat) : Text → Nat
  | [] => run
  | d :: rest => if d = c then longestRun c (run + 1) rest else max run (longestRun c 0 rest)

def escaped (c : Char) : Text :=
  if c = '"' ∨ c = '\\' then ['\\', c]
  else if c = '\t' then "\\t"
  else if c = '\n' then "\\n"
  else if c = '\r' then "\\r"
  else if c.toNat = 8 then "\\b"
  else if c.toNat = 12 then "\\f"
  else ['\\', 'u'] ++ (Text.hexDigits 4 c).map Char.toUpper

/-- The inner text of a string between double quotes. -/
def basicBody (t : Text) : Text :=
  t.flatMap fun c =>
    if c = '"' ∨ c = '\\' ∨ c = '\t' ∨ c = '\n' ∨ needsEscape c then escaped c else [c]

/-- The inner text of a string between tripled double quotes.  Every third of the double quotes
in a row is escaped; `run` of them stand before the text. -/
def longBasicBody (run : Nat) : Text → Text
  | [] => []
  | c :: rest =>
    if c = '"' then
      if run = 2 then escaped c ++ longBasicBody 0 rest else c :: longBasicBody (run + 1) rest
    else if c = '\\' ∨ c = '\t' ∨ needsEscape c then escaped c ++ longBasicBody 0 rest
    else c :: longBasicBody 0 rest

/-- A string in a tripled form.  If it has line ends, it starts on a line of its own. -/
def tripled (quotes : Text) (t body : Text) : Text :=
  quotes ++ (if t.any (· == '\n') then ['\n'] else []) ++ body ++ quotes

def quoted (t : Text) : Text :=
  let codes := t.any needsEscape
  let backslash := t.any (· == '\\')
  let newline := t.any (· == '\n')
  let doubles := longestRun '"' 0 t
  let singles := longestRun '\x27' 0 t
  if !codes && !backslash && !newline && doubles = 0 then ['"'] ++ basicBody t ++ ['"']
  else if !codes && !newline && singles = 0 then ['\x27'] ++ t ++ ['\x27']
  else if !codes && !backslash && doubles ≤ 2 then tripled "\"\"\"" t (longBasicBody 0 t)
  else if !codes && singles ≤ 2 then tripled ['\x27', '\x27', '\x27'] t t
  else if newline then tripled "\"\"\"" t (longBasicBody 0 t)
  else ['"'] ++ basicBody t ++ ['"']

def quotedKey (t : Text) : Text :=
  let codes := t.any fun c => needsEscape c || c == '\n'
  let backslash := t.any (· == '\\')
  let doubles := t.any (· == '"')
  let singles := t.any (· == '\x27')
  if !t.isEmpty && t.all isKeyChar then t
  else if !codes && !singles && (backslash || doubles) then ['\x27'] ++ t ++ ['\x27']
  else ['"'] ++ basicBody t ++ ['"']

/-- A list of strings as it is written: two or more stand on a line each. -/
def quotedStrings (ts : List Text) : Text :=
  match ts with
  | [] => "[]"
  | [t] => ['['] ++ quoted t ++ [']']
  | _ =>
    ['[', '\n'] ++
      ts.flatMap (fun t => ("    " : Text) ++ quoted t ++ [',', '\n']) ++ [']']

/-- A line that gives a value to a key. -/
def settingLine (key value : Text) : Text := key ++ (" = " : Text) ++ value ++ ("\n" : Text)

def ofBool (b : Bool) : Text := if b then "true" else "false"

end RequireLint.Toml
