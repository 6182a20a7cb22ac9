import RequireLint.Source.Expr

/-!
# Reading an expression

`Expr.parse?` reads one expression from the start of a text and returns the text after it.
The pieces of the grammar take the parser for nested expressions as an argument; `parse?`
ties the knot by allowing nested expressions only on shorter texts, which loses nothing
because every nested expression starts after a character that has been read.
-/

namespace RequireLint.Expr

/-- A parser returns what it read and the text after it. -/
abbrev Parser (α : Type) := Text → Option (α × Text)

def skipSpace (s : Text) : Text :=
  s.dropWhile fun c => c = ' ' || c = '\t' || c = '\n' || c = '\r'

def skipInline (s : Text) : Text := s.dropWhile Text.isInlineBlank

/-- A name, with the `?` or `!` that belongs to it unless an `=` follows. -/
def name? : Parser Text := fun s =>
  let word := s.takeWhile isNameChar
  match s.dropWhile isNameChar with
  | c :: after =>
    if (c = '?' ∨ c = '!') ∧ after.head? ≠ some '=' then some (word ++ [c], after)
    else if word.isEmpty then none
    else some (word, c :: after)
  | [] => if word.isEmpty then none else some (word, [])

/-- The rest of a single-quoted literal.  Only the quote and the backslash can be escaped. -/
def singleQuoted : Parser Text
  | [] => none
  | '\x27' :: rest => some ([], rest)
  | ['\\'] => none
  | '\\' :: c :: rest =>
    (singleQuoted rest).map fun (text, after) =>
      (if c = '\x27' ∨ c = '\\' then c :: text else '\\' :: c :: text, after)
  | c :: rest => (singleQuoted rest).map fun (text, after) => (c :: text, after)

def doubleQuoted (nested : Parser Expr) (s : Text) : Option (Parts × Text) :=
  match s with
  | [] => none
  | '"' :: rest => some (.nil, rest)
  | ['\\'] => none
  | '\\' :: c :: rest =>
    (doubleQuoted nested rest).map fun (parts, after) => (parts.push (unescape c), after)
  | '#' :: '\x7b' :: rest =>
    match nested (skipSpace rest) with
    | none => none
    | some (value, inner) =>
      match skipSpace inner with
      | '\x7d' :: outer =>
        if outer.length ≤ rest.length then
          (doubleQuoted nested outer).map fun (parts, after) => (.expr value parts, after)
        else none
      | _ => none
  | c :: rest =>
    (doubleQuoted nested rest).map fun (parts, after) => (parts.push c, after)
termination_by s.length

/-- The arguments of a call after the first, up to the closing parenthesis. -/
def moreArguments (nested : Parser Expr) (s : Text) : Option (List Expr × Text) :=
  match nested (skipSpace s) with
  | none => none
  | some (arg, after) =>
    match skipSpace after with
    | ',' :: rest =>
      if rest.length < s.length then
        (moreArguments nested rest).map fun (args, after) => (arg :: args, after)
      else none
    | ')' :: rest => some ([arg], rest)
    | _ => none
termination_by s.length

/-- The arguments of a call, if a parenthesis opens right here. -/
def arguments (nested : Parser Expr) : Parser (List Expr)
  | '(' :: rest =>
    match skipSpace rest with
    | ')' :: after => some ([], after)
    | inner => moreArguments nested inner
  | s => some ([], s)

def startsMethod : Text → Bool
  | '.' :: c :: _ => isNameStart c
  | _ => false

/-- The number of `::` scopes that follow a constant. -/
def scopes (s : Text) : Option (Nat × Text) :=
  match s with
  | ':' :: ':' :: rest =>
    match name? rest with
    | none => none
    | some (_, after) =>
      if after.length ≤ rest.length then (scopes after).map fun (n, last) => (n + 1, last)
      else none
  | _ => some (0, s)
termination_by s.length

/-- What a method of `File` stands for. -/
def fileCall (method : Text) (args : List Expr) : Expr :=
  match args with
  | [path] =>
    if method = "expand_path" then .expandPath path
    else if method = "dirname" then .dirname path
    else .other
  | [path, base] => if method = "expand_path" then .expandPathFrom path base else .other
  | _ => .other

/-- A constant, with its scopes and the method called on it. -/
def constant (nested : Parser Expr) : Parser Expr := fun s =>
  match name? s with
  | none => none
  | some (first, afterFirst) =>
    match scopes afterFirst with
    | none => none
    | some (depth, rest) =>
      if startsMethod rest then
        match name? rest.tail with
        | none => none
        | some (method, afterMethod) =>
          (arguments nested afterMethod).map fun (args, after) =>
            (if depth = 0 ∧ first = "File" then fileCall method args else .other, after)
      else some (.other, rest)

/-- A marker, a name or a call without receiver. -/
def nameCall (nested : Parser Expr) : Parser Expr := fun s =>
  match name? s with
  | none => none
  | some (name, rest) =>
    if name = "__FILE__" then some (.currentFile, rest)
    else if name = "__dir__" then
      match rest with
      | '(' :: ')' :: after => some (.currentDir, after)
      | _ => some (.currentDir, rest)
    else (arguments nested rest).map fun (_, after) => (.ident name, after)

/-- An expression without methods and sums. -/
def primary (nested : Parser Expr) : Parser Expr
  | [] => none
  | '\x27' :: rest => (singleQuoted rest).map fun (text, after) => (.str text, after)
  | '"' :: rest => (doubleQuoted nested rest).map fun (parts, after) => (parts.toExpr, after)
  | '(' :: rest =>
    match nested (skipSpace rest) with
    | none => none
    | some (inner, after) =>
      match skipSpace after with
      | ')' :: last => some (inner, last)
      | _ => none
  | ':' :: ':' :: rest => constant nested rest
  | c :: rest =>
    if c.isUpper then constant nested (c :: rest)
    else if isNameStart c then nameCall nested (c :: rest)
    else none

/-- The methods called on an expression: with any of them it is no longer modelled. -/
def methods (nested : Parser Expr) (receiver : Expr) (s : Text) : Option (Expr × Text) :=
  if startsMethod s then
    match name? s.tail with
    | none => none
    | some (_, afterName) =>
      match arguments nested afterName with
      | none => none
      | some (_, after) =>
        if after.length < s.length then methods nested .other after else none
  else some (receiver, s)
termination_by s.length

def operand (nested : Parser Expr) : Parser Expr := fun s =>
  match primary nested s with
  | none => none
  | some (receiver, after) => methods nested receiver after

/-- The text after a `+` and the blanks around it, unless the `+` assigns. -/
def afterPlus? (s : Text) : Option Text :=
  match skipInline s with
  | '+' :: rest => if rest.head? = some '=' then none else some (skipSpace rest)
  | _ => none

def addends (nested : Parser Expr) (left : Expr) (s : Text) : Option (Expr × Text) :=
  match afterPlus? s with
  | none => some (left, s)
  | some rest =>
    match operand nested rest with
    | none => none
    | some (right, after) =>
      if after.length < s.length then addends nested (.concat left right) after else none
termination_by s.length

def sum (nested : Parser Expr) : Parser Expr := fun s =>
  match operand nested s with
  | none => none
  | some (left, after) => addends nested left after

/-- Reads one expression and returns the text after it. -/
def parse? (s : Text) : Option (Expr × Text) :=
  sum (fun t => if t.length < s.length then parse? t else none) s
termination_by s.length

/-- Reads one expression and returns the number of bytes that it spans. -/
def parseSpan? (s : Text) : Option (Expr × Nat) :=
  (parse? s).map fun (value, rest) => (value, Text.byteSize s - Text.byteSize rest)

end RequireLint.Expr
