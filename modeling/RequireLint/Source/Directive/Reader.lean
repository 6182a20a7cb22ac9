import RequireLint.Source.Directive
import RequireLint.Source.Expr.Parser
import RequireLint.Text.Blank
import RequireLint.Text.Line

/-!
# Finding the inclusion calls of a content

A directive is read where a statement starts: at the start of a line or after a `;` that
stands outside string literals and comments.  Comment lines, block comments and everything
after the end marker are not code.  The argument may go on over the following lines.
-/

namespace RequireLint

/-- The start of a statement on a line. -/
structure Statement where
  /-- Bytes of the line before it. -/
  offset : Nat
  /-- The rest of the line. -/
  rest : Text
deriving Repr, DecidableEq

/-- Where a reader of a line is with respect to string literals. -/
inductive Quoting where
  | outside
  /-- Inside a literal; `escaped` holds right after a backslash. -/
  | inside (quote : Char) (escaped : Bool)
deriving Repr, DecidableEq

/-- The statements that start after a `;` in a text that begins `offset` bytes into its line. -/
def Statement.afterSemicolons : Quoting → Nat → Text → List Statement
  | _, _, [] => []
  | .inside quote escaped, offset, c :: rest =>
    let next : Quoting :=
      if escaped then .inside quote false
      else if c = '\\' then .inside quote true
      else if c = quote then .outside
      else .inside quote false
    afterSemicolons next (offset + c.utf8Size) rest
  | .outside, offset, c :: rest =>
    let later := offset + c.utf8Size
    if c = '\x27' ∨ c = '"' then afterSemicolons (.inside c false) later rest
    else if c = '#' then []
    else if c = ';' then ⟨later, rest⟩ :: afterSemicolons .outside later rest
    else afterSemicolons .outside later rest

def Statement.ofLine (body : Text) : List Statement :=
  ⟨0, body⟩ :: Statement.afterSemicolons .outside 0 body

/-- The lines that hold code, with their numbers.  `comment` tells whether the first line lies
in a block comment. -/
def codeLines (comment : Bool) (number : Nat) : List Text.Line → List (Nat × Text.Line)
  | [] => []
  | line :: rest =>
    let body := line.body
    if comment then codeLines (!body.startsWith "=end") (number + 1) rest
    else if body.startsWith "=begin" then codeLines true (number + 1) rest
    else if body = "__END__" then []
    else if (Text.trimStart body).startsWith "#" then codeLines false (number + 1) rest
    else (number, line) :: codeLines false (number + 1) rest

/-- The directive at the start of a text, and the text after its keyword. -/
def Directive.read? (t : Text) : Option (Directive × Text) :=
  match Text.dropPrefix? Directive.requireRelative.keyword t with
  | some after => some (.requireRelative, after)
  | none => (Text.dropPrefix? Directive.require.keyword t).map fun after => (.require, after)

/-- Whether the text after a keyword can be its argument: something follows that is neither
an assignment nor the rest of another expression. -/
def startsArgument (after : Text) : Bool :=
  (match after with
    | c :: _ => Text.isInlineBlank c || c == '('
    | [] => false) &&
  (match Text.trim after with
    | c :: _ => !(c == '=' || c == '.' || c == ',' || c == ')' || c == '?')
    | [] => false)

/-- An inclusion call as it was read. -/
structure Reading where
  call : InclusionCall
  /-- Whether its argument could be delimited.  If not, the call takes the rest of its line. -/
  understood : Bool
deriving Repr, DecidableEq

def Statement.reading? (number : Nat) (line : Text.Line) (statement : Statement) :
    Option Reading :=
  let indent := Text.byteSize (statement.rest.takeWhile Text.isInlineBlank)
  match Directive.read? (statement.rest.dropWhile Text.isInlineBlank) with
  | none => none
  | some (kind, after) =>
    if startsArgument after then
      let gap := Text.byteSize (after.takeWhile Text.isInlineBlank)
      let column := statement.offset + indent
      let argumentOffset := column + Text.byteSize kind.keyword + gap
      let span (stop : Nat) : Span := ⟨line.start + column, line.start + stop, number, column + 1⟩
      match Expr.parseSpan? (line.onwards.dropBytes argumentOffset) with
      | some (argument, length) => some ⟨⟨kind, argument, span (argumentOffset + length)⟩, true⟩
      | none => some ⟨⟨kind, .other, span (Text.byteSize (Text.trimEnd line.body))⟩, false⟩
    else none

/-- The inclusion calls of a content as they were read, in order. -/
def readings (content : Text) : List Reading :=
  (codeLines false 1 (Text.lines content)).flatMap fun (number, line) =>
    (Statement.ofLine line.body).filterMap (Statement.reading? number line)

def inclusionCalls (content : Text) : List InclusionCall := (readings content).map (·.call)

end RequireLint
