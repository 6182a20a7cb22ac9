import RequireLint.Correction
import RequireLint.Rule.Inclusion
import RequireLint.Text.Word

/-!
# Calls of git in a specification block

A package manifest describes the package in the block of `Gem::Specification.new`.  The block
is opened on the line of its header by a word or by a brace.  Inside it no shell command may
start with `git`.
-/

namespace RequireLint

namespace Specification

/-- The constructor that a specification block belongs to. -/
def constructor : Text := "Gem::Specification.new"

/-- Whether a text goes on after a word that ended right before it. -/
def continuesWord (t : Text) : Bool :=
  match t with
  | c :: _ => Text.isWord c
  | [] => false

/-- The positions right after the constructors of a content that are not in comment lines. -/
def headers (content : Text) : List Nat :=
  let isHeader (t : Text) : Bool :=
    match Text.dropPrefix? constructor t with
    | some after => !continuesWord after
    | none => false
  ((Text.positionsFrom isHeader 0 content).filter fun position =>
      !(Text.trimStart (Text.lineBefore content position)).startsWith "#").map
    (· + Text.byteSize constructor)

/-- The position of the word `do` in a text that begins `offset` bytes in.  `inWord` tells
whether a word ends right before the text. -/
def doWord? (inWord : Bool) (offset : Nat) : Text → Option Nat
  | [] => none
  | c :: rest =>
    if !inWord && c == 'd' && rest.head? == some 'o' && !continuesWord rest.tail then some offset
    else doWord? (Text.isWord c) (offset + c.utf8Size) rest

/-- The position of the first brace that opens, in a text that begins `offset` bytes in. -/
def brace? (offset : Nat) : Text → Option Nat
  | [] => none
  | c :: rest => if c = '\x7b' then some offset else brace? (offset + c.utf8Size) rest

/-- The number of bytes up to the brace that balances the text, or of the whole text.  `depth`
counts the braces that are open. -/
def balancedSize (depth : Nat) : Text → Nat
  | [] => 0
  | c :: rest =>
    if c = '\x7b' then c.utf8Size + balancedSize (depth + 1) rest
    else if c = '\x7d' then
      if depth ≤ 1 then c.utf8Size else c.utf8Size + balancedSize (depth - 1) rest
    else c.utf8Size + balancedSize depth rest

def indentation (line : Text) : Nat := (line.takeWhile Text.isInlineBlank).length

def startsWithEnd (line : Text) : Bool :=
  match Text.dropPrefix? "end" (line.dropWhile Text.isInlineBlank) with
  | some (c :: _) => !(c.isAlphanum || c == '_')
  | some [] => true
  | none => false

/-- Whether a line closes a block that was opened at some indentation. -/
def closes (indent : Nat) (line : Text) : Bool :=
  startsWithEnd line && indentation line ≤ indent

/-- The block that belongs to the constructor before `header`.  A word block goes up to the line
that closes it, a brace block up to the brace that balances the first one. -/
def block? (content : Text) (header : Nat) : Option ByteRange :=
  let rest := content.dropBytes header
  let line := rest.takeWhile (· ≠ '\n')
  let braces (offset : Nat) : ByteRange :=
    ⟨header + offset, header + offset + balancedSize 0 (rest.dropBytes offset)⟩
  match doWord? false 0 line, brace? 0 line with
  | none, none => none
  | none, some offset => some (braces offset)
  | some word, found =>
    match found.filter (· < word) with
    | some offset => some (braces offset)
    | none =>
      let lineEnd := header + Text.byteSize line
      let indent := indentation (Text.lineBefore content header ++ line)
      let later := Text.linesFrom lineEnd (content.dropBytes lineEnd)
      let stop := (later.find? fun l => closes indent l.whole).map (·.start)
      some ⟨header, stop.getD (Text.byteSize content)⟩

structure ShellCommand where
  /-- Position of the literal. -/
  start : Nat
  literal : Text
  command : Text
deriving Repr, DecidableEq

/-- The quote of the short form of a shell command. -/
def backtick : Char := '\x60'

/-- What stands before the first `close` in a text, and the text after it. -/
def until? (close : Char) : Text → Option (Text × Text)
  | [] => none
  | c :: rest =>
    if c = close then some ([], rest)
    else (until? close rest).map fun (inner, after) => (c :: inner, after)

/-- The brackets that the long form of a shell command can stand in. -/
def brackets : List (Char × Char) := [('(', ')'), ('\x7b', '\x7d'), ('[', ']')]

/-- The shell command at the start of a text: what opens it, what it runs and what closes it. -/
def shellLiteral? (t : Text) : Option (Text × Text × Text) :=
  match t with
  | '%' :: 'x' :: c :: rest =>
    match brackets.find? fun pair => pair.1 = c with
    | none => none
    | some (_, close) => (until? close rest).map fun (inner, _) => (['%', 'x', c], inner, [close])
  | c :: rest =>
    if c = backtick then
      match until? backtick rest with
      | some (inner, _) => if inner.any (· = '\n') then none else some ([c], inner, [c])
      | none => none
    else none
  | [] => none

/-- The shell commands in a text that begins at byte `start` of its content. -/
def shellCommandsFrom (start : Nat) (t : Text) : List ShellCommand :=
  match t with
  | [] => []
  | c :: rest =>
    match shellLiteral? (c :: rest) with
    | some (opening, inner, closing) =>
      let literal := opening ++ inner ++ closing
      ⟨start, literal, inner⟩ ::
        shellCommandsFrom (start + Text.byteSize literal) (rest.drop (literal.length - 1))
    | none => shellCommandsFrom (start + c.utf8Size) rest
termination_by t.length

/-- The calls of git in a block that do not stand in comment lines. -/
def gitCommands (content : Text) (block : ByteRange) : List ShellCommand :=
  (shellCommandsFrom block.start (content.slice block.start block.stop)).filter fun shell =>
    shell.command.startsWith "git" &&
      !(Text.trimStart (Text.lineBefore content shell.start)).startsWith "#"

def ShellCommand.offense (shell : ShellCommand) (content : Text) : Offense :=
  let (line, column) := Text.locate content shell.start
  ⟨.gemspecGit, ⟨shell.start, shell.start + Text.byteSize shell.literal, line, column⟩,
    shell.literal, none⟩

/-- The calls of git in the specification blocks of a manifest. -/
def offenses (unit : SourceUnit) : List Offense :=
  if unit.context.isManifest then
    (headers unit.content).flatMap fun header =>
      match block? unit.content header with
      | none => []
      | some block =>
        (gitCommands unit.content block).map fun shell => shell.offense unit.content
  else []

end Specification

end RequireLint
