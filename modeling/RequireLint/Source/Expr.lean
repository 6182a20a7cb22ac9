import RequireLint.Text

/-!
# Argument expressions

The argument of an inclusion call is read as an expression of a small language: string
literals, the markers for the current file and its directory, receiver-less names, the path
functions of `File` and the sum of two expressions.  What lies outside the language is `other`.
-/

namespace RequireLint

mutual

inductive Expr where
  /-- A string literal without interpolation. -/
  | str (text : Text)
  /-- A double-quoted literal with at least one interpolated expression. -/
  | interpolated (parts : Parts)
  /-- The marker `__FILE__`. -/
  | currentFile
  /-- The marker `__dir__`. -/
  | currentDir
  /-- A name or a call without receiver; the arguments of the call are dropped. -/
  | ident (name : Text)
  /-- `File.expand_path` of a path alone. -/
  | expandPath (path : Expr)
  /-- `File.expand_path` of a path against a base. -/
  | expandPathFrom (path base : Expr)
  /-- `File.dirname` of a path. -/
  | dirname (path : Expr)
  /-- The sum of two expressions. -/
  | concat (left right : Expr)
  /-- Any other expression that can be delimited. -/
  | other
deriving Repr, DecidableEq

/-- The parts of a double-quoted literal, in order. -/
inductive Parts where
  | nil
  /-- Literal characters, then further parts. -/
  | text (chars : Text) (rest : Parts)
  /-- An interpolated expression, then further parts. -/
  | expr (value : Expr) (rest : Parts)
deriving Repr, DecidableEq

end

/-- Puts one literal character in front, joining it with literal characters there. -/
def Parts.push (c : Char) : Parts → Parts
  | .text chars rest => .text (c :: chars) rest
  | parts => .text [c] parts

/-- The literal made of some parts: a plain string unless something is interpolated. -/
def Parts.toExpr : Parts → Expr
  | .nil => .str []
  | .text chars .nil => .str chars
  | parts => .interpolated parts

namespace Expr

def isNameStart (c : Char) : Bool := c.isAlpha || c == '_'

def isNameChar (c : Char) : Bool := c.isAlphanum || c == '_'

/-- The character that an escape in a double-quoted literal stands for. -/
def unescape (c : Char) : Char :=
  if c = 'n' then '\n'
  else if c = 't' then '\t'
  else if c = 'r' then '\r'
  else if c = '0' then Char.ofNat 0
  else c

end Expr

end RequireLint
