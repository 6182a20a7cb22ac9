import RequireLint.Source.Expr

/-!
# Writing an expression

Each expression has a written form in the language that the parser reads.  Strings without
interpolation stand between single quotes, and a sum on the right of a sum in parentheses.
-/

namespace RequireLint

/-- A character of a string between single quotes. -/
def Expr.escapedSingle (c : Char) : Text :=
  if c = '\x27' ∨ c = '\\' then ['\\', c] else [c]

/-- A character of a string between double quotes. -/
def Expr.escapedDouble (c : Char) : Text :=
  if c = '"' ∨ c = '\\' ∨ c = '#' then ['\\', c] else [c]

def Expr.isSum : Expr → Bool
  | .concat _ _ => true
  | _ => false

def Expr.parenthesized (t : Text) : Text := ['('] ++ t ++ [')']

mutual

def Expr.render : Expr → Text
  | .str text => ['\x27'] ++ text.flatMap Expr.escapedSingle ++ ['\x27']
  | .interpolated parts => ['"'] ++ Parts.render parts ++ ['"']
  | .currentFile => "__FILE__"
  | .currentDir => "__dir__"
  | .ident name => name
  | .expandPath path => ("File.expand_path" : Text) ++ Expr.parenthesized (Expr.render path)
  | .expandPathFrom path base =>
    ("File.expand_path" : Text) ++
      Expr.parenthesized (Expr.render path ++ (", " : Text) ++ Expr.render base)
  | .dirname path => ("File.dirname" : Text) ++ Expr.parenthesized (Expr.render path)
  | .concat left right =>
    Expr.render left ++ (" + " : Text) ++
      (if Expr.isSum right then Expr.parenthesized (Expr.render right) else Expr.render right)
  | .other => "Other"

def Parts.render : Parts → Text
  | .nil => []
  | .text chars rest => chars.flatMap Expr.escapedDouble ++ Parts.render rest
  | .expr value rest =>
    ['#', '\x7b'] ++ Expr.render value ++ ['\x7d'] ++ Parts.render rest

end

end RequireLint
