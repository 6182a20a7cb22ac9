import RequireLint.Text.Visible
import RequireLint.Text

/-!
# Quoted texts

A text is shown to a reader between double quotes, with every character that could be
mistaken written as an escape.
-/

namespace RequireLint.Text

/-- The number of a character in hexadecimal digits, at least `width` of them. -/
def hexDigits (width : Nat) (c : Char) : Text :=
  let digits := Nat.toDigits 16 c.toNat
  List.replicate (width - digits.length) '0' ++ digits

/-- A character as it stands between quotes. -/
def quotedChar (c : Char) : Text :=
  if c = '"' ∨ c = '\\' then ['\\', c]
  else if c = '\n' then "\\n"
  else if c = '\r' then "\\r"
  else if c = '\t' then "\\t"
  else if c.toNat = 0 then "\\0"
  else if isVisible c then [c]
  else ['\\', 'u', '\x7b'] ++ hexDigits 1 c ++ ['\x7d']

def quoted (t : Text) : Text := ['"'] ++ t.flatMap quotedChar ++ ['"']

def quotedList (ts : List Text) : Text := ['['] ++ join ", " (ts.map quoted) ++ [']']

end RequireLint.Text
