import RequireLint.Failure

/-!
# Contents of files

A file holds a text, or bytes that are not the UTF-8 encoding of one.
-/

namespace RequireLint

/-- What a file holds. -/
inductive FileContent where
  | text (content : Text)
  /-- Bytes that are not UTF-8. -/
  | binary (bytes : List UInt8)
deriving Repr, DecidableEq

namespace FileContent

/-- The text that bytes encode, if they are UTF-8. -/
def decode? (bytes : List UInt8) : Option Text :=
  (String.fromUTF8? ⟨bytes.toArray⟩).map String.toList

/-- The content with given bytes. -/
def ofBytes (bytes : List UInt8) : FileContent :=
  match decode? bytes with
  | some content => .text content
  | none => .binary bytes

/-- The text of a file. -/
def asText : FileContent → Except FileError Text
  | text content => .ok content
  | binary _ => .error .notText

/-- The text up to the first line that is not UTF-8. -/
def leadingText : FileContent → Text
  | text content => content
  | binary bytes =>
    let lines := (bytes.splitOn 10).map decode?
    ((lines.takeWhile (·.isSome)).flatMap fun line => line.getD [] ++ ['\n'])

end FileContent

end RequireLint
