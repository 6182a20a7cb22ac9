import RequireLint.Glob.Pattern

/-!
# Matching globs

A path is matched as the bytes of its text, so that `?` stands for one byte.  `matchTokens`
says what a sequence of tokens followed by anything that `next` accepts makes of the bytes.
-/

namespace RequireLint

/-- The bytes of a text in UTF-8. -/
def Text.bytes (t : Text) : List UInt8 := t.flatMap String.utf8EncodeChar

namespace Glob

/-- The byte of the separator of paths. -/
def slash : UInt8 := 47

/-- Whether `next` accepts what follows some first bytes that all satisfy `allowed`. -/
def afterSome (allowed : UInt8 → Bool) (next : List UInt8 → Bool) : List UInt8 → Bool
  | [] => next []
  | b :: rest => next (b :: rest) || (allowed b && afterSome allowed next rest)

/-- Whether `next` accepts what follows some separator. -/
def afterSlash (next : List UInt8 → Bool) : List UInt8 → Bool
  | [] => false
  | b :: rest => (b == slash && next rest) || afterSlash next rest

/-- Whether `next` accepts what follows a separator at the start. -/
def pastSlash (next : List UInt8 → Bool) : List UInt8 → Bool
  | [] => false
  | b :: rest => b == slash && next rest

/-- Whether `next` accepts what follows some given bytes at the start. -/
def pastBytes (next : List UInt8 → Bool) : (wanted bytes : List UInt8) → Bool
  | [], bytes => next bytes
  | _ :: _, [] => false
  | w :: wanted, b :: bytes => w == b && pastBytes next wanted bytes

/-- The ranges of bytes that a bracket lists.  A character of several bytes lists each of its
bytes, and a range runs from the last byte of its first character to the first byte of its
last. -/
def byteRanges (low high : Char) : List (UInt8 × UInt8) :=
  let single (bytes : List UInt8) : List (UInt8 × UInt8) := bytes.map fun b => (b, b)
  let first := String.utf8EncodeChar low
  let last := String.utf8EncodeChar high
  if low = high then single first
  else single first.dropLast ++ [(first.getLastD 0, last.headD 0)] ++ single last.tail

/-- Whether a byte is in one of some ranges of characters. -/
def inRanges (ranges : List (Char × Char)) (b : UInt8) : Bool :=
  ranges.any fun range => (byteRanges range.1 range.2).any fun r => r.1 ≤ b && b ≤ r.2

mutual

/-- Matches one token, followed by what `next` accepts. -/
def matchToken (stopsAtSlash : Bool) (next : List UInt8 → Bool) :
    GlobToken → List UInt8 → Bool
  | .literal c, bytes => pastBytes next (String.utf8EncodeChar c) bytes
  | .any, bytes =>
    match bytes with
    | b :: rest => !(stopsAtSlash && b == slash) && next rest
    | [] => false
  | .many, bytes => afterSome (fun b => !(stopsAtSlash && b == slash)) next bytes
  | .leading, bytes => next bytes || afterSlash next bytes
  | .trailing, bytes => pastSlash (afterSome (fun _ => true) next) bytes
  | .between, bytes => pastSlash (fun rest => next rest || afterSlash next rest) bytes
  | .oneOf negated ranges, bytes =>
    match bytes with
    | b :: rest => (inRanges ranges b != negated) && next rest
    | [] => false
  | .alternatives branches, bytes => matchBranches stopsAtSlash next branches bytes

/-- Matches one of some sequences of tokens, followed by what `next` accepts. -/
def matchBranches (stopsAtSlash : Bool) (next : List UInt8 → Bool) :
    List (List GlobToken) → List UInt8 → Bool
  | [], _ => false
  | branch :: rest, bytes =>
    matchTokens stopsAtSlash next branch bytes || matchBranches stopsAtSlash next rest bytes

/-- Matches a sequence of tokens, followed by what `next` accepts. -/
def matchTokens (stopsAtSlash : Bool) (next : List UInt8 → Bool) :
    List GlobToken → List UInt8 → Bool
  | [], bytes => next bytes
  | token :: rest, bytes =>
    matchToken stopsAtSlash (matchTokens stopsAtSlash next rest) token bytes

end

end Glob

/-- A pattern in its dialect. -/
structure Glob where
  /-- How the tokens are understood. -/
  dialect : GlobDialect
  tokens : List GlobToken

namespace GlobToken

/-- The character that a token stands for, if it is a literal. -/
def literal? : GlobToken → Option Char
  | literal c => some c
  | _ => none

/-- Whether a token is a literal. -/
def isLiteral (token : GlobToken) : Bool := token.literal?.isSome

end GlobToken

namespace Glob

/-- The pattern with a given text. -/
def ofText (dialect : GlobDialect) (pattern : Text) : Except GlobError Glob :=
  (parse dialect pattern).map fun tokens => ⟨dialect, tokens⟩

/-- Whether a pattern asks for the end of a file name: its last token is a dot, and the pattern
neither spells out the whole path nor a suffix of it.  A path that ends in a dot has no file
name. -/
def asksForFileName (glob : Glob) : Bool :=
  let body :=
    match glob.tokens with
    | .leading :: rest => rest
    | tokens => tokens
  let hasLeading := body.length != glob.tokens.length
  let suffix :=
    match body with
    | .many :: rest => if glob.dialect.stopsAtSlash then body else rest
    | tokens => tokens
  let hasMany := suffix.length != body.length
  let literals := suffix.filterMap (·.literal?)
  let isSuffix := suffix.all (·.isLiteral) &&
    (if hasMany then literals != ['.'] else !hasLeading || literals.contains '/')
  (glob.tokens.getLast?.bind (·.literal?)) == some '.' && !isSuffix

/-- Whether a pattern matches a path. -/
def isMatch (glob : Glob) (path : Text) : Bool :=
  match glob.tokens with
  | [.leading] => true
  | tokens =>
    matchTokens glob.dialect.stopsAtSlash (·.isEmpty) tokens path.bytes &&
      !(glob.asksForFileName && path.endsWith ".")

end Glob

end RequireLint
