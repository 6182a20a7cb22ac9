/-!
# Texts and byte positions

A text is the list of its characters.  Positions, lengths and columns are counted in
bytes of the UTF-8 encoding, so that a span can be handed to any tool that edits files;
`Text.splitBytes` turns a byte position back into a cut of the list.
-/

namespace RequireLint

/-- A text is the list of its characters. -/
abbrev Text := List Char

instance : Coe String Text := ⟨String.toList⟩

namespace Text

def toString (t : Text) : String := String.ofList t

def byteSize : Text → Nat
  | [] => 0
  | c :: t => c.utf8Size + byteSize t

/-- Cuts a text after the characters that fit into the first `n` bytes. -/
def splitBytes : Nat → Text → Text × Text
  | _, [] => ([], [])
  | n, c :: t =>
    if c.utf8Size ≤ n then
      let (taken, rest) := splitBytes (n - c.utf8Size) t
      (c :: taken, rest)
    else ([], c :: t)

def takeBytes (n : Nat) (t : Text) : Text := (splitBytes n t).1

def dropBytes (n : Nat) (t : Text) : Text := (splitBytes n t).2

def slice (start stop : Nat) (t : Text) : Text :=
  takeBytes (stop - start) (dropBytes start t)

/-- What follows `lead`, when the text begins with it. -/
def dropPrefix? : (lead t : Text) → Option Text
  | [], t => some t
  | _ :: _, [] => none
  | a :: lead, b :: t => if a = b then dropPrefix? lead t else none

def startsWith (t lead : Text) : Bool := (dropPrefix? lead t).isSome

def endsWith (t tail : Text) : Bool := startsWith t.reverse tail.reverse

def contains (t word : Text) : Bool :=
  match t with
  | [] => word.isEmpty
  | c :: rest => startsWith (c :: rest) word || contains rest word

/-- What follows the last occurrence of `word`. -/
def afterLast? (word : Text) : Text → Option Text
  | [] => dropPrefix? word []
  | c :: rest => (afterLast? word rest).orElse fun _ => dropPrefix? word (c :: rest)

/-- What precedes the last occurrence of the character `sep`. -/
def beforeLast? (sep : Char) : Text → Option Text
  | [] => none
  | c :: rest =>
    match beforeLast? sep rest with
    | some lead => some (c :: lead)
    | none => if c = sep then some [] else none

/-- The text without the characters of `p` at its end. -/
def dropEndWhile (p : Char → Bool) : Text → Text
  | [] => []
  | c :: rest =>
    match dropEndWhile p rest with
    | [] => if p c then [] else [c]
    | kept => c :: kept

def join (sep : Text) (ts : List Text) : Text := List.intercalate sep ts

/-- Blanks that do not end a line: a space or a tab. -/
def isInlineBlank (c : Char) : Bool := c = ' ' || c = '\t'

/-- The value of a digit in a base of at most sixteen. -/
def digitValue? (base : Nat) (c : Char) : Option Nat :=
  let value :=
    if c.isDigit then c.toNat - 48
    else if 'a' ≤ c ∧ c ≤ 'f' then c.toNat - 87
    else if 'A' ≤ c ∧ c ≤ 'F' then c.toNat - 55
    else base
  if value < base then some value else none

def ofNat (n : Nat) : Text := Nat.toDigits 10 n

/-- Pads with spaces on the right up to `width` characters. -/
def padRight (width : Nat) (t : Text) : Text :=
  t ++ List.replicate (width - t.length) ' '

/-- Lower case of the ASCII letters; other characters stay as they are. -/
def toLowerAscii (t : Text) : Text := t.map Char.toLower

/-- Order of texts by code point, which is also the order of their UTF-8 bytes. -/
def le : Text → Text → Bool
  | [], _ => true
  | _ :: _, [] => false
  | a :: t, b :: u => if a = b then le t u else decide (a.val < b.val)

@[simp] theorem byteSize_append (t u : Text) :
    byteSize (t ++ u) = byteSize t + byteSize u := by
  induction t with
  | nil => simp [byteSize]
  | cons c t ih => simp [byteSize, ih, Nat.add_assoc]

/-- Cutting at the byte size of the first part gives the two parts back. -/
@[simp] theorem splitBytes_append (t u : Text) :
    splitBytes (byteSize t) (t ++ u) = (t, u) := by
  induction t with
  | nil =>
    cases u with
    | nil => rfl
    | cons c u =>
      have : ¬ c.utf8Size ≤ 0 := Nat.not_le.2 c.utf8Size_pos
      simp [splitBytes, byteSize, this]
  | cons c t ih => simp [splitBytes, byteSize, ih]

/-- `dropPrefix?` removes exactly the given text. -/
theorem dropPrefix?_eq_some {lead t rest : Text} :
    dropPrefix? lead t = some rest ↔ t = lead ++ rest := by
  induction lead generalizing t with
  | nil => simp [dropPrefix?, eq_comm]
  | cons a lead ih =>
    cases t with
    | nil => simp [dropPrefix?]
    | cons b t =>
      by_cases h : a = b
      · simp [dropPrefix?, h, ih]
      · simp [dropPrefix?, h, Ne.symm h]

end Text

end RequireLint
