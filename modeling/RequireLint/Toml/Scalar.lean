import RequireLint.Text

/-!
# Numbers, dates and times of TOML

A value without delimiters of its own is a word of letters, digits and a few signs.  What such
a word is, if anything, is told here.
-/

namespace RequireLint.Toml

/-- Whether a character can be part of an undelimited value. -/
def isWordChar (c : Char) : Bool :=
  c.isAlphanum || c == '+' || c == '-' || c == '_' || c == '.' || c == ':'

/-- The number that some digits in a base stand for.  Single underscores may stand between
digits. -/
def digits? (base : Nat) (t : Text) : Option Nat :=
  let add (total : Option Nat) (c : Char) : Option Nat :=
    total.bind fun n => (Text.digitValue? base c).map fun d => n * base + d
  (t.splitOn '_').foldl (fun total group => if group.isEmpty then none else group.foldl add total)
    (some 0)

/-- A text without its sign, and whether that is a minus. -/
def splitSign (t : Text) : Bool × Text :=
  match t with
  | '-' :: rest => (true, rest)
  | '+' :: rest => (false, rest)
  | _ => (false, t)

def hasLeadingZero (t : Text) : Bool := t.head? == some '0' && 1 < t.length

/-- Whether a word is an integer that fits into 128 bits. -/
def isInteger (word : Text) : Bool :=
  let fits (bound : Nat) (n : Option Nat) : Bool := n.any (· < bound)
  match word with
  | '0' :: 'x' :: rest => fits (Nat.pow 2 128) (digits? 16 rest)
  | '0' :: 'o' :: rest => fits (Nat.pow 2 128) (digits? 8 rest)
  | '0' :: 'b' :: rest => fits (Nat.pow 2 128) (digits? 2 rest)
  | _ =>
    let (negative, body) := splitSign word
    let bound := if negative then Nat.pow 2 127 + 1 else Nat.pow 2 128
    !hasLeadingZero body && fits bound (digits? 10 body)

/-- Whether `mantissa` times ten to the power of `exponent` rounds to a number of 64 bits. -/
def fitsDouble (mantissa : Nat) (exponent : Int) : Bool :=
  let bound := Nat.pow 2 1024 - Nat.pow 2 970
  let size := (Nat.toDigits 10 mantissa).length + exponent
  if mantissa = 0 ∨ size < 300 then true
  else if 310 < size then false
  else if 0 ≤ exponent then mantissa * Nat.pow 10 exponent.toNat < bound
  else mantissa < bound * Nat.pow 10 (-exponent).toNat

def isExponentMark (c : Char) : Bool := c == 'e' || c == 'E'

/-- The exponent of a number, from its mark on. -/
def exponent? : Text → Option Int
  | [] => some 0
  | _ :: t =>
    let (negative, magnitude) := splitSign t
    (digits? 10 magnitude).map fun n => if negative then -(n : Int) else (n : Int)

/-- The digits of a fraction, from its point on. -/
def fraction? : Text → Option Text
  | [] => some []
  | _ :: t => (digits? 10 t).map fun _ => t.filter (· ≠ '_')

/-- Whether a word is a floating-point number in range.  It has a fraction, an exponent or
both. -/
def isFloat (word : Text) : Bool :=
  let body := (splitSign word).2
  if body = "inf" ∨ body = "nan" then true
  else
    let number := body.takeWhile (!isExponentMark ·)
    let power := body.dropWhile (!isExponentMark ·)
    let whole := number.takeWhile (· ≠ '.')
    let places := number.dropWhile (· ≠ '.')
    match digits? 10 whole, fraction? places, exponent? power with
    | some _, some fraction, some exponent =>
      !(places.isEmpty && power.isEmpty) && !hasLeadingZero whole &&
        (digits? 10 (whole.filter (· ≠ '_') ++ fraction)).any
          (fitsDouble · (exponent - fraction.length))
    | _, _, _ => false

/-- The number that the first `n` characters stand for, all of them digits, and the rest. -/
def fixedDigits? (n : Nat) (t : Text) : Option (Nat × Text) :=
  let lead := t.take n
  if lead.length = n ∧ lead.all Char.isDigit then (digits? 10 lead).map fun v => (v, t.drop n)
  else none

/-- The text after a given character. -/
def past? (c : Char) (t : Text) : Option Text :=
  match t with
  | d :: rest => if d = c then some rest else none
  | [] => none

def daysInMonth (year month : Nat) : Nat :=
  if month = 2 then
    if year % 4 = 0 ∧ (year % 100 ≠ 0 ∨ year % 400 = 0) then 29 else 28
  else if month = 4 ∨ month = 6 ∨ month = 9 ∨ month = 11 then 30
  else 31

def afterDate? (t : Text) : Option Text := do
  let (year, t) ← fixedDigits? 4 t
  let t ← past? '-' t
  let (month, t) ← fixedDigits? 2 t
  let t ← past? '-' t
  let (day, t) ← fixedDigits? 2 t
  if 1 ≤ month ∧ month ≤ 12 ∧ 1 ≤ day ∧ day ≤ daysInMonth year month then some t else none

/-- The text after a time of day.  The seconds can be left out. -/
def afterTime? (t : Text) : Option Text := do
  let (hour, t) ← fixedDigits? 2 t
  let t ← past? ':' t
  let (minute, t) ← fixedDigits? 2 t
  if 23 < hour ∨ 59 < minute then none
  else
    match t with
    | ':' :: rest =>
      let (second, t) ← fixedDigits? 2 rest
      if 60 < second then none
      else
        match t with
        | '.' :: c :: rest => if c.isDigit then some (rest.dropWhile Char.isDigit) else none
        | _ => some t
    | _ => some t

def isOffset (t : Text) : Bool :=
  match t with
  | [c] => c == 'Z' || c == 'z'
  | sign :: rest =>
    let parts := do
      let (hour, t) ← fixedDigits? 2 rest
      let t ← past? ':' t
      let (minute, t) ← fixedDigits? 2 t
      if t.isEmpty then some (hour, minute) else none
    (sign == '+' || sign == '-') && parts.any fun (hour, minute) => hour ≤ 24 && minute ≤ 59
  | [] => false

def isTime (offset : Bool) (t : Text) : Bool :=
  match afterTime? t with
  | none => false
  | some rest => rest.isEmpty || (offset && isOffset rest)

/-- Whether a word is a date, a time or both with a letter between them. -/
def isMoment (word : Text) : Bool :=
  match afterDate? word with
  | some [] => true
  | some (c :: rest) => (c == 'T' || c == 't') && isTime true rest
  | none => isTime false word

end RequireLint.Toml
