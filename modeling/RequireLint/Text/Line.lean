import RequireLint.Text

/-!
# Lines and positions

A content is read line by line.  Each line knows the byte where it starts, so that columns
can be turned into positions, and `locate` turns a position into a line number and a column.
-/

namespace RequireLint.Text

/-- The first line with its line feed, and what follows it. -/
def splitLine : Text → Text × Text
  | [] => ([], [])
  | c :: rest =>
    if c = '\n' then ([c], rest)
    else
      let (line, after) := splitLine rest
      (c :: line, after)

theorem splitLine_join (t : Text) : (splitLine t).1 ++ (splitLine t).2 = t := by
  induction t with
  | nil => rfl
  | cons c rest ih =>
    by_cases h : c = '\n'
    · simp [splitLine, h]
    · simpa [splitLine, h] using ih

theorem length_splitLine_lt (c : Char) (t : Text) :
    (splitLine (c :: t)).2.length < (c :: t).length := by
  induction t generalizing c with
  | nil => by_cases h : c = '\n' <;> simp [splitLine, h]
  | cons d rest ih =>
    by_cases h : c = '\n'
    · simp [splitLine, h]
    · have := ih d
      rw [splitLine]
      simp only [h, if_false]
      simp only [List.length_cons] at this ⊢
      omega

structure Line where
  /-- Byte position of the line in its content. -/
  start : Nat
  /-- The line with its line feed, if it has one. -/
  whole : Text
  /-- The content after the line. -/
  after : Text
deriving Repr, DecidableEq

namespace Line

/-- The line without the carriage returns and line feeds at its end. -/
def body (line : Line) : Text :=
  line.whole.dropEndWhile fun c => c = '\n' || c = '\r'

def onwards (line : Line) : Text := line.whole ++ line.after

end Line

/-- The lines of a text that begins at byte `start` of its content. -/
def linesFrom (start : Nat) (t : Text) : List Line :=
  match t with
  | [] => []
  | c :: rest =>
    let parts := splitLine (c :: rest)
    ⟨start, parts.1, parts.2⟩ :: linesFrom (start + byteSize parts.1) parts.2
termination_by t.length
decreasing_by exact length_splitLine_lt c rest

def lines (content : Text) : List Line := linesFrom 0 content

/-- The positions that follow a line feed, for a text that begins at byte `start`. -/
def lineBreaksFrom (start : Nat) : Text → List Nat
  | [] => []
  | c :: rest =>
    let next := start + c.utf8Size
    if c = '\n' then next :: lineBreaksFrom next rest else lineBreaksFrom next rest

/-- The positions where lines start.  A final line feed starts an empty last line. -/
def lineStarts (content : Text) : List Nat := 0 :: lineBreaksFrom 0 content

/-- Line and column of a byte position, both counted from one.  Positions past the end lie on
the last line. -/
def locate (content : Text) (position : Nat) : Nat × Nat :=
  let passed := (lineStarts content).filter (· ≤ position)
  (passed.length, position - passed.getLastD 0 + 1)

/-- The part of the line of `position` that lies before it. -/
def lineBefore (content : Text) (position : Nat) : Text :=
  let before := content.takeBytes position
  (afterLast? ['\n'] before).getD before

/-- The positions in a text that begins at byte `start` where `p` holds of the rest. -/
def positionsFrom (p : Text → Bool) (start : Nat) : Text → List Nat
  | [] => []
  | c :: rest =>
    let later := positionsFrom p (start + c.utf8Size) rest
    if p (c :: rest) then start :: later else later

end RequireLint.Text
