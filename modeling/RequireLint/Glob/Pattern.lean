import RequireLint.Text

/-!
# Glob patterns

A pattern is read into tokens.  `*` and `?` are wildcards, `**` as a whole segment stands for any
number of directories, brackets list characters, braces list alternatives and may be nested, and
a backslash takes the meaning away from the next character.
-/

namespace RequireLint

inductive GlobToken where
  | literal (c : Char)
  /-- Any one byte. -/
  | any
  /-- Any bytes. -/
  | many
  /-- A `**/` at the start: any directories, or none. -/
  | leading
  /-- A `/**` at the end: anything below a directory. -/
  | trailing
  /-- A `/**/` in between: a separator, or any directories. -/
  | between
  /-- One of some ranges of characters, or none of them. -/
  | oneOf (negated : Bool) (ranges : List (Char × Char))
  /-- One of some sequences of tokens. -/
  | alternatives (branches : List (List GlobToken))

inductive GlobError where
  /-- A `[` is not closed. -/
  | unclosedClass
  /-- A range runs backwards. -/
  | invalidRange (low high : Char)
  /-- A `}` is not opened. -/
  | unopenedAlternates
  /-- A brace is not closed. -/
  | unclosedAlternates
  /-- A backslash stands at the end. -/
  | danglingEscape
deriving Repr, DecidableEq

/-- The wording of an error in a pattern. -/
def GlobError.message (pattern : Text) (error : GlobError) : Text :=
  let reason : Text :=
    match error with
    | unclosedClass => "unclosed character class; missing ']'"
    | invalidRange low high =>
      ("invalid range; '" : Text) ++ [low] ++ ("' > '" : Text) ++ [high] ++ ("'" : Text)
    | unopenedAlternates =>
      "unopened alternate group; missing '\x7b' (maybe escape '\x7d' with '[\x7d]'?)"
    | unclosedAlternates =>
      "unclosed alternate group; missing '\x7d' (maybe escape '\x7b' with '[\x7b]'?)"
    | danglingEscape => "dangling '\\'"
  ("error parsing glob '" : Text) ++ pattern ++ ("': " : Text) ++ reason

/-- How patterns are understood. -/
structure GlobDialect where
  /-- Whether wildcards stop at separators. -/
  stopsAtSlash : Bool
  /-- Whether a `[` that is not closed stands for itself. -/
  allowsLoneBracket : Bool
deriving Repr, DecidableEq

namespace GlobDialect

def exclude : GlobDialect := ⟨false, false⟩

def ignoreFile : GlobDialect := ⟨true, true⟩

end GlobDialect

namespace Glob

/-- A pattern that has been read in part. -/
structure Partial where
  /-- The tokens of the current branch, the last first. -/
  current : List GlobToken
  /-- For each open brace, the innermost first: the tokens before it and the branches finished
  in it, each the last first. -/
  outer : List (List GlobToken × List (List GlobToken))

namespace Partial

def push (token : GlobToken) (state : Partial) : Partial :=
  { state with current := token :: state.current }

def openBrace (state : Partial) : Partial := ⟨[], (state.current, []) :: state.outer⟩

/-- Ends a branch.  Outside braces a comma stands for itself. -/
def comma (state : Partial) : Partial :=
  match state.outer with
  | [] => state.push (.literal ',')
  | (before, branches) :: rest => ⟨[], (before, state.current.reverse :: branches) :: rest⟩

def closeBrace (state : Partial) : Except GlobError Partial :=
  match state.outer with
  | [] => .error .unopenedAlternates
  | (before, branches) :: rest =>
    .ok ⟨.alternatives (state.current.reverse :: branches).reverse :: before, rest⟩

/-- The tokens of a pattern that has been read in full. -/
def finish (state : Partial) : Except GlobError (List GlobToken) :=
  if state.outer.isEmpty then .ok state.current.reverse else .error .unclosedAlternates

/-- Adds what `**` stands for after the character `before`, with `rest` following: any
directories where it makes up a whole segment, and two wildcards elsewhere.  The result also
says whether the separator after it belongs to it. -/
def doubleStar (state : Partial) (before : Option Char) (rest : Text) : Partial × Bool :=
  let plain := (state.push .many).push .many
  let atSlash := rest.head? == some '/'
  if state.current.isEmpty then
    if rest.isEmpty || atSlash then (state.push .leading, atSlash) else (plain, false)
  else if before != some '/' &&
      (state.outer.isEmpty || (before != some ',' && before != some '\x7b')) then
    (plain, false)
  else
    let atEnd := rest.isEmpty ||
      (!state.outer.isEmpty && (rest.head? == some ',' || rest.head? == some '\x7d'))
    if atEnd || atSlash then
      let token : GlobToken :=
        match state.current.head? with
        | some .leading => .leading
        | some .trailing => .trailing
        | _ => if atEnd then .trailing else .between
      (⟨token :: state.current.tail, state.outer⟩, atSlash && !atEnd)
    else (plain, false)

end Partial

/-- The ranges of a bracket up to the `]` that closes it, with the text after it.  `ranges`
holds those read so far, the last first; `pending` tells whether a `-` waits for its end. -/
def classRanges (first pending : Bool) (ranges : List (Char × Char)) :
    Text → Except GlobError (List (Char × Char) × Text)
  | [] => .error .unclosedClass
  | c :: rest =>
    if c = ']' ∧ !first then
      .ok ((if pending then ('-', '-') :: ranges else ranges).reverse, rest)
    else if c = '-' ∧ !first ∧ !pending then classRanges false true ranges rest
    else
      match (if pending then ranges else []) with
      | (low, _) :: before =>
        if c.val < low.val then .error (.invalidRange low c)
        else classRanges false false ((low, c) :: before) rest
      | [] => classRanges false false ((c, c) :: ranges) rest

/-- The bracket whose content starts here, and the text after it. -/
def readClass (s : Text) : Except GlobError (GlobToken × Text) :=
  let negated := s.head? == some '!' || s.head? == some '^'
  (classRanges true false [] (if negated then s.tail else s)).map fun (ranges, rest) =>
    (.oneOf negated ranges, rest)

theorem length_le_of_classRanges {first pending : Bool} {ranges result : List (Char × Char)}
    {s rest : Text} (h : classRanges first pending ranges s = .ok (result, rest)) :
    rest.length ≤ s.length := by
  induction s generalizing first pending ranges with
  | nil => simp [classRanges] at h
  | cons c s ih =>
    rw [classRanges] at h
    simp only [List.length_cons]
    split at h
    · simp only [Except.ok.injEq, Prod.mk.injEq] at h
      rw [← h.2]
      omega
    · split at h
      · have := ih h
        omega
      · split at h
        · split at h
          · simp at h
          · have := ih h
            omega
        · have := ih h
          omega

theorem length_le_of_readClass {s rest : Text} {token : GlobToken}
    (h : readClass s = .ok (token, rest)) : rest.length ≤ s.length := by
  simp only [readClass, Except.map] at h
  split at h
  · simp at h
  · rename_i found hfound
    simp only [Except.ok.injEq, Prod.mk.injEq] at h
    have := length_le_of_classRanges hfound
    rw [← h.2]
    split at this
    · simp only [List.length_tail] at this
      omega
    · exact this

/-- Reads the rest of a pattern after the character `before`. -/
def readTokens (dialect : GlobDialect) (before : Option Char) (state : Partial) (s : Text) :
    Except GlobError (List GlobToken) :=
  match s with
  | [] => state.finish
  | '?' :: rest => readTokens dialect (some '?') (state.push .any) rest
  | '*' :: '*' :: rest =>
    let (next, takesSlash) := state.doubleStar before rest
    if takesSlash then readTokens dialect (some '/') next rest.tail
    else readTokens dialect (some '*') next rest
  | '*' :: rest => readTokens dialect (some '*') (state.push .many) rest
  | '[' :: rest =>
    match _h : readClass rest with
    | .ok (token, after) => readTokens dialect (some ']') (state.push token) after
    | .error .unclosedClass =>
      if dialect.allowsLoneBracket then
        readTokens dialect (some '[') (state.push (.literal '[')) rest
      else .error .unclosedClass
    | .error error => .error error
  | '\x7b' :: rest => readTokens dialect (some '\x7b') state.openBrace rest
  | '\x7d' :: rest =>
    match state.closeBrace with
    | .ok next => readTokens dialect (some '\x7d') next rest
    | .error error => .error error
  | ',' :: rest => readTokens dialect (some ',') state.comma rest
  | ['\\'] => .error .danglingEscape
  | '\\' :: c :: rest => readTokens dialect (some c) (state.push (.literal c)) rest
  | c :: rest => readTokens dialect (some c) (state.push (.literal c)) rest
termination_by s.length
decreasing_by
  all_goals simp only [List.length_cons, List.length_tail]
  all_goals first
    | omega
    | exact Nat.lt_succ_of_le (length_le_of_readClass _h)

def parse (dialect : GlobDialect) (pattern : Text) : Except GlobError (List GlobToken) :=
  readTokens dialect none ⟨[], []⟩ pattern

end Glob

end RequireLint
