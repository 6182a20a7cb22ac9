import RequireLint.Proofs.Source.Statements
import RequireLint.Proofs.Text.Position

/-!
# Reading a content line by line

A content is a line, the end of the line, and what follows.  What the reader finds in it is what
it finds on the line, if that holds code, and what it finds in the rest.

A call that stands alone on its line is read from the line itself: neither what follows the line
nor where the line stands makes a difference.
-/

namespace RequireLint

open Text

/-! ## Lines and their ends -/

/-- The end of a line: a line feed, or nothing at the end of the content, and the carriage
returns before it. -/
def Ends (ends after : Text) : Prop :=
  (∃ returns, ends = returns ++ ['\n'] ∧ ∀ c ∈ returns, c = '\r') ∨
    (∀ c ∈ ends, c = '\r') ∧ after = []

/-- A text that is the body of a line. -/
def IsBody (body : Text) : Prop :=
  '\n' ∉ body ∧ body.dropEndWhile (fun c => c = '\n' || c = '\r') = body

theorem Ends.forall_mem {ends after : Text} (h : Ends ends after) :
    ∀ c ∈ ends, c = '\n' ∨ c = '\r' := by
  rcases h with ⟨returns, rfl, hreturns⟩ | ⟨hreturns, -⟩
  · intro c hc
    rcases List.mem_append.mp hc with hc | hc
    · exact .inr (hreturns c hc)
    · exact .inl (List.mem_singleton.mp hc)
  · exact fun c hc => .inr (hreturns c hc)

/-- The end of a line is one before other text too, unless it is the end of the content. -/
theorem Ends.congr {ends after after' : Text} (h : Ends ends after)
    (hnil : after = [] → after' = []) : Ends ends after' := by
  rcases h with h | ⟨hreturns, hafter⟩
  · exact .inl h
  · exact .inr ⟨hreturns, hnil hafter⟩

/-- A line starts after the end of a line, unless nothing follows. -/
theorem Ends.opensLine {ends after : Text} (h : Ends ends after) (hafter : after ≠ [])
    (above : Text) : OpensLine (above ++ ends) := by
  rcases h with ⟨returns, rfl, -⟩ | ⟨-, rfl⟩
  · exact .inr ⟨above ++ returns, by simp⟩
  · exact absurd rfl hafter

theorem Ends.opensLine_append {ends after above : Text} (h : Ends ends after) (hafter : after ≠ [])
    (habove : OpensLine above) (body : Text) : OpensLine (body ++ ends ++ above) := by
  rcases habove with rfl | ⟨before, rfl⟩
  · rw [List.append_nil]
    exact h.opensLine hafter body
  · exact .inr ⟨body ++ ends ++ before, by simp⟩

/-- A line with something below it has one line feed. -/
theorem Ends.count_feed {body ends after : Text} (h : Ends ends after) (hbody : '\n' ∉ body)
    (hafter : after ≠ []) : (body ++ ends).count '\n' = 1 := by
  rcases h with ⟨returns, rfl, hreturns⟩ | ⟨-, rfl⟩
  · have hfree : '\n' ∉ returns := fun hmem => absurd (hreturns _ hmem) (by decide)
    rw [List.count_append, List.count_append, List.count_eq_zero.mpr hbody,
      List.count_eq_zero.mpr hfree]
    rfl
  · exact absurd rfl hafter

theorem body_append_ends {body ends after : Text} (hbody : IsBody body) (hends : Ends ends after)
    (start : Nat) (later : Text) : (Line.mk start (body ++ ends) later).body = body := by
  rw [Line.body, dropEndWhile_append_of_all, hbody.2]
  intro c hc
  simpa using hends.forall_mem c hc

theorem splitLine_append_feed {line : Text} (hline : '\n' ∉ line) (after : Text) :
    splitLine (line ++ '\n' :: after) = (line ++ ['\n'], after) := by
  induction line with
  | nil => rfl
  | cons c line ih =>
      obtain ⟨hc, hline⟩ := List.ne_and_not_mem_of_not_mem_cons hline
      simp only [List.cons_append, splitLine, if_neg (Ne.symm hc), ih hline]

theorem splitLine_of_no_feed {line : Text} (hline : '\n' ∉ line) : splitLine line = (line, []) := by
  induction line with
  | nil => rfl
  | cons c line ih =>
      obtain ⟨hc, hline⟩ := List.ne_and_not_mem_of_not_mem_cons hline
      simp only [splitLine, if_neg (Ne.symm hc), ih hline]

theorem splitLine_of_ends {body ends after : Text} (hbody : '\n' ∉ body)
    (hends : Ends ends after) : splitLine (body ++ ends ++ after) = (body ++ ends, after) := by
  have hreturns : ∀ returns : Text, (∀ c ∈ returns, c = '\r') → '\n' ∉ body ++ returns := by
    intro returns hall hmem
    rcases List.mem_append.mp hmem with hmem | hmem
    · exact hbody hmem
    · exact absurd (hall _ hmem) (by decide)
  rcases hends with ⟨returns, rfl, hall⟩ | ⟨hall, rfl⟩
  · have htext : body ++ (returns ++ ['\n']) ++ after = body ++ returns ++ '\n' :: after := by simp
    rw [htext, splitLine_append_feed (hreturns returns hall), List.append_assoc]
  · rw [List.append_nil, splitLine_of_no_feed (hreturns ends hall)]

/-- A text without line feeds is a body and carriage returns. -/
theorem exists_body {line : Text} (hline : '\n' ∉ line) :
    ∃ body returns, line = body ++ returns ∧ IsBody body ∧ ∀ c ∈ returns, c = '\r' := by
  obtain ⟨dropped, hdropped, hall⟩ :=
    dropEndWhile_append_dropped (fun c => c = '\n' || c = '\r') line
  have hagain : line.dropEndWhile (fun c => c = '\n' || c = '\r') =
      (line.dropEndWhile fun c => c = '\n' || c = '\r').dropEndWhile
        fun c => c = '\n' || c = '\r' := by
    conv_lhs => rw [hdropped]
    exact dropEndWhile_append_of_all hall
  generalize line.dropEndWhile (fun c => c = '\n' || c = '\r') = body at hdropped hagain
  refine ⟨body, dropped, hdropped, ⟨?_, hagain.symm⟩, ?_⟩
  · intro hmem
    exact hline (hdropped ▸ List.mem_append_left dropped hmem)
  · intro c hc
    have hreturn : c = '\n' ∨ c = '\r' := by simpa using hall c hc
    refine hreturn.resolve_left ?_
    rintro rfl
    exact hline (hdropped ▸ List.mem_append_right body hc)

/-- Every content that is not empty starts with a line. -/
theorem exists_line {t : Text} (ht : t ≠ []) :
    ∃ body ends after, t = body ++ ends ++ after ∧ IsBody body ∧ Ends ends after ∧
      body ++ ends ≠ [] := by
  by_cases hfeed : '\n' ∈ t
  · obtain ⟨line, after, rfl, hline⟩ := List.eq_append_cons_of_mem hfeed
    obtain ⟨body, returns, rfl, hbody, hreturns⟩ := exists_body hline
    exact ⟨body, returns ++ ['\n'], after, by simp, hbody, .inl ⟨returns, rfl, hreturns⟩, by simp⟩
  · obtain ⟨body, returns, rfl, hbody, hreturns⟩ := exists_body hfeed
    exact ⟨body, returns, [], by simp, hbody, .inr ⟨hreturns, rfl⟩, ht⟩

/-- Induction over the lines of a text. -/
@[elab_as_elim]
theorem lineInduction {motive : Text → Prop} (nil : motive [])
    (line : ∀ body ends after : Text, IsBody body → Ends ends after → body ++ ends ≠ [] →
      motive after → motive (body ++ ends ++ after)) (t : Text) : motive t := by
  induction hsize : t.length using Nat.strong_induction_on generalizing t with
  | h size ih =>
      by_cases ht : t = []
      · rw [ht]
        exact nil
      · obtain ⟨body, ends, after, rfl, hbody, hends, hne⟩ := exists_line ht
        apply line body ends after hbody hends hne
        apply ih after.length _ after rfl
        have hpos := List.length_pos_iff.mpr hne
        rw [← hsize, List.length_append]
        omega

theorem linesFrom_of_ends {body ends after : Text} (hbody : '\n' ∉ body) (hends : Ends ends after)
    (hne : body ++ ends ≠ []) (start : Nat) :
    linesFrom start (body ++ ends ++ after) =
      ⟨start, body ++ ends, after⟩ :: linesFrom (start + byteSize (body ++ ends)) after := by
  obtain ⟨c, rest, hcons⟩ := List.exists_cons_of_ne_nil hne
  have hsplit := splitLine_of_ends hbody hends
  rw [hcons, List.cons_append] at hsplit ⊢
  rw [linesFrom, hsplit]

/-! ## What the reader finds -/

/-- Whether a line holds code, given whether it lies in a block comment. -/
def isCode (comment : Bool) (body : Text) : Bool :=
  !comment && !body.startsWith "=begin" && decide (body ≠ "__END__") &&
    !(trimStart body).startsWith "#"

/-- Whether the lines after a line lie in a block comment, unless there is no code after it. -/
def nextComment? (comment : Bool) (body : Text) : Option Bool :=
  if comment then some (!body.startsWith "=end")
  else if body.startsWith "=begin" then some true
  else if body = "__END__" then none
  else some false

theorem isCode_iff {comment : Bool} {body : Text} :
    isCode comment body = true ↔ comment = false ∧ body.startsWith "=begin" = false ∧
      body ≠ "__END__" ∧ (trimStart body).startsWith "#" = false := by
  simp only [isCode, Bool.and_eq_true, Bool.not_eq_true', decide_eq_true_eq, and_assoc]

theorem nextComment?_of_isCode {comment : Bool} {body : Text} (h : isCode comment body = true) :
    comment = false ∧ nextComment? comment body = some false := by
  obtain ⟨rfl, hbegin, hend, -⟩ := isCode_iff.mp h
  exact ⟨rfl, by simp only [nextComment?, hbegin, hend, Bool.false_eq_true, if_false]⟩

theorem codeLines_cons (comment : Bool) (number : Nat) (line : Line) (rest : List Line) :
    codeLines comment number (line :: rest) =
      (if isCode comment line.body then [(number, line)] else []) ++
        (nextComment? comment line.body).elim [] fun later =>
          codeLines later (number + 1) rest := by
  by_cases hcode : isCode comment line.body = true
  · obtain ⟨rfl, hnext⟩ := nextComment?_of_isCode hcode
    obtain ⟨-, hbegin, hend, hhash⟩ := isCode_iff.mp hcode
    simp only [codeLines, hcode, hnext, hbegin, hend, hhash, Bool.false_eq_true, if_false, if_true,
      Option.elim_some, List.singleton_append]
  · rw [if_neg hcode, List.nil_append]
    cases comment with
    | true => simp only [codeLines, nextComment?, if_true, Option.elim_some]
    | false =>
        rw [isCode_iff] at hcode
        by_cases hbegin : line.body.startsWith "=begin" = true
        · simp only [codeLines, nextComment?, hbegin, Bool.false_eq_true, if_false, if_true,
            Option.elim_some]
        rw [Bool.not_eq_true] at hbegin
        by_cases hend : line.body = "__END__"
        · simp only [codeLines, nextComment?, hbegin, if_pos hend, Bool.false_eq_true, if_false,
            Option.elim_none]
        · have hhash : (trimStart line.body).startsWith "#" = true := by
            by_contra hhash
            exact hcode ⟨rfl, hbegin, hend, by simpa using hhash⟩
          simp only [codeLines, nextComment?, hbegin, hend, hhash, Bool.false_eq_true, if_false,
            if_true, Option.elim_some]

/-- What is read on a line that holds code. -/
def lineReadings (number : Nat) (line : Line) : List Reading :=
  (Statement.ofLine line.body).filterMap (Statement.reading? number line)

/-- What is read in a text that begins with line `number` at byte `start` of its content. -/
def readingsFrom (comment : Bool) (number start : Nat) (t : Text) : List Reading :=
  (codeLines comment number (linesFrom start t)).flatMap fun (number, line) =>
    lineReadings number line

theorem readings_eq_readingsFrom (content : Text) :
    readings content = readingsFrom false 1 0 content := rfl

@[simp] theorem readingsFrom_nil (comment : Bool) (number start : Nat) :
    readingsFrom comment number start [] = [] := by
  rw [readingsFrom, linesFrom]
  rfl

/-- The reader goes line by line. -/
theorem readingsFrom_line {body ends after : Text} (hbody : IsBody body) (hends : Ends ends after)
    (hne : body ++ ends ≠ []) (comment : Bool) (number start : Nat) :
    readingsFrom comment number start (body ++ ends ++ after) =
      (if isCode comment body then lineReadings number ⟨start, body ++ ends, after⟩ else []) ++
        (nextComment? comment body).elim [] fun later =>
          readingsFrom later (number + 1) (start + byteSize (body ++ ends)) after := by
  have hline := body_append_ends hbody hends start after
  rw [readingsFrom, linesFrom_of_ends hbody.1 hends hne, codeLines_cons, hline,
    List.flatMap_append]
  congr 1
  · split <;> simp
  · cases nextComment? comment body <;> rfl

/-! ## Calls that stand alone -/

/-- What a call says, apart from where it stands. -/
def Reading.said (reading : Reading) : Directive × Expr :=
  (reading.call.kind, reading.call.argument)

/-- A text that can follow a statement on its line: blanks, and perhaps a comment. -/
def Trailing (t : Text) : Prop := (Expr.skipInline t).head?.all (· = '#') = true

/-- A call that was understood and shares its line with blanks and a comment only. -/
def Reading.StandsAlone (reading : Reading) (line : Line) : Prop :=
  reading.understood = true ∧ ∃ blanks statement trailing,
    line.body = blanks ++ statement ++ trailing ∧ (∀ c ∈ blanks, isInlineBlank c = true) ∧
      Trailing trailing ∧ reading.call.span.start = line.start + byteSize blanks ∧
      reading.call.span.stop = line.start + byteSize (blanks ++ statement)

/-- A call that stands alone ends on its line. -/
theorem Reading.StandsAlone.stop_le {reading : Reading} {body ends after : Text} {start : Nat}
    (h : reading.StandsAlone ⟨start, body ++ ends, after⟩) (hbody : IsBody body)
    (hends : Ends ends after) :
    reading.call.span.stop ≤ start + byteSize (body ++ ends) := by
  obtain ⟨-, blanks, statement, trailing, hsplit, -, -, -, hstop⟩ := h
  rw [body_append_ends hbody hends] at hsplit
  simp only [hsplit, byteSize_append] at hstop ⊢
  omega

theorem Trailing.stops {trailing ends after : Text} (htrailing : Trailing trailing)
    (hends : Ends ends after) : Expr.Stops (trailing ++ (ends ++ after)) := by
  induction trailing with
  | nil =>
      rcases hends with ⟨returns, rfl, hreturns⟩ | ⟨hreturns, rfl⟩
      · cases returns with
        | nil => rfl
        | cons c returns =>
            obtain rfl := hreturns c List.mem_cons_self
            rfl
      · cases ends with
        | nil => rfl
        | cons c ends =>
            obtain rfl := hreturns c List.mem_cons_self
            rfl
  | cons c trailing ih =>
      by_cases hblank : isInlineBlank c = true
      · rw [Trailing, Expr.skipInline, List.dropWhile_cons_of_pos hblank] at htrailing
        rw [Expr.Stops, Expr.skipInline, List.cons_append, List.dropWhile_cons_of_pos hblank]
        exact ih htrailing
      · rw [Trailing, Expr.skipInline, List.dropWhile_cons_of_neg hblank] at htrailing
        obtain rfl : c = '#' := by simpa using htrailing
        rfl

/-- Where no later statement opens, a line is read at its start. -/
theorem lineReadings_eq_toList {number : Nat} {line : Line}
    (h : ∀ statement ∈ Statement.afterSemicolons .outside 0 line.body, statement.opening? = none) :
    lineReadings number line = ((Statement.mk 0 line.body).reading? number line).toList := by
  have hlater : (Statement.afterSemicolons .outside 0 line.body).filterMap
      (Statement.reading? number line) = [] := by
    rw [List.filterMap_eq_nil_iff]
    intro statement hstatement
    exact Statement.reading?_of_opening?_eq_none (h statement hstatement)
  rw [lineReadings, Statement.ofLine, List.filterMap_cons, hlater]
  cases (Statement.mk 0 line.body).reading? number line <;> rfl

/-- A call that stands alone is the first statement of its line. -/
theorem lineReadings_of_standsAlone {number : Nat} {line : Line}
    (h : ∀ reading ∈ lineReadings number line, reading.StandsAlone line) :
    ∀ statement ∈ Statement.afterSemicolons .outside 0 line.body, statement.opening? = none := by
  intro statement hstatement
  cases hopening : statement.opening? with
  | none => rfl
  | some opening =>
      obtain ⟨reading, hread⟩ := Statement.exists_reading?_of_opening? number line hopening
      have hmem : reading ∈ lineReadings number line :=
        List.mem_filterMap.mpr ⟨statement, List.mem_cons_of_mem _ hstatement, hread⟩
      obtain ⟨-, blanks, text, trailing, hbody, hblanks, -, hstart, -⟩ := h reading hmem
      obtain ⟨before, hbefore, hoffset⟩ := exists_of_mem_afterSemicolons hstatement
      have hle := Statement.start_le_of_reading? hread
      rw [hoffset, hstart] at hle
      rw [hbody, List.append_assoc blanks] at hbefore
      obtain ⟨between, hbetween, -⟩ :=
        exists_append_of_byteSize_le hbefore.symm (by omega)
      have hsemicolon : isInlineBlank ';' = true := hblanks ';' (by simp [hbetween])
      exact absurd hsemicolon (by decide)

/-- A call that stands alone says the same wherever its line stands. -/
theorem said_lineReadings {body ends after after' : Text} {number start : Nat}
    (hbody : IsBody body) (hends : Ends ends after) (hends' : Ends ends after')
    (h : ∀ reading ∈ lineReadings number ⟨start, body ++ ends, after⟩,
      reading.StandsAlone ⟨start, body ++ ends, after⟩) (number' start' : Nat) :
    (lineReadings number' ⟨start', body ++ ends, after'⟩).map Reading.said =
      (lineReadings number ⟨start, body ++ ends, after⟩).map Reading.said := by
  have hline := body_append_ends hbody hends start after
  have hline' := body_append_ends hbody hends' start' after'
  have hlater := lineReadings_of_standsAlone h
  rw [hline] at hlater
  rw [lineReadings_eq_toList (by rwa [hline'])]
  rw [lineReadings_eq_toList (by rwa [hline])] at h ⊢
  rw [hline] at h ⊢
  rw [hline']
  cases hopening : (Statement.mk 0 body).opening? with
  | none =>
      rw [Statement.reading?_of_opening?_eq_none hopening,
        Statement.reading?_of_opening?_eq_none hopening]
  | some opening =>
      obtain ⟨kind, column, argumentOffset⟩ := opening
      obtain ⟨reading, hread⟩ := Statement.exists_reading?_of_opening? number
        ⟨start, body ++ ends, after⟩ hopening
      obtain ⟨hunderstood, blanks, statement, trailing, hsplit, -, htrailing, -, hstop⟩ :=
        h reading (by simp [hread])
      obtain ⟨column', argumentOffset', hopening', -, ⟨-, hnot⟩ | ⟨rest, hparse, hend⟩⟩ :=
        Statement.exists_of_reading?_eq_some hread
      · rw [hnot] at hunderstood
        exact absurd hunderstood (by decide)
      rw [hopening] at hopening'
      obtain ⟨rfl, rfl, rfl⟩ := by simpa using hopening'
      obtain ⟨lead, tail, hrest, hoffset, hdrop⟩ :=
        Statement.exists_argument_eq List.mem_cons_self hopening
      rw [hline] at hsplit
      rw [hdrop] at hparse hend
      obtain ⟨used, hused, -, hagain⟩ := Expr.delimits_parse? hparse
      have hwhole : lead ++ used ++ rest =
          blanks ++ statement ++ (trailing ++ (ends ++ after)) := by
        calc
          lead ++ used ++ rest = lead ++ (tail ++ (ends ++ after)) := by
            rw [List.append_assoc, ← hused]
          _ = body ++ (ends ++ after) := by rw [hrest, List.append_assoc]
          _ = blanks ++ statement ++ (trailing ++ (ends ++ after)) := by
            rw [hsplit, List.append_assoc]
      have hsize : byteSize (lead ++ used) = byteSize (blanks ++ statement) := by
        rw [hend, hused, hoffset] at hstop
        simp only [byteSize_append] at hstop ⊢
        omega
      obtain ⟨-, rfl⟩ := append_inj_of_byteSize_eq hwhole hsize
      have htail : tail = used ++ trailing := by
        rw [← List.append_assoc used] at hused
        exact List.append_cancel_right hused
      have hparse' : Expr.parse? (tail ++ (ends ++ after')) =
          some (reading.call.argument, trailing ++ (ends ++ after')) := by
        rw [htail, List.append_assoc]
        exact hagain _ (htrailing.stops hends')
      rw [hread, Statement.reading?_of_parse? hopening (hdrop start' ends after') hparse']
      rfl

/-! ## Where the calls of a text stand -/

theorem le_start_of_mem_readingsFrom {comment : Bool} {number start : Nat} {t : Text}
    {reading : Reading} (h : reading ∈ readingsFrom comment number start t) :
    start ≤ reading.call.span.start := by
  obtain ⟨⟨number, line⟩, hcode, hstatement⟩ := List.mem_flatMap.mp h
  obtain ⟨statement, -, hread⟩ := List.mem_filterMap.mp hstatement
  obtain ⟨above, -, hline, -⟩ := exists_of_mem_linesFrom (mem_of_mem_codeLines hcode)
  have hle := Statement.start_le_of_reading? hread
  dsimp only at hline hle
  omega

/-- Every call of a text that begins with line `number` at byte `start` stands alone. -/
def TidyFrom (comment : Bool) (number start : Nat) (t : Text) : Prop :=
  ∀ found ∈ codeLines comment number (linesFrom start t),
    ∀ reading ∈ lineReadings found.1 found.2, reading.StandsAlone found.2

/-- A content whose inclusion calls each share their line with blanks and a comment only. -/
def Tidy (content : Text) : Prop := TidyFrom false 1 0 content

theorem tidyFrom_line {body ends after : Text} (hbody : IsBody body) (hends : Ends ends after)
    (hne : body ++ ends ≠ []) {comment : Bool} {number start : Nat}
    (h : TidyFrom comment number start (body ++ ends ++ after)) :
    (isCode comment body = true → ∀ reading ∈ lineReadings number ⟨start, body ++ ends, after⟩,
        reading.StandsAlone ⟨start, body ++ ends, after⟩) ∧
      ∀ later, nextComment? comment body = some later →
        TidyFrom later (number + 1) (start + byteSize (body ++ ends)) after := by
  have hline := body_append_ends hbody hends start after
  rw [TidyFrom, linesFrom_of_ends hbody.1 hends hne, codeLines_cons, hline] at h
  constructor
  · intro hcode
    exact h (number, _) (List.mem_append_left _ (by simp [hcode]))
  · intro later hlater found hfound
    exact h found (List.mem_append_right _ (by simpa [hlater] using hfound))

end RequireLint
