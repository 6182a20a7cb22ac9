import RequireLint.Proofs.Source.Delimited
import RequireLint.Proofs.Text.Affix
import RequireLint.Proofs.Text.Bytes
import RequireLint.Source.Directive.Reader

/-!
# Where the inclusion calls of a content stand

The reader finds a call by its line and its offset there.  This file turns these positions into
pieces of the content: what precedes an understood call ends where a statement may start, up to
blanks, and the call itself ends in the last character of its argument.
-/

namespace RequireLint

open Text

/-- A text after which a statement may start. -/
def OpensStatement (lead : Text) : Prop :=
  lead = [] ∨ ∃ before c, lead = before ++ [c] ∧ (c = '\n' ∨ c = ';')

/-- A text that ends where a statement may start, up to blanks. -/
def Margin (lead : Text) : Prop :=
  ∃ opening blanks, lead = opening ++ blanks ∧ OpensStatement opening ∧
    ∀ c ∈ blanks, isInlineBlank c = true

/-- A span that covers one statement of a content from its first character to the last. -/
def Span.CoversStatement (span : Span) (content : Text) : Prop :=
  ∃ lead statement rest, content = lead ++ statement ++ rest ∧ Margin lead ∧
    Expr.Closed statement ∧ span.start = byteSize lead ∧ span.stop = byteSize (lead ++ statement)

theorem Span.CoversStatement.start_lt_stop {span : Span} {content : Text}
    (h : span.CoversStatement content) : span.start < span.stop := by
  obtain ⟨lead, statement, rest, -, -, ⟨inner, final, rfl, -⟩, hstart, hstop⟩ := h
  have hpos := final.utf8Size_pos
  simp only [hstart, hstop, byteSize_append, byteSize_cons, byteSize_nil]
  omega

theorem OpensStatement.append {lead more : Text} (hlead : OpensStatement lead)
    (hmore : OpensStatement more) : OpensStatement (lead ++ more) := by
  rcases hmore with rfl | ⟨before, c, rfl, hc⟩
  · simpa using hlead
  · exact .inr ⟨lead ++ before, c, by simp, hc⟩

/-! ## Lines -/

/-- A first line with something after it ends in its line feed. -/
theorem splitLine_fst_of_snd_ne_nil {t : Text} (hafter : (splitLine t).2 ≠ []) :
    ∃ before, (splitLine t).1 = before ++ ['\n'] := by
  induction t with
  | nil => simp [splitLine] at hafter
  | cons c rest ih =>
      by_cases hc : c = '\n'
      · exact ⟨[], by simp [splitLine, hc]⟩
      · simp only [splitLine, if_neg hc] at hafter ⊢
        obtain ⟨before, hbefore⟩ := ih hafter
        exact ⟨c :: before, by rw [hbefore, List.cons_append]⟩

/-- A line is a piece of the text, and what precedes it ends in a line feed. -/
theorem exists_of_mem_linesFrom {start : Nat} {t : Text} {line : Line}
    (h : line ∈ linesFrom start t) :
    ∃ before, t = before ++ line.onwards ∧ line.start = start + byteSize before ∧
      OpensStatement before := by
  fun_induction linesFrom start t with
  | case1 => simp at h
  | case2 start c rest parts ih =>
      rcases List.mem_cons.mp h with rfl | hlater
      · exact ⟨[], (splitLine_join (c :: rest)).symm, rfl, .inl rfl⟩
      · obtain ⟨before, hafter, hstart, hopens⟩ := ih hlater
        have hne : parts.2 ≠ [] := by
          intro hnil
          rw [hnil, linesFrom] at hlater
          simp at hlater
        obtain ⟨first, hfirst⟩ := splitLine_fst_of_snd_ne_nil hne
        have hline : OpensStatement parts.1 := .inr ⟨first, '\n', hfirst, .inl rfl⟩
        refine ⟨parts.1 ++ before, ?_, ?_, hline.append hopens⟩
        · rw [List.append_assoc, ← hafter]
          exact (splitLine_join (c :: rest)).symm
        · rw [hstart, byteSize_append, Nat.add_assoc]

theorem mem_of_mem_codeLines {comment : Bool} {number : Nat} {ls : List Line}
    {found : Nat × Line} (h : found ∈ codeLines comment number ls) : found.2 ∈ ls := by
  fun_induction codeLines comment number ls <;> grind

theorem exists_onwards_eq_body_append (line : Line) : ∃ rest, line.onwards = line.body ++ rest := by
  obtain ⟨ends, hends, -⟩ :=
    dropEndWhile_append_dropped (fun c => c = '\n' || c = '\r') line.whole
  refine ⟨ends ++ line.after, ?_⟩
  rw [Line.onwards, Line.body, ← List.append_assoc, ← hends]

/-! ## Statements of a line -/

theorem exists_of_mem_afterSemicolons {quoting : Quoting} {offset : Nat} {t : Text}
    {statement : Statement} (h : statement ∈ Statement.afterSemicolons quoting offset t) :
    ∃ before, t = before ++ [';'] ++ statement.rest ∧
      statement.offset = offset + byteSize (before ++ [';']) := by
  have hskip : ∀ {c : Char} {rest : Text} {offset : Nat},
      (∃ before, rest = before ++ [';'] ++ statement.rest ∧
        statement.offset = offset + c.utf8Size + byteSize (before ++ [';'])) →
      ∃ before, c :: rest = before ++ [';'] ++ statement.rest ∧
        statement.offset = offset + byteSize (before ++ [';']) := by
    rintro c rest offset ⟨before, rfl, hoffset⟩
    exact ⟨c :: before, by simp, by simp [hoffset]; omega⟩
  fun_induction Statement.afterSemicolons quoting offset t with
  | case1 => simp at h
  | case2 quote escaped offset c rest next ih => exact hskip (ih h)
  | case3 offset c rest later _ ih => exact hskip (ih h)
  | case4 => simp at h
  | case5 offset rest later _ _ ih =>
      rcases List.mem_cons.mp h with rfl | hlater
      · exact ⟨[], rfl, rfl⟩
      · exact hskip (ih hlater)
  | case6 offset c rest later _ _ _ ih => exact hskip (ih h)

/-- A statement of a line is a piece of it that begins the line or follows a `;`. -/
theorem exists_of_mem_ofLine {body : Text} {statement : Statement}
    (h : statement ∈ Statement.ofLine body) :
    ∃ before, body = before ++ statement.rest ∧ statement.offset = byteSize before ∧
      OpensStatement before := by
  rcases List.mem_cons.mp h with rfl | hlater
  · exact ⟨[], rfl, rfl, .inl rfl⟩
  · obtain ⟨before, hbody, hoffset⟩ := exists_of_mem_afterSemicolons hlater
    exact ⟨before ++ [';'], hbody, by simpa using hoffset, .inr ⟨before, ';', rfl, .inr rfl⟩⟩

/-! ## Calls -/

theorem Directive.read?_eq_some {t after : Text} {kind : Directive}
    (h : Directive.read? t = some (kind, after)) : t = kind.keyword ++ after := by
  unfold Directive.read? at h
  split at h
  next hprefix =>
    obtain ⟨rfl, rfl⟩ := Prod.mk.inj (Option.some.inj h)
    exact dropPrefix?_eq_some.mp hprefix
  next =>
    obtain ⟨found, hprefix, heq⟩ := Option.map_eq_some_iff.mp h
    obtain ⟨rfl, rfl⟩ := Prod.mk.inj heq
    exact dropPrefix?_eq_some.mp hprefix

namespace Statement

/-- The directive that a statement opens with, and where on its line the keyword and the
argument stand. -/
def opening? (statement : Statement) : Option (Directive × Nat × Nat) :=
  match Directive.read? (statement.rest.dropWhile isInlineBlank) with
  | none => none
  | some (kind, after) =>
    if startsArgument after then
      let column := statement.offset + byteSize (statement.rest.takeWhile isInlineBlank)
      some (kind, column,
        column + byteSize kind.keyword + byteSize (after.takeWhile isInlineBlank))
    else none

/-- What precedes the argument is the blanks of the statement, its keyword and more blanks. -/
theorem exists_of_opening?_eq_some {statement : Statement} {kind : Directive}
    {column argumentOffset : Nat} (h : statement.opening? = some (kind, column, argumentOffset)) :
    ∃ blanks gap tail, statement.rest = blanks ++ (kind.keyword ++ gap) ++ tail ∧
      (∀ c ∈ blanks, isInlineBlank c = true) ∧ column = statement.offset + byteSize blanks ∧
      argumentOffset = statement.offset + byteSize (blanks ++ (kind.keyword ++ gap)) := by
  simp only [opening?] at h
  split at h
  · simp at h
  next kind after hread =>
    split at h
    · obtain ⟨rfl, rfl, rfl⟩ := by simpa using h
      refine ⟨_, after.takeWhile isInlineBlank, after.dropWhile isInlineBlank, ?_,
        fun c => List.mem_takeWhile_imp, rfl, ?_⟩
      · rw [List.append_assoc, List.append_assoc, List.takeWhile_append_dropWhile,
          ← Directive.read?_eq_some hread, List.takeWhile_append_dropWhile]
      · simp only [byteSize_append, Nat.add_assoc]
    · simp at h

/-- The argument of a statement starts on the line of the statement and goes on behind it. -/
theorem exists_argument_eq {body : Text} {statement : Statement} {kind : Directive}
    {column argumentOffset : Nat} (hstatement : statement ∈ ofLine body)
    (h : statement.opening? = some (kind, column, argumentOffset)) :
    ∃ lead tail, body = lead ++ tail ∧ argumentOffset = byteSize lead ∧ ∀ start ends after,
      (Line.mk start (body ++ ends) after).onwards.dropBytes argumentOffset =
        tail ++ (ends ++ after) := by
  obtain ⟨blanks, gap, tail, hrest, -, -, hoffset⟩ := exists_of_opening?_eq_some h
  obtain ⟨before, hbefore, hstart, -⟩ := exists_of_mem_ofLine hstatement
  have hbody : body = before ++ (blanks ++ (kind.keyword ++ gap)) ++ tail := by
    rw [hbefore, hrest, ← List.append_assoc]
  rw [hstart, ← byteSize_append] at hoffset
  refine ⟨_, tail, hbody, hoffset, ?_⟩
  intro start ends after
  rw [Line.onwards, hoffset, hbody, List.append_assoc, List.append_assoc, dropBytes_append]

variable {number : Nat} {line : Line} {statement : Statement}

theorem reading?_of_opening?_eq_none (h : statement.opening? = none) :
    statement.reading? number line = none := by
  simp only [opening?] at h
  simp only [reading?]
  cases hread : Directive.read? (statement.rest.dropWhile isInlineBlank) with
  | none => rfl
  | some found =>
      rw [hread] at h
      exact if_neg fun hargument => by simp [hargument] at h

/-- An argument that can be delimited is read up to its last character. -/
theorem reading?_of_parse? {kind : Directive} {column argumentOffset : Nat} {argument : Expr}
    {text rest : Text} (h : statement.opening? = some (kind, column, argumentOffset))
    (htext : line.onwards.dropBytes argumentOffset = text)
    (hparse : Expr.parse? text = some (argument, rest)) :
    statement.reading? number line = some ⟨⟨kind, argument, ⟨line.start + column,
      line.start + (argumentOffset + (byteSize text - byteSize rest)), number, column + 1⟩⟩,
      true⟩ := by
  have hspan : Expr.parseSpan? text = some (argument, byteSize text - byteSize rest) := by
    rw [Expr.parseSpan?, hparse]
    rfl
  simp only [opening?] at h
  split at h
  · simp at h
  next kind after hread =>
    split at h
    next hargument =>
      obtain ⟨rfl, rfl, rfl⟩ := by simpa using h
      simp only [reading?, hread, hargument, if_true, htext, hspan]
    · simp at h

/-- An argument that cannot be delimited is not modelled. -/
theorem exists_reading?_of_parse?_eq_none (number : Nat) {kind : Directive}
    {column argumentOffset : Nat}
    (h : statement.opening? = some (kind, column, argumentOffset))
    (hparse : Expr.parse? (line.onwards.dropBytes argumentOffset) = none) :
    ∃ stop, statement.reading? number line = some ⟨⟨kind, .other, ⟨line.start + column,
      stop, number, column + 1⟩⟩, false⟩ := by
  have hspan : Expr.parseSpan? (line.onwards.dropBytes argumentOffset) = none := by
    rw [Expr.parseSpan?, hparse]
    rfl
  simp only [opening?] at h
  split at h
  · simp at h
  next kind after hread =>
    split at h
    next hargument =>
      obtain ⟨rfl, rfl, rfl⟩ := by simpa using h
      simp only [reading?, hread, hargument, if_true, hspan]
      exact ⟨_, rfl⟩
    · simp at h

theorem exists_reading?_of_opening? (number : Nat) (line : Line)
    {opening : Directive × Nat × Nat} (h : statement.opening? = some opening) :
    ∃ reading, statement.reading? number line = some reading := by
  obtain ⟨kind, column, argumentOffset⟩ := opening
  cases hparse : Expr.parse? (line.onwards.dropBytes argumentOffset) with
  | none =>
      obtain ⟨stop, hread⟩ := exists_reading?_of_parse?_eq_none number h hparse
      exact ⟨_, hread⟩
  | some found => exact ⟨_, reading?_of_parse? h rfl hparse⟩

/-- What is read at a statement is its opening and the argument that the line and those after
it hold. -/
theorem exists_of_reading?_eq_some {reading : Reading}
    (h : statement.reading? number line = some reading) :
    ∃ column argumentOffset,
      statement.opening? = some (reading.call.kind, column, argumentOffset) ∧
      reading.call.span.start = line.start + column ∧
      (reading.call.argument = .other ∧ reading.understood = false ∨
        ∃ rest, Expr.parse? (line.onwards.dropBytes argumentOffset) =
            some (reading.call.argument, rest) ∧
          reading.call.span.stop = line.start + (argumentOffset +
            (byteSize (line.onwards.dropBytes argumentOffset) - byteSize rest))) := by
  cases hopening : statement.opening? with
  | none =>
      rw [reading?_of_opening?_eq_none hopening] at h
      simp at h
  | some opening =>
      obtain ⟨kind, column, argumentOffset⟩ := opening
      cases hparse : Expr.parse? (line.onwards.dropBytes argumentOffset) with
      | none =>
          obtain ⟨stop, hread⟩ := exists_reading?_of_parse?_eq_none number hopening hparse
          rw [hread] at h
          obtain rfl := Option.some.inj h
          exact ⟨column, argumentOffset, rfl, rfl, .inl ⟨rfl, rfl⟩⟩
      | some found =>
          obtain ⟨argument, rest⟩ := found
          rw [reading?_of_parse? hopening rfl hparse] at h
          obtain rfl := Option.some.inj h
          exact ⟨column, argumentOffset, rfl, rfl, .inr ⟨rest, hparse, rfl⟩⟩

theorem understood_of_reading? {reading : Reading}
    (h : statement.reading? number line = some reading)
    (hmodelled : reading.call.argument ≠ .other) : reading.understood = true := by
  obtain ⟨column, argumentOffset, hopening, -, ⟨hother, -⟩ | ⟨rest, hparse, -⟩⟩ :=
    exists_of_reading?_eq_some h
  · exact absurd hother hmodelled
  · rw [reading?_of_parse? hopening rfl hparse] at h
    rw [← Option.some.inj h]

theorem start_le_of_reading? {reading : Reading}
    (h : statement.reading? number line = some reading) :
    line.start + statement.offset ≤ reading.call.span.start := by
  obtain ⟨column, argumentOffset, hopening, hstart, -⟩ := exists_of_reading?_eq_some h
  obtain ⟨blanks, gap, tail, -, -, rfl, -⟩ := exists_of_opening?_eq_some hopening
  rw [hstart]
  omega

end Statement

/-- A call whose argument is modelled covers its statement. -/
theorem coversStatement_of_mem_inclusionCalls {content : Text} {call : InclusionCall}
    (h : call ∈ inclusionCalls content) (hmodelled : call.argument ≠ .other) :
    call.span.CoversStatement content := by
  obtain ⟨reading, hreading, rfl⟩ := List.mem_map.mp h
  obtain ⟨⟨number, line⟩, hcode, hstatement⟩ := List.mem_flatMap.mp hreading
  obtain ⟨statement, hmem, hread⟩ := List.mem_filterMap.mp hstatement
  obtain ⟨above, hcontent, hstart, habove⟩ := exists_of_mem_linesFrom (mem_of_mem_codeLines hcode)
  obtain ⟨after, honwards⟩ := exists_onwards_eq_body_append line
  obtain ⟨before, hbody, hoffset, hbefore⟩ := exists_of_mem_ofLine hmem
  obtain ⟨column, argumentOffset, hopening, hspan, ⟨hother, -⟩ | ⟨rest, hparse, hstop⟩⟩ :=
    Statement.exists_of_reading?_eq_some hread
  · exact absurd hother hmodelled
  obtain ⟨blanks, gap, tail, hrest, hblanks, rfl, rfl⟩ :=
    Statement.exists_of_opening?_eq_some hopening
  have hline : line.onwards =
      before ++ (blanks ++ (reading.call.kind.keyword ++ gap)) ++ (tail ++ after) := by
    rw [honwards, hbody, hrest]
    simp
  have hdrop : line.onwards.dropBytes (statement.offset +
      byteSize (blanks ++ (reading.call.kind.keyword ++ gap))) = tail ++ after := by
    rw [hline, hoffset, ← byteSize_append, dropBytes_append]
  rw [hdrop] at hparse hstop
  obtain ⟨used, hused, hclosed, -⟩ := Expr.delimits_parse? hparse
  refine ⟨above ++ before ++ blanks, reading.call.kind.keyword ++ gap ++ used, rest, ?_, ?_,
    hclosed.append_left _, ?_, ?_⟩
  · rw [hcontent, hline, hused]
    simp
  · exact ⟨above ++ before, blanks, rfl, habove.append hbefore, hblanks⟩
  · rw [hspan, hstart, hoffset]
    simp only [byteSize_append]
    omega
  · rw [hstop, hstart, hoffset, hused]
    simp only [byteSize_append]
    omega

end RequireLint
