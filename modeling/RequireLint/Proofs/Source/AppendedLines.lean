import RequireLint.Proofs.Source.Appended
import RequireLint.Proofs.Source.Lines

/-!
# Reading a content that goes on

A content that ends in a line feed may be followed by anything: what was understood in it is
understood in the same way.  The lines of the content stay lines with the same code, and an
argument ends before the last line feed, so it is read from the longer content too.  Only a
directive whose argument could not be delimited may be changed by what follows.
-/

namespace RequireLint

open Text

/-- A text whose last character is a line feed. -/
def EndsInFeed (t : Text) : Prop := ∃ lead, t = lead ++ ['\n']

theorem EndsInFeed.append_left {t : Text} (h : EndsInFeed t) (lead : Text) :
    EndsInFeed (lead ++ t) := by
  obtain ⟨before, rfl⟩ := h
  exact ⟨lead ++ before, (List.append_assoc _ _ _).symm⟩

/-- An expression ends before the line feed at the end of its text, and is read from any text that
goes on. -/
theorem Expr.parse?_append {text rest : Text} {argument : Expr}
    (hparse : Expr.parse? text = some (argument, rest)) (hfeed : EndsInFeed text) (more : Text) :
    Expr.parse? (text ++ more) = some (argument, rest ++ more) := by
  obtain ⟨lead, rfl⟩ := hfeed
  obtain ⟨used, hused, ⟨inner, final, rfl, hfinal⟩, -⟩ := Expr.delimits_parse? hparse
  apply (Expr.extends_parse? more hparse).2
  rcases List.eq_nil_or_concat rest with rfl | ⟨before, c, rfl⟩
  · rw [List.append_nil] at hused
    obtain rfl : '\n' = final := List.singleton_inj.mp (List.append_inj' hused rfl).2
    exact absurd hfinal (by decide)
  · rw [List.concat_eq_append, ← List.append_assoc] at hused
    obtain rfl : '\n' = c := List.singleton_inj.mp (List.append_inj' hused rfl).2
    simp

/-! ## One line -/

section Line

variable {body ends after : Text} {number start : Nat} {reading : Reading}

/-- In a text that ends where a line starts, the first line ends in a line feed and the rest ends
where a line starts. -/
theorem Ends.of_opensLine (hends : Ends ends after) (hbody : IsBody body) (hne : body ++ ends ≠ [])
    (hopens : OpensLine (body ++ ends ++ after)) :
    (∀ more, Ends ends more) ∧ EndsInFeed (ends ++ after) ∧ OpensLine after := by
  obtain ⟨before, hbefore⟩ : EndsInFeed (body ++ ends ++ after) :=
    hopens.resolve_left fun hnil => hne (List.append_eq_nil_iff.mp hnil).1
  rcases hends with ⟨returns, rfl, hreturns⟩ | ⟨hreturns, rfl⟩
  · have hafter : OpensLine after := by
      rcases List.eq_nil_or_concat after with rfl | ⟨inner, c, rfl⟩
      · exact .inl rfl
      · rw [List.concat_eq_append, ← List.append_assoc] at hbefore
        obtain rfl : c = '\n' := List.singleton_inj.mp (List.append_inj' hbefore rfl).2
        exact .inr ⟨inner, List.concat_eq_append⟩
    refine ⟨fun more => .inl ⟨returns, rfl, hreturns⟩, ?_, hafter⟩
    rcases hafter with rfl | hafter
    · exact ⟨returns, List.append_nil _⟩
    · exact EndsInFeed.append_left hafter _
  · have hfeed : '\n' ∈ body ++ ends := by
      rw [List.append_nil] at hbefore
      simp [hbefore]
    rcases List.mem_append.mp hfeed with hfeed | hfeed
    · exact absurd hfeed hbody.1
    · exact absurd (hreturns _ hfeed) (by decide)

theorem Statement.reading?_append {statement : Statement}
    (hstatement : statement ∈ Statement.ofLine body) (hfeed : EndsInFeed (ends ++ after))
    (hread : statement.reading? number ⟨start, body ++ ends, after⟩ = some reading)
    (hunderstood : reading.understood = true) (more : Text) :
    statement.reading? number ⟨start, body ++ ends, after ++ more⟩ = some reading := by
  obtain ⟨column, argumentOffset, hopening, hstart, ⟨-, hnot⟩ | ⟨rest, hparse, hstop⟩⟩ :=
    Statement.exists_of_reading?_eq_some hread
  · rw [hunderstood] at hnot
    exact absurd hnot (by decide)
  obtain ⟨lead, tail, -, -, hdrop⟩ := Statement.exists_argument_eq hstatement hopening
  rw [hdrop] at hparse
  have hparse' := Expr.parse?_append hparse (hfeed.append_left tail) more
  have hdrop' : (Line.mk start (body ++ ends) (after ++ more)).onwards.dropBytes argumentOffset =
      tail ++ (ends ++ after) ++ more := by
    rw [hdrop, List.append_assoc, List.append_assoc]
  have hsize : byteSize (tail ++ (ends ++ after) ++ more) - byteSize (rest ++ more) =
      byteSize (tail ++ (ends ++ after)) - byteSize rest := by
    rw [byteSize_append _ more, byteSize_append rest]
    omega
  rw [Statement.reading?_of_parse? hopening (hdrop start ends after) hparse] at hread
  rw [Statement.reading?_of_parse? hopening hdrop' hparse', hsize, ← hread]

/-- What was understood on a line is read from it whatever follows. -/
theorem mem_lineReadings_append (hbody : IsBody body) (hends : ∀ more, Ends ends more)
    (hfeed : EndsInFeed (ends ++ after)) (more : Text)
    (hmem : reading ∈ lineReadings number ⟨start, body ++ ends, after⟩)
    (hunderstood : reading.understood = true) :
    reading ∈ lineReadings number ⟨start, body ++ ends, after ++ more⟩ := by
  rw [lineReadings, body_append_ends hbody (hends after)] at hmem
  rw [lineReadings, body_append_ends hbody (hends (after ++ more))]
  obtain ⟨statement, hstatement, hread⟩ := List.mem_filterMap.mp hmem
  exact List.mem_filterMap.mpr
    ⟨statement, hstatement, Statement.reading?_append hstatement hfeed hread hunderstood more⟩

end Line

/-! ## All lines -/

/-- What was understood in a text that ends where a line starts is read from it whatever
follows. -/
theorem mem_readingsFrom_append {t : Text} (hopens : OpensLine t) (more : Text) {comment : Bool}
    {number start : Nat} {reading : Reading} (hmem : reading ∈ readingsFrom comment number start t)
    (hunderstood : reading.understood = true) :
    reading ∈ readingsFrom comment number start (t ++ more) := by
  induction t using lineInduction generalizing comment number start with
  | nil => simp at hmem
  | line body ends after hbody hends hne ih =>
      obtain ⟨hanyEnds, hfeed, hafter⟩ := hends.of_opensLine hbody hne hopens
      rw [readingsFrom_line hbody hends hne] at hmem
      rw [List.append_assoc, readingsFrom_line hbody (hanyEnds _) hne]
      rcases List.mem_append.mp hmem with hmem | hmem
      · apply List.mem_append_left
        rw [List.mem_ite_nil_right] at hmem ⊢
        obtain ⟨hcode, hmem⟩ := hmem
        exact ⟨hcode, mem_lineReadings_append hbody hanyEnds hfeed more hmem hunderstood⟩
      · apply List.mem_append_right
        cases hnext : nextComment? comment body with
        | none => simp [hnext] at hmem
        | some later =>
            rw [hnext, Option.elim_some] at hmem
            exact ih hafter hmem

/-- Appending to a content that ends in a line feed disturbs no call whose argument is modelled:
it is found again, with the same directive, argument and span. -/
theorem mem_inclusionCalls_append {content : Text} (hfeed : EndsInFeed content)
    {call : InclusionCall} (hmem : call ∈ inclusionCalls content)
    (hmodelled : call.argument ≠ .other) (more : Text) :
    call ∈ inclusionCalls (content ++ more) := by
  obtain ⟨reading, hreading, rfl⟩ := List.mem_map.mp hmem
  obtain ⟨found, -, hstatement⟩ := List.mem_flatMap.mp hreading
  obtain ⟨statement, -, hread⟩ := List.mem_filterMap.mp hstatement
  apply List.mem_map_of_mem
  exact mem_readingsFrom_append (.inr hfeed) more hreading
    (Statement.understood_of_reading? hread hmodelled)

/-- An argument over two lines, above a literal that only ends in the text appended. -/
theorem mem_inclusionCalls_append_unended_literal :
    let content : Text := "require File.expand_path(\n  '../lib/a', __dir__)\nrequire 'b\n"
    let call : InclusionCall :=
      ⟨.require, .expandPathFrom (.str "../lib/a") .currentDir, ⟨0, 48, 1, 1⟩⟩
    EndsInFeed content ∧ call ∈ inclusionCalls content ∧ call.argument ≠ .other ∧
      call ∈ inclusionCalls (content ++ "c'\nrequire 'd'\n".toList) := by
  intro content call
  have hfeed : EndsInFeed content := ⟨content.dropLast, by decide⟩
  have hmem : call ∈ inclusionCalls content := by decide +kernel
  have hmodelled : call.argument ≠ .other := Expr.noConfusion
  exact ⟨hfeed, hmem, hmodelled, mem_inclusionCalls_append hfeed hmem hmodelled _⟩

end RequireLint
