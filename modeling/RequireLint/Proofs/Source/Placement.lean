import Mathlib.Data.List.Nodup
import RequireLint.Proofs.Source.Lines
import RequireLint.Proofs.Text.Position

/-!
# The order of the inclusion calls

The reader numbers the lines as it goes and counts the bytes before a keyword on its line.  Both
agree with what the position of the keyword says on its own.  The calls of a content stand in its
order, and no two of them start at the same position.
-/

namespace RequireLint

open Text

/-! ## Lines -/

/-- A line that holds code is a piece of the text, and its number counts the lines above it. -/
theorem exists_of_mem_codeLines {comment : Bool} {number start : Nat} {t : Text}
    {found : Nat × Line} (h : found ∈ codeLines comment number (linesFrom start t)) :
    ∃ above body ends after, t = above ++ (body ++ ends ++ after) ∧
      found = (number + above.count '\n', ⟨start + byteSize above, body ++ ends, after⟩) ∧
      OpensLine above ∧ IsBody body ∧ Ends ends after := by
  induction t using lineInduction generalizing comment number start with
  | nil =>
      rw [linesFrom] at h
      simp [codeLines] at h
  | line body ends after hbody hends hne ih =>
      rw [linesFrom_of_ends hbody.1 hends hne, codeLines_cons, List.mem_append] at h
      rcases h with hfirst | hlater
      · rw [List.mem_ite_nil_right, List.mem_singleton] at hfirst
        exact ⟨[], body, ends, after, rfl, hfirst.2, .inl rfl, hbody, hends⟩
      · obtain ⟨later, -, hmem⟩ : ∃ later, nextComment? comment _ = some later ∧
            found ∈ codeLines later (number + 1)
              (linesFrom (start + byteSize (body ++ ends)) after) := by
          cases hnext : nextComment? comment (Line.mk start (body ++ ends) after).body with
          | none => simp [hnext] at hlater
          | some later => exact ⟨later, hnext, by simpa [hnext] using hlater⟩
        have hafter : after ≠ [] := by
          rintro rfl
          rw [linesFrom] at hmem
          simp [codeLines] at hmem
        obtain ⟨above, body', ends', after', rfl, rfl, habove, hbody', hends'⟩ := ih hmem
        have hcount := hends.count_feed hbody.1 hafter
        refine ⟨body ++ ends ++ above, body', ends', after', by simp, ?_,
          hends.opensLine_append hafter habove body, hbody', hends'⟩
        rw [List.count_append, hcount, byteSize_append (body ++ ends), Nat.add_assoc number,
          Nat.add_assoc start]

/-! ## Calls -/

namespace Statement

variable {number : Nat} {line : Line} {statement : Statement}

theorem line_column_of_reading? {reading : Reading}
    (h : statement.reading? number line = some reading) :
    reading.call.span.line = number ∧
      line.start + reading.call.span.column = reading.call.span.start + 1 := by
  simp only [reading?] at h
  split at h
  · simp at h
  · split at h
    · split at h
      · obtain rfl := Option.some.inj h
        exact ⟨rfl, rfl⟩
      · obtain rfl := Option.some.inj h
        exact ⟨rfl, rfl⟩
    · simp at h

/-- A call starts at its keyword, behind the blanks of its statement. -/
theorem exists_rest_of_reading? {reading : Reading}
    (h : statement.reading? number line = some reading) :
    ∃ blanks tail, statement.rest = blanks ++ (reading.call.kind.keyword ++ tail) ∧
      (∀ c ∈ blanks, isInlineBlank c = true) ∧
      reading.call.span.start = line.start + (statement.offset + byteSize blanks) := by
  obtain ⟨column, argumentOffset, hopening, hstart, -⟩ := exists_of_reading?_eq_some h
  obtain ⟨blanks, gap, tail, hrest, hblanks, rfl, -⟩ := exists_of_opening?_eq_some hopening
  refine ⟨blanks, gap ++ tail, ?_, hblanks, hstart⟩
  rw [hrest]
  simp

end Statement

/-- Line and column of a call are those of the position where it starts. -/
theorem locate_of_mem_inclusionCalls {content : Text} {call : InclusionCall}
    (h : call ∈ inclusionCalls content) :
    locate content call.span.start = (call.span.line, call.span.column) := by
  obtain ⟨reading, hreading, rfl⟩ := List.mem_map.mp h
  obtain ⟨found, hcode, hstatement⟩ := List.mem_flatMap.mp hreading
  obtain ⟨statement, hmem, hread⟩ := List.mem_filterMap.mp hstatement
  obtain ⟨above, body, ends, after, rfl, rfl, habove, hbody, hends⟩ :=
    exists_of_mem_codeLines hcode
  dsimp only at hmem hread
  rw [body_append_ends hbody hends] at hmem
  obtain ⟨before, rfl, hoffset, -⟩ := exists_of_mem_ofLine hmem
  obtain ⟨blanks, tail, hrest, -, hstart⟩ := Statement.exists_rest_of_reading? hread
  obtain ⟨hline, hcolumn⟩ := Statement.line_column_of_reading? hread
  generalize reading.call.kind.keyword ++ tail = rest at hrest
  have hfree : '\n' ∉ before ++ blanks := by
    intro hfeed
    apply hbody.1
    rw [hrest, ← List.append_assoc]
    exact List.mem_append_left _ hfeed
  have hcontent : above ++ (before ++ statement.rest ++ ends ++ after) =
      above ++ (before ++ blanks) ++ (rest ++ ends ++ after) := by
    rw [hrest]
    simp
  have hposition : reading.call.span.start = byteSize (above ++ (before ++ blanks)) := by
    rw [hstart, hoffset]
    simp only [byteSize_append]
    omega
  rw [hcontent, hposition, locate_append habove hfree, hline, Prod.mk.injEq]
  rw [hposition, byteSize_append above] at hcolumn
  dsimp only at hcolumn
  omega

/-! ## Calls in order -/

/-- A statement of a line ends at a `;` before another. -/
def Statement.Precedes (earlier later : Statement) : Prop :=
  ∃ between, earlier.rest = between ++ [';'] ++ later.rest ∧
    later.offset = earlier.offset + byteSize (between ++ [';'])

namespace Statement

theorem pairwise_afterSemicolons (quoting : Quoting) (offset : Nat) (t : Text) :
    (afterSemicolons quoting offset t).Pairwise Precedes := by
  fun_induction afterSemicolons quoting offset t with
  | case1 => exact .nil
  | case2 _ _ _ _ _ _ ih => exact ih
  | case3 _ _ _ _ _ ih => exact ih
  | case4 => exact .nil
  | case5 offset rest later _ _ ih =>
      apply List.pairwise_cons.mpr
      refine ⟨?_, ih⟩
      intro statement hmem
      exact exists_of_mem_afterSemicolons hmem
  | case6 _ _ _ _ _ _ _ ih => exact ih

/-- The statements of a line stand one behind the other. -/
theorem pairwise_ofLine (body : Text) : (ofLine body).Pairwise Precedes := by
  apply List.pairwise_cons.mpr
  refine ⟨?_, pairwise_afterSemicolons .outside 0 body⟩
  intro statement hmem
  exact exists_of_mem_afterSemicolons hmem

/-- The keyword of a statement stands before the `;` that ends the statement. -/
theorem Precedes.start_lt {number : Nat} {line : Line} {earlier later : Statement}
    (h : earlier.Precedes later) {first second : Reading}
    (hfirst : earlier.reading? number line = some first)
    (hsecond : later.reading? number line = some second) :
    first.call.span.start < second.call.span.start := by
  obtain ⟨between, hbetween, hoffset⟩ := h
  obtain ⟨blanks, tail, hrest, hblanks, hstart⟩ := exists_rest_of_reading? hfirst
  have hlater := start_le_of_reading? hsecond
  have hsize : byteSize blanks ≤ byteSize between := by
    by_contra hlong
    rw [hrest, List.append_assoc] at hbetween
    obtain ⟨more, rfl, hmore⟩ :=
      exists_append_of_byteSize_le hbetween.symm (Nat.le_of_not_le hlong)
    cases more with
    | nil => simp at hlong
    | cons c more =>
        obtain ⟨rfl, -⟩ := List.cons.inj hmore
        exact absurd (hblanks ';' (by simp)) (by decide)
  have hone : byteSize [';'] = 1 := rfl
  rw [hoffset, byteSize_append, hone] at hlater
  omega

/-- A call starts on its line. -/
theorem start_lt_of_mem_ofLine {number : Nat} {line : Line} {statement : Statement}
    {reading : Reading} (hmem : statement ∈ ofLine line.body)
    (h : statement.reading? number line = some reading) :
    reading.call.span.start < line.start + byteSize line.body := by
  obtain ⟨before, hbody, hoffset, -⟩ := exists_of_mem_ofLine hmem
  obtain ⟨blanks, tail, hrest, -, hstart⟩ := exists_rest_of_reading? h
  have hkeyword : 0 < byteSize reading.call.kind.keyword := by
    cases reading.call.kind <;> decide
  rw [hstart, hoffset, hbody, hrest]
  simp only [byteSize_append]
  omega

end Statement

theorem pairwise_lineReadings (number : Nat) (line : Line) :
    (lineReadings number line).Pairwise fun first second =>
      first.call.span.start < second.call.span.start := by
  apply List.pairwise_filterMap.mpr
  apply (Statement.pairwise_ofLine line.body).imp
  intro earlier later hprecedes first hfirst second hsecond
  exact hprecedes.start_lt hfirst hsecond

theorem pairwise_readingsFrom (comment : Bool) (number start : Nat) (t : Text) :
    (readingsFrom comment number start t).Pairwise fun first second =>
      first.call.span.start < second.call.span.start := by
  induction t using lineInduction generalizing comment number start with
  | nil =>
      rw [readingsFrom_nil]
      exact .nil
  | line body ends after hbody hends hne ih =>
      rw [readingsFrom_line hbody hends hne]
      cases hnext : nextComment? comment body with
      | none =>
          rw [Option.elim_none, List.append_nil]
          split
          · exact pairwise_lineReadings number _
          · exact .nil
      | some later =>
          rw [Option.elim_some]
          apply List.pairwise_append.mpr
          refine ⟨?_, ih later (number + 1) (start + byteSize (body ++ ends)), ?_⟩
          · split
            · exact pairwise_lineReadings number _
            · exact .nil
          · intro first hfirst second hsecond
            have hbelow := le_start_of_mem_readingsFrom hsecond
            rw [List.mem_ite_nil_right] at hfirst
            obtain ⟨statement, hmem, hread⟩ := List.mem_filterMap.mp hfirst.2
            have habove := Statement.start_lt_of_mem_ofLine hmem hread
            rw [body_append_ends hbody hends] at habove
            rw [byteSize_append] at hbelow
            dsimp only at habove
            omega

/-- No two calls of a content start at the same position, and they are read in its order. -/
theorem pairwise_inclusionCalls (content : Text) :
    (inclusionCalls content).Pairwise fun first second => first.span.start < second.span.start := by
  apply List.pairwise_map.mpr
  exact pairwise_readingsFrom false 1 0 content

/-- A content has one call at most at a position. -/
theorem InclusionCall.eq_of_start_eq {content : Text} {first second : InclusionCall}
    (hfirst : first ∈ inclusionCalls content) (hsecond : second ∈ inclusionCalls content)
    (hstart : first.span.start = second.span.start) : first = second := by
  have hstarts : ((inclusionCalls content).map (·.span.start)).Nodup :=
    List.pairwise_map.mpr ((pairwise_inclusionCalls content).imp Nat.ne_of_lt)
  exact List.inj_on_of_nodup_map hstarts hfirst hsecond hstart

end RequireLint
