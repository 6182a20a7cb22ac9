import RequireLint.Proofs.Text.Affix
import RequireLint.Proofs.Text.Bytes
import RequireLint.Text.Line

/-!
# Positions of a content

A position that lies between two characters is the byte size of what precedes it.  What precedes
it also tells where it stands: its line feeds count the lines above, and what follows the last of
them is the line up to the position.
-/

namespace RequireLint

/-- A text after which a line starts. -/
def OpensLine (above : Text) : Prop := above = [] ∨ ∃ before, above = before ++ ['\n']

/-- A text is what ends where a line starts, and the line up to its end. -/
theorem OpensLine.exists_append (t : Text) :
    ∃ above line, t = above ++ line ∧ OpensLine above ∧ '\n' ∉ line := by
  induction t using List.reverseRecOn with
  | nil => exact ⟨[], [], rfl, .inl rfl, by simp⟩
  | append_singleton t c ih =>
      by_cases hc : c = '\n'
      · exact ⟨t ++ [c], [], by simp, .inr ⟨t, by rw [hc]⟩, by simp⟩
      · obtain ⟨above, line, rfl, habove, hline⟩ := ih
        refine ⟨above, line ++ [c], List.append_assoc above line [c], habove, ?_⟩
        simpa [hline] using Ne.symm hc

/-- Where a line starts behind a text, one starts behind its last part. -/
theorem OpensLine.of_append {t above : Text} (h : OpensLine (t ++ above)) : OpensLine above := by
  rcases List.eq_nil_or_concat above with rfl | ⟨before, last, rfl⟩
  · exact .inl rfl
  · rw [List.concat_eq_append, ← List.append_assoc] at h
    rcases h with hnil | ⟨more, hsplit⟩
    · simp at hnil
    · obtain ⟨-, hlast⟩ := List.append_inj' hsplit rfl
      exact .inr ⟨before, by rw [List.concat_eq_append, hlast]⟩

namespace Text

/-- A text is its first line without the line feed, and nothing or a line feed follows. -/
theorem exists_firstLine (t : Text) :
    ∃ line below, t = line ++ below ∧ '\n' ∉ line ∧
      (below = [] ∨ ∃ later, below = '\n' :: later) := by
  by_cases hfeed : '\n' ∈ t
  · obtain ⟨line, later, rfl, hline⟩ := List.eq_append_cons_of_mem hfeed
    exact ⟨line, '\n' :: later, rfl, hline, .inr ⟨later, rfl⟩⟩
  · exact ⟨t, [], (List.append_nil t).symm, hfeed, .inl rfl⟩

/-- A position of a content that does not split a character. -/
def IsBoundary (content : Text) (position : Nat) : Prop :=
  ∃ lead rest, content = lead ++ rest ∧ position = byteSize lead

theorem isBoundary_append (lead rest : Text) : IsBoundary (lead ++ rest) (byteSize lead) :=
  ⟨lead, rest, rfl, rfl⟩

/-- A position that a search finds is a boundary, and the rest of the content has what was looked
for. -/
theorem exists_of_mem_positionsFrom {p : Text → Bool} {start position : Nat} {t : Text}
    (h : position ∈ positionsFrom p start t) :
    ∃ before rest, t = before ++ rest ∧ position = start + byteSize before ∧ p rest = true := by
  induction t generalizing start with
  | nil => simp [positionsFrom] at h
  | cons c t ih =>
      have hlater : position ∈ positionsFrom p (start + c.utf8Size) t →
          ∃ before rest, c :: t = before ++ rest ∧ position = start + byteSize before ∧
            p rest = true := by
        intro hmem
        obtain ⟨before, rest, rfl, rfl, hp⟩ := ih hmem
        exact ⟨c :: before, rest, rfl, by rw [byteSize_cons, Nat.add_assoc], hp⟩
      rw [positionsFrom] at h
      split at h
      next hp =>
        rcases List.mem_cons.mp h with rfl | hmem
        · exact ⟨[], c :: t, rfl, rfl, hp⟩
        · exact hlater hmem
      next => exact hlater h

theorem mem_positionsFrom {p : Text → Bool} {c : Char} {rest : Text} (hp : p (c :: rest) = true)
    (start : Nat) (before : Text) :
    start + byteSize before ∈ positionsFrom p start (before ++ c :: rest) := by
  induction before generalizing start with
  | nil => simp [positionsFrom, hp]
  | cons d before ih =>
      have hlater := ih (start + d.utf8Size)
      rw [Nat.add_assoc, ← byteSize_cons] at hlater
      rw [List.cons_append, positionsFrom]
      split
      · exact List.mem_cons_of_mem start hlater
      · exact hlater

/-! ## Line and column -/

theorem lineBreaksFrom_append (start : Nat) (lead rest : Text) :
    lineBreaksFrom start (lead ++ rest) =
      lineBreaksFrom start lead ++ lineBreaksFrom (start + byteSize lead) rest := by
  induction lead generalizing start with
  | nil => rfl
  | cons c lead ih =>
      rw [List.cons_append, lineBreaksFrom, lineBreaksFrom, ih, byteSize_cons, Nat.add_assoc]
      split <;> rfl

theorem length_lineBreaksFrom (start : Nat) (t : Text) :
    (lineBreaksFrom start t).length = t.count '\n' := by
  induction t generalizing start with
  | nil => rfl
  | cons c t ih =>
      rw [lineBreaksFrom, List.count_cons]
      by_cases hc : c = '\n'
      · simp [hc, ih]
      · simp [hc, ih]

theorem lineBreaksFrom_of_no_feed {line : Text} (hline : '\n' ∉ line) (start : Nat) :
    lineBreaksFrom start line = [] := by
  rw [← List.length_eq_zero_iff, length_lineBreaksFrom]
  exact List.count_eq_zero.mpr hline

theorem bounds_of_mem_lineBreaksFrom {start position : Nat} {t : Text}
    (h : position ∈ lineBreaksFrom start t) :
    start < position ∧ position ≤ start + byteSize t := by
  induction t generalizing start with
  | nil => simp [lineBreaksFrom] at h
  | cons c t ih =>
      have hpos := c.utf8Size_pos
      rw [lineBreaksFrom] at h
      rw [byteSize_cons]
      split at h
      · rcases List.mem_cons.mp h with rfl | hmem
        · omega
        · have hlater := ih hmem
          omega
      · have hlater := ih h
        omega

/-- The last line that starts in a text which ends where a line starts does so at its end. -/
theorem getLastD_lineStarts {above : Text} (habove : OpensLine above) :
    (lineStarts above).getLastD 0 = byteSize above := by
  rcases habove with rfl | ⟨before, rfl⟩
  · rfl
  · have hfeed : lineBreaksFrom (0 + byteSize before) ['\n'] = [byteSize (before ++ ['\n'])] := by
      rw [Nat.zero_add, byteSize_append]
      rfl
    rw [lineStarts, lineBreaksFrom_append, hfeed, ← List.cons_append, List.getLastD_concat]

/-- The line and the column of a position: the line feeds above its line are counted, and the
bytes before it on the line. -/
theorem locate_append {above line : Text} (habove : OpensLine above) (hline : '\n' ∉ line)
    (rest : Text) :
    locate (above ++ line ++ rest) (byteSize (above ++ line)) =
      (above.count '\n' + 1, byteSize line + 1) := by
  have hstarts : lineStarts (above ++ line ++ rest) =
      lineStarts above ++ lineBreaksFrom (byteSize (above ++ line)) rest := by
    rw [lineStarts, lineBreaksFrom_append, lineBreaksFrom_append, lineBreaksFrom_of_no_feed hline,
      List.append_nil, Nat.zero_add]
    rfl
  have hpassed : (lineStarts (above ++ line ++ rest)).filter (· ≤ byteSize (above ++ line)) =
      lineStarts above := by
    rw [hstarts, List.filter_append, List.filter_eq_self.mpr, List.filter_eq_nil_iff.mpr,
      List.append_nil]
    · intro position hmem
      have hbounds := bounds_of_mem_lineBreaksFrom hmem
      simpa using hbounds.1
    · intro position hmem
      rw [decide_eq_true_eq, byteSize_append]
      rcases List.mem_cons.mp hmem with rfl | hmem
      · omega
      · have hbounds := bounds_of_mem_lineBreaksFrom hmem
        omega
  have hcount : (lineStarts above).length = above.count '\n' + 1 := by
    rw [lineStarts, List.length_cons, length_lineBreaksFrom]
  rw [locate, hpassed, hcount, getLastD_lineStarts habove, byteSize_append, Nat.add_sub_cancel_left]

/-- A position comes before another exactly when its line does, or its column on the same line. -/
theorem locate_lt_of_lt (content : Text) {position later : Nat} (h : position < later) :
    (locate content position).1 < (locate content later).1 ∨
      (locate content position).1 = (locate content later).1 ∧
        (locate content position).2 < (locate content later).2 := by
  have hsublist : ((lineStarts content).filter (· ≤ position)).Sublist
      ((lineStarts content).filter (· ≤ later)) := by
    apply List.monotone_filter_right
    intro start hstart
    rw [decide_eq_true_eq] at hstart ⊢
    omega
  have hlast : ((lineStarts content).filter (· ≤ position)).getLastD 0 ≤ position := by
    rcases List.eq_nil_or_concat ((lineStarts content).filter (· ≤ position)) with
      hnil | ⟨starts, start, hstarts⟩
    · rw [hnil]
      exact Nat.zero_le position
    · have hmem : start ∈ (lineStarts content).filter (· ≤ position) := by
        rw [hstarts]
        simp
      rw [hstarts, List.concat_eq_append, List.getLastD_concat]
      exact of_decide_eq_true (List.mem_filter.mp hmem).2
  rw [locate, locate]
  rcases Nat.lt_or_eq_of_le hsublist.length_le with hlt | heq
  · exact .inl hlt
  · refine .inr ⟨heq, ?_⟩
    rw [← hsublist.eq_of_length heq]
    dsimp only
    omega

/-! ## The line before a position -/

/-- The last line of a text. -/
def lastLine (t : Text) : Text := (afterLast? ['\n'] t).getD t

theorem lineBefore_append (lead rest : Text) :
    lineBefore (lead ++ rest) (byteSize lead) = lastLine lead := by
  rw [lineBefore, takeBytes_append, lastLine]

theorem afterLast?_feed_eq_none {line : Text} (hline : '\n' ∉ line) :
    afterLast? ['\n'] line = none := by
  cases h : afterLast? ['\n'] line with
  | none => rfl
  | some rest =>
      obtain ⟨before, rfl⟩ := exists_of_afterLast?_eq_some h
      simp at hline

theorem lastLine_of_no_feed {line : Text} (hline : '\n' ∉ line) : lastLine line = line := by
  rw [lastLine, afterLast?_feed_eq_none hline, Option.getD_none]

end Text

open Text in
theorem OpensLine.lastLine_append {above line : Text} (habove : OpensLine above)
    (hline : '\n' ∉ line) : lastLine (above ++ line) = line := by
  rcases habove with rfl | ⟨before, rfl⟩
  · exact lastLine_of_no_feed hline
  · have hlast : afterLast? ['\n'] (before ++ '\n' :: line) = some line := by
      induction before with
      | nil =>
          rw [List.nil_append, afterLast?, afterLast?_feed_eq_none hline]
          rfl
      | cons c before ih => rw [List.cons_append, afterLast?, ih, Option.orElse_some]
    rw [List.append_assoc, List.singleton_append, lastLine, hlast, Option.getD_some]

/-- With something before a text its last line can only grow. -/
theorem Text.lastLine_suffix (lead t : Text) : lastLine t <:+ lastLine (lead ++ t) := by
  obtain ⟨above, line, rfl, habove, hline⟩ := OpensLine.exists_append t
  rw [habove.lastLine_append hline]
  rcases habove with rfl | ⟨more, rfl⟩
  · obtain ⟨above, before, rfl, habove, hbefore⟩ := OpensLine.exists_append lead
    have hfree : '\n' ∉ before ++ line := by simp [hbefore, hline]
    rw [List.nil_append, List.append_assoc, habove.lastLine_append hfree]
    exact List.suffix_append before line
  · have habove : OpensLine (lead ++ (more ++ ['\n'])) := .inr ⟨lead ++ more, by simp⟩
    rw [← List.append_assoc lead, habove.lastLine_append hline]

end RequireLint
