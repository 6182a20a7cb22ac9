import RequireLint.Proofs.Text.Returns

/-!
# Positions among lines with carriage returns

A carriage return at the end of each line moves what stands behind it.  A position is shifted by the
bytes of the carriage returns before it, and stays on its line and in its column there: the carriage
returns stand on the lines above.  Searches and cuts commute with the shift.
-/

namespace RequireLint

open Text

namespace Text

/-- Where a position of a content lies when its lines end in carriage returns. -/
def shifted (content : Text) (position : Nat) : Nat :=
  byteSize (withReturns (content.takeBytes position))

@[simp] theorem shifted_append (lead rest : Text) :
    shifted (lead ++ rest) (byteSize lead) = byteSize (withReturns lead) := by
  rw [shifted, takeBytes_append]

theorem shifted_byteSize (content : Text) :
    shifted content (byteSize content) = byteSize (withReturns content) := by
  have hwhole := shifted_append content []
  rwa [List.append_nil] at hwhole

theorem shifted_add (lead rest : Text) (n : Nat) :
    shifted (lead ++ rest) (byteSize lead + n) = byteSize (withReturns lead) + shifted rest n := by
  rw [shifted, takeBytes_add, withReturns_append, byteSize_append, shifted]

end Text

theorem OpensLine.withReturns {above : Text} (h : OpensLine above) :
    OpensLine (withReturns above) := by
  rcases h with rfl | ⟨before, rfl⟩
  · exact .inl rfl
  · exact .inr ⟨Text.withReturns before ++ ['\r'], by simp⟩

namespace Text

/-- Carriage returns change no line and no column. -/
theorem locate_shifted {content : Text} {position : Nat} (h : IsBoundary content position) :
    locate (withReturns content) (shifted content position) = locate content position := by
  obtain ⟨lead, rest, rfl, rfl⟩ := h
  obtain ⟨above, line, rfl, habove, hline⟩ := OpensLine.exists_append lead
  rw [shifted_append, withReturns_append, withReturns_append, withReturns_of_no_feed hline,
    locate_append habove.withReturns hline, locate_append habove hline, count_withReturns]

theorem lastLine_withReturns (t : Text) : lastLine (withReturns t) = lastLine t := by
  obtain ⟨above, line, rfl, habove, hline⟩ := OpensLine.exists_append t
  rw [withReturns_append, withReturns_of_no_feed hline, habove.withReturns.lastLine_append hline,
    habove.lastLine_append hline]

theorem lineBefore_shifted {content : Text} {position : Nat} (h : IsBoundary content position) :
    lineBefore (withReturns content) (shifted content position) = lineBefore content position := by
  obtain ⟨lead, rest, rfl, rfl⟩ := h
  rw [shifted_append, withReturns_append, lineBefore_append, lineBefore_append,
    lastLine_withReturns]

/-- A search for what starts with no line feed finds the same places. -/
theorem positionsFrom_withReturns {p : Text → Bool} (hp : ∀ t, p (withReturns t) = p t)
    (hfeed : ∀ t, p ('\n' :: t) = false) (lead t : Text) :
    positionsFrom p (byteSize (withReturns lead)) (withReturns t) =
      (positionsFrom p (byteSize lead) t).map (shifted (lead ++ t)) := by
  induction t generalizing lead with
  | nil => rfl
  | cons c t ih =>
      have hlater := ih (lead ++ [c])
      have hreturns := hp (c :: t)
      rw [List.append_assoc, List.singleton_append, byteSize_append lead] at hlater
      by_cases hc : c = '\n'
      · subst hc
        rw [hfeed, withReturns_feed] at hreturns
        rw [withReturns_feed, positionsFrom, positionsFrom, positionsFrom, hreturns, hfeed, hfeed,
          if_neg Bool.false_ne_true, if_neg Bool.false_ne_true, if_neg Bool.false_ne_true]
        simpa [Nat.add_assoc] using hlater
      · rw [withReturns_append, withReturns_cons hc, withReturns_nil, byteSize_append] at hlater
        rw [withReturns_cons hc] at hreturns ⊢
        rw [positionsFrom, positionsFrom, hreturns]
        split
        · rw [List.map_cons, shifted_append]
          exact congrArg _ hlater
        · exact hlater

/-! ## Lines -/

theorem splitLine_withReturns (t : Text) :
    splitLine (withReturns t) = (withReturns (splitLine t).1, withReturns (splitLine t).2) := by
  induction t with
  | nil => rfl
  | cons c t ih =>
      by_cases hc : c = '\n'
      · simp [hc, splitLine]
      · simp [withReturns_cons hc, splitLine, hc, ih]

theorem linesFrom_of_ne_nil {t : Text} (ht : t ≠ []) (start : Nat) :
    linesFrom start t =
      ⟨start, (splitLine t).1, (splitLine t).2⟩ ::
        linesFrom (start + byteSize (splitLine t).1) (splitLine t).2 := by
  obtain ⟨c, rest, rfl⟩ := List.exists_cons_of_ne_nil ht
  rw [linesFrom]

theorem linesFrom_feed (start : Nat) (t : Text) :
    linesFrom start ('\n' :: t) = ⟨start, ['\n'], t⟩ :: linesFrom (start + 1) t := by
  rw [linesFrom]
  rfl

/-- A line of a content when its lines end in carriage returns. -/
def Line.withReturns (content : Text) (line : Line) : Line :=
  ⟨shifted content line.start, Text.withReturns line.whole, Text.withReturns line.after⟩

/-- The lines stay the lines. -/
theorem linesFrom_withReturns (lead t : Text) :
    linesFrom (byteSize (withReturns lead)) (withReturns t) =
      (linesFrom (byteSize lead) t).map (Line.withReturns (lead ++ t)) := by
  induction hlength : t.length using Nat.strong_induction_on generalizing lead t with
  | h length ih =>
      by_cases ht : t = []
      · rw [ht, withReturns_nil, linesFrom, linesFrom, List.map_nil]
      have hlt : (splitLine t).2.length < length := by
        obtain ⟨c, rest, rfl⟩ := List.exists_cons_of_ne_nil ht
        exact hlength ▸ length_splitLine_lt c rest
      have hlater := ih _ hlt (lead ++ (splitLine t).1) (splitLine t).2 rfl
      rw [List.append_assoc, splitLine_join, withReturns_append, byteSize_append,
        byteSize_append] at hlater
      rw [linesFrom_of_ne_nil ht, linesFrom_of_ne_nil (mt withReturns_eq_nil.mp ht),
        splitLine_withReturns, List.map_cons, ← hlater, Line.withReturns, shifted_append]

end Text

end RequireLint
