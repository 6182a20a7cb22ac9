import RequireLint.Proofs.Rule.Corrections
import RequireLint.Proofs.Source.Statements
import RequireLint.Proofs.Text.Position

/-!
# Corrections as one splice

`Correction.applyAll` changes the text as it goes, and the line that a removed statement leaves
behind is measured on the text changed so far.  This file shows that the outcome is that of
edits which are all measured on the content itself and all made at once.

The invariant is that everything changed so far starts at a margin: a place where a statement may
start, up to blanks.  A statement before it ends in a character that is no blank and no
separator, so a separator stands between the two, and what a removal reads of the text ends
there.
-/

namespace RequireLint

open Text

/-- A range that starts and stops between characters of a content. -/
def ByteRange.LiesIn (range : ByteRange) (content : Text) : Prop :=
  ∃ lead old rest, content = lead ++ old ++ rest ∧ range.start = byteSize lead ∧
    range.stop = byteSize (lead ++ old)

theorem ByteRange.LiesIn.start_le_stop {range : ByteRange} {content : Text}
    (h : range.LiesIn content) : range.start ≤ range.stop := by
  obtain ⟨lead, old, rest, -, hstart, hstop⟩ := h
  simp [hstart, hstop]

/-- The content from `position` on with all edits made at once.  The edits stand in the order of
the content. -/
def Text.spliceAll (content : Text) (position : Nat) : List (ByteRange × Text) → Text
  | [] => content.dropBytes position
  | (range, inserted) :: later =>
    content.slice position range.start ++ inserted ++ spliceAll content range.stop later

namespace Correction

/-- The edits that corrections ask of a content.  A correction is accepted when it ends before
the range of the last accepted one. -/
def accepted (content : Text) (boundary : Option Nat) :
    List (Span × Correction) → List (ByteRange × Text)
  | [] => []
  | (span, correction) :: rest =>
    if boundary.all (span.stop ≤ ·) then
      let edit := correction.edit content span
      edit :: accepted content (some edit.1.start) rest
    else accepted content boundary rest

end Correction

/-! ## Between a statement and a margin -/

theorem Expr.isFinal_iff_not_separator {c : Char} (h : isFinal c = true) :
    isInlineBlank c = false ∧ c ≠ '\n' ∧ c ≠ ';' := by
  refine ⟨?_, ?_, ?_⟩
  · by_contra hblank
    rw [Bool.not_eq_false, isInlineBlank, Bool.or_eq_true, decide_eq_true_eq,
      decide_eq_true_eq] at hblank
    rcases hblank with rfl | rfl <;> revert h <;> decide
  · rintro rfl
    revert h
    decide
  · rintro rfl
    revert h
    decide

/-- A separator stands between a statement and a later margin. -/
theorem separator_mem_of_margin {before statement between : Text}
    (hclosed : Expr.Closed statement) (hmargin : Margin (before ++ statement ++ between)) :
    '\n' ∈ between ∨ ';' ∈ between := by
  obtain ⟨inner, final, rfl, hfinal⟩ := hclosed
  obtain ⟨hblank, hfeed, hsemicolon⟩ := Expr.isFinal_iff_not_separator hfinal
  obtain ⟨opening, blanks, heq, rfl | ⟨lead, c, rfl, hc⟩, hblanks⟩ := hmargin
  · have hmem : final ∈ blanks := by
      rw [List.nil_append] at heq
      rw [← heq]
      simp
    rw [hblanks final hmem] at hblank
    simp at hblank
  · rcases List.append_eq_append_iff.mp heq with
      ⟨more, hopening, hbetween⟩ | ⟨more, hstatement, hmore⟩
    · rcases List.eq_nil_or_concat more with rfl | ⟨lead', d, rfl⟩
      · have hlast : c = final := by simpa using congrArg List.getLast? hopening
        exact absurd hc (by simp [hlast, hfeed, hsemicolon])
      · rw [List.concat_eq_append, ← List.append_assoc] at hopening
        have hlast : [c] = [d] := (List.append_inj' hopening rfl).2
        rw [hbetween, List.concat_eq_append, ← hlast]
        rcases hc with rfl | rfl <;> simp
    · rcases List.eq_nil_or_concat more with rfl | ⟨lead', d, rfl⟩
      · have hlast : final = c := by simpa using congrArg List.getLast? hstatement
        exact absurd hc (by simp [← hlast, hfeed, hsemicolon])
      · rw [List.concat_eq_append, ← List.append_assoc, ← List.append_assoc] at hstatement
        have hlast : [final] = [d] := (List.append_inj' hstatement rfl).2
        have hmem : final ∈ blanks := by
          rw [hmore, List.concat_eq_append, ← hlast]
          simp
        rw [hblanks final hmem] at hblank
        simp at hblank

/-! ## Removals -/

theorem lineAfter_append (lead rest : Text) :
    lineAfter (lead ++ rest) (byteSize lead) = rest.takeWhile (· ≠ '\n') := by
  rw [lineAfter, dropBytes_append]

/-- A statement may start where the last line does. -/
theorem exists_append_lastLine (t : Text) :
    ∃ above, t = above ++ lastLine t ∧ OpensStatement above := by
  rw [lastLine]
  cases h : afterLast? ['\n'] t with
  | none => exact ⟨[], rfl, .inl rfl⟩
  | some after =>
      obtain ⟨before, hbefore⟩ := exists_of_afterLast?_eq_some h
      exact ⟨before ++ ['\n'], hbefore, .inr ⟨before, '\n', rfl, .inl rfl⟩⟩

theorem OpensStatement.margin {lead : Text} (h : OpensStatement lead) : Margin lead :=
  ⟨lead, [], by simp, h, by simp⟩

/-- A text is one line, or a line feed follows its first line. -/
theorem eq_takeWhile_or_exists_append (t : Text) :
    t = t.takeWhile (· ≠ '\n') ∨ ∃ below, t = t.takeWhile (· ≠ '\n') ++ '\n' :: below := by
  induction t with
  | nil => exact .inl rfl
  | cons c rest ih =>
      by_cases hc : c = '\n'
      · exact .inr ⟨rest, by simp [hc]⟩
      · simpa [List.takeWhile_cons, hc] using ih

theorem exists_append_of_feed {t : Text} (hfeed : '\n' ∈ t) :
    ∃ below, t = t.takeWhile (· ≠ '\n') ++ '\n' :: below := by
  refine (eq_takeWhile_or_exists_append t).resolve_left fun hline => ?_
  rw [hline] at hfeed
  simpa using List.mem_takeWhile_imp hfeed

theorem takeWhile_append_of_feed {t : Text} (hfeed : '\n' ∈ t) (rest : Text) :
    (t ++ rest).takeWhile (· ≠ '\n') = t.takeWhile (· ≠ '\n') := by
  obtain ⟨below, hline⟩ := exists_append_of_feed hfeed
  rw [List.takeWhile_append, if_neg]
  intro hlength
  have hcount := congrArg List.length hline
  rw [List.length_append, hlength, List.length_cons] at hcount
  omega

section Removal

variable (lead statement rest : Text)

theorem removalRange_append :
    removalRange (lead ++ statement ++ rest) ⟨byteSize lead, byteSize (lead ++ statement)⟩ =
      if allBlank (lastLine lead) && allBlank (rest.takeWhile (· ≠ '\n')) then
        ⟨byteSize lead - byteSize (lastLine lead),
          min (byteSize (lead ++ statement) + byteSize (rest.takeWhile (· ≠ '\n')) + 1)
            (byteSize (lead ++ statement ++ rest))⟩
      else ⟨byteSize lead, byteSize (lead ++ statement)⟩ := by
  have hbefore : lineBefore (lead ++ statement ++ rest) (byteSize lead) = lastLine lead := by
    rw [List.append_assoc, lineBefore_append]
  simp only [removalRange, hbefore, lineAfter_append]

/-- A removal starts at a margin and ends between characters. -/
theorem exists_removalRange_eq (hlead : Margin lead) :
    ∃ above old below, lead ++ statement ++ rest = above ++ old ++ below ∧ Margin above ∧
      removalRange (lead ++ statement ++ rest) ⟨byteSize lead, byteSize (lead ++ statement)⟩ =
        ⟨byteSize above, byteSize (above ++ old)⟩ := by
  rw [removalRange_append]
  split
  · obtain ⟨above, habove, hopens⟩ := exists_append_lastLine lead
    have hsize := congrArg byteSize habove
    rw [byteSize_append] at hsize
    rcases eq_takeWhile_or_exists_append rest with hrest | ⟨below, hrest⟩
    · refine ⟨above, lastLine lead ++ statement ++ rest, [], ?_, hopens.margin, ?_⟩
      · conv_lhs => rw [habove]
        simp
      · rw [← hrest]
        simp only [byteSize_append, ByteRange.mk.injEq]
        omega
    · refine ⟨above, lastLine lead ++ statement ++ rest.takeWhile (· ≠ '\n') ++ ['\n'], below,
        ?_, hopens.margin, ?_⟩
      · conv_lhs => rw [habove, hrest]
        simp
      · have hafter := congrArg byteSize hrest
        have hfeed : '\n'.utf8Size = 1 := rfl
        simp only [byteSize_append, byteSize_cons, byteSize_nil, hfeed] at hafter ⊢
        rw [ByteRange.mk.injEq]
        omega
  · exact ⟨lead, statement, rest, rfl, hlead, rfl⟩

/-- A removal reads the text up to the next separator only, and ends there. -/
theorem removalRange_append_of_separator {between : Text}
    (hseparator : '\n' ∈ between ∨ ';' ∈ between) :
    removalRange (lead ++ statement ++ between ++ rest)
        ⟨byteSize lead, byteSize (lead ++ statement)⟩ =
      removalRange (lead ++ statement ++ between)
        ⟨byteSize lead, byteSize (lead ++ statement)⟩ := by
  rw [List.append_assoc _ between, removalRange_append, removalRange_append]
  by_cases hfeed : '\n' ∈ between
  · obtain ⟨below, hbelow⟩ := exists_append_of_feed hfeed
    have hsize := congrArg byteSize hbelow
    have hone : '\n'.utf8Size = 1 := rfl
    simp only [byteSize_append, byteSize_cons, hone] at hsize ⊢
    rw [takeWhile_append_of_feed hfeed, Nat.min_eq_left (by omega), Nat.min_eq_left (by omega)]
  · have hsemicolon : ';' ∈ between := hseparator.resolve_left hfeed
    have hline : between.takeWhile (· ≠ '\n') = between :=
      List.takeWhile_eq_self_iff.mpr fun c hc => by
        simpa using ne_of_mem_of_not_mem hc hfeed
    have hblank : ∀ more, allBlank (between ++ more) = false := by
      intro more
      rw [allBlank, List.all_eq_false]
      exact ⟨';', List.mem_append_left more hsemicolon, by decide⟩
    have hbetween : allBlank between = false := by simpa using hblank []
    rw [List.takeWhile_append, hline, if_pos rfl, hblank, hbetween]
    simp

end Removal

/-! ## One edit after the other -/

/-- What precedes the first edit is kept. -/
theorem spliceAll_eq_append {content : Text} (lead : Text) {piece rest : Text}
    {edits : List (ByteRange × Text)} (hcontent : content = lead ++ piece ++ rest)
    (hstart : ∀ edit ∈ edits.head?,
      byteSize (lead ++ piece) ≤ edit.1.start ∧ edit.1.LiesIn content) :
    content.spliceAll (byteSize lead) edits =
      piece ++ content.spliceAll (byteSize (lead ++ piece)) edits := by
  cases edits with
  | nil =>
      have hwhole : content.dropBytes (byteSize lead) = piece ++ rest := by
        rw [hcontent, List.append_assoc, dropBytes_append]
      have hkept : content.dropBytes (byteSize (lead ++ piece)) = rest := by
        rw [hcontent, dropBytes_append]
      simp only [spliceAll, hwhole, hkept]
  | cons edit later =>
      obtain ⟨range, inserted⟩ := edit
      obtain ⟨hle, before, old, after, hsplit, hbefore, -⟩ := hstart _ rfl
      rw [List.append_assoc] at hsplit
      dsimp only at hle hbefore
      rw [hbefore] at hle
      obtain ⟨between, rfl, -⟩ := exists_append_of_byteSize_le (hcontent.symm.trans hsplit) hle
      have hwhole : content.slice (byteSize lead) range.start = piece ++ between := by
        have hslice := slice_append lead (piece ++ between) (old ++ after)
        rwa [← List.append_assoc, ← hsplit, ← hbefore] at hslice
      have hkept : content.slice (byteSize (lead ++ piece)) range.start = between := by
        have hslice := slice_append (lead ++ piece) between (old ++ after)
        rwa [← hsplit, ← hbefore] at hslice
      simp only [spliceAll, hwhole, hkept, List.append_assoc]

/-- Replacing a piece before the first edit makes one edit more. -/
theorem splice_spliceAll {content lead old rest : Text} {edits : List (ByteRange × Text)}
    (hcontent : content = lead ++ old ++ rest)
    (hstart : ∀ edit ∈ edits.head?,
      byteSize (lead ++ old) ≤ edit.1.start ∧ edit.1.LiesIn content) (inserted : Text) :
    (content.spliceAll 0 edits).splice ⟨byteSize lead, byteSize (lead ++ old)⟩ inserted =
      content.spliceAll 0 ((⟨byteSize lead, byteSize (lead ++ old)⟩, inserted) :: edits) := by
  have hlead : content.spliceAll 0 edits = lead ++ content.spliceAll (byteSize lead) edits := by
    have hsplit : content = [] ++ lead ++ (old ++ rest) := by simp [hcontent]
    refine spliceAll_eq_append [] hsplit fun edit hmem => ?_
    obtain ⟨hle, hliesIn⟩ := hstart edit hmem
    rw [byteSize_append] at hle
    exact ⟨(Nat.le_add_right _ _).trans hle, hliesIn⟩
  have hold : content.spliceAll 0 edits =
      lead ++ old ++ content.spliceAll (byteSize (lead ++ old)) edits :=
    spliceAll_eq_append [] (by simpa using hcontent) hstart
  have htake : (content.spliceAll 0 edits).takeBytes (byteSize lead) = lead := by
    rw [hlead, takeBytes_append]
  have hdrop : (content.spliceAll 0 edits).dropBytes (byteSize (lead ++ old)) =
      content.spliceAll (byteSize (lead ++ old)) edits := by
    rw [hold, dropBytes_append]
  have hslice : content.slice 0 (byteSize lead) = lead := by
    simpa [hcontent] using slice_append [] lead (old ++ rest)
  simp only [splice, spliceAll, htake, hdrop, hslice]

/-- Of ranges in order none starts earlier than the first. -/
theorem le_start_of_ordered {α : Type} (start stop : α → Nat) {ranges : List α} {position : Nat}
    (hle : ∀ range ∈ ranges, start range ≤ stop range)
    (hordered : ranges.Pairwise fun earlier later => stop earlier ≤ start later)
    (hhead : ∀ range ∈ ranges.head?, position ≤ start range) :
    ∀ range ∈ ranges, position ≤ start range := by
  cases ranges with
  | nil => simp
  | cons first later =>
      have hfirst : position ≤ start first := hhead first rfl
      have hsize := hle first List.mem_cons_self
      intro range hmem
      rcases List.mem_cons.mp hmem with rfl | hlater
      · exact hfirst
      · exact (hfirst.trans hsize).trans (List.rel_of_pairwise_cons hordered hlater)

namespace Correction

/-- A text under correction against the edits made so far, which stand in the order of the
content: the text is their splice, the edits are disjoint pieces of the content, and the first
starts at a margin. -/
structure Settled (content : Text) (progress : Progress) (edits : List (ByteRange × Text)) :
    Prop where
  text : progress.text = content.spliceAll 0 edits
  boundary : progress.boundary = edits.head?.map (·.1.start)
  applied : progress.applied = edits.length
  liesIn : ∀ edit ∈ edits, edit.1.LiesIn content
  ordered : edits.Pairwise fun earlier later => earlier.1.stop ≤ later.1.start
  margin : ∀ edit ∈ edits.head?, ∃ lead rest, content = lead ++ rest ∧
    edit.1.start = byteSize lead ∧ Margin lead

theorem settled_start (content : Text) : Settled content ⟨content, none, 0, []⟩ [] where
  text := by simp [spliceAll]
  boundary := rfl
  applied := rfl
  liesIn := by simp
  ordered := .nil
  margin := by simp

/-- A statement before the boundary is followed by the same text in the content and in the text
changed so far, up to the boundary, and a removal of it reads no further. -/
theorem Settled.exists_between {content lead statement rest : Text} {progress : Progress}
    {edits : List (ByteRange × Text)} (h : Settled content progress edits)
    (hcontent : content = lead ++ statement ++ rest) (hclosed : Expr.Closed statement)
    (hbefore : progress.boundary.all (byteSize (lead ++ statement) ≤ ·) = true) :
    ∃ between, (∀ edit ∈ edits.head?, edit.1.start = byteSize (lead ++ statement ++ between)) ∧
      ∀ t, t = content ∨ t = progress.text → (∃ after, t = lead ++ statement ++ between ++ after) ∧
        removalRange t ⟨byteSize lead, byteSize (lead ++ statement)⟩ =
          removalRange (lead ++ statement ++ between)
            ⟨byteSize lead, byteSize (lead ++ statement)⟩ := by
  cases edits with
  | nil =>
      have htext : progress.text = content := by simpa [spliceAll] using h.text
      refine ⟨rest, by simp, ?_⟩
      rintro t (rfl | rfl)
      · exact ⟨⟨[], by simpa using hcontent⟩, by rw [hcontent]⟩
      · rw [htext]
        exact ⟨⟨[], by simpa using hcontent⟩, by rw [hcontent]⟩
  | cons edit later =>
      obtain ⟨before, after, happend, hstart, hmargin⟩ := h.margin edit rfl
      have hle : byteSize (lead ++ statement) ≤ byteSize before := by
        simpa [h.boundary, hstart] using hbefore
      obtain ⟨between, rfl, -⟩ :=
        exists_append_of_byteSize_le (hcontent.symm.trans happend) hle
      have htext : progress.text = lead ++ statement ++ between ++
          content.spliceAll (byteSize (lead ++ statement ++ between)) (edit :: later) := by
        rw [h.text]
        refine spliceAll_eq_append [] happend fun found hfound => ?_
        obtain rfl := Option.some.inj hfound
        exact ⟨hstart.ge, h.liesIn _ List.mem_cons_self⟩
      have hseparator := separator_mem_of_margin hclosed hmargin
      refine ⟨between, ?_, ?_⟩
      · intro found hfound
        obtain rfl := Option.some.inj hfound
        exact hstart
      · rintro t (rfl | rfl)
        · refine ⟨⟨after, happend⟩, ?_⟩
          rw [happend]
          exact removalRange_append_of_separator lead statement after hseparator
        · refine ⟨⟨_, htext⟩, ?_⟩
          rw [htext]
          exact removalRange_append_of_separator lead statement _ hseparator

/-- What a correction before the boundary changes: a piece of the content that starts at a
margin and ends before the boundary, the same in the content and in the text changed so far. -/
theorem Settled.edit_spec {content : Text} {progress : Progress}
    {edits : List (ByteRange × Text)} (h : Settled content progress edits) {span : Span}
    (hspan : span.CoversStatement content)
    (hbefore : progress.boundary.all (span.stop ≤ ·) = true) (correction : Correction) :
    progress.accepts span = true ∧
      correction.edit progress.text span = correction.edit content span ∧
      ∃ lead old between, Margin lead ∧
        (correction.edit content span).1 = ⟨byteSize lead, byteSize (lead ++ old)⟩ ∧
        (∃ after, content = lead ++ old ++ between ++ after) ∧
        (∀ edit ∈ edits.head?, edit.1.start = byteSize (lead ++ old ++ between)) := by
  obtain ⟨lead, statement, rest, hcontent, hmargin, hclosed, hstart, hstop⟩ := hspan
  rw [hstop] at hbefore
  obtain ⟨between, hboundary, hsame⟩ := h.exists_between hcontent hclosed hbefore
  obtain ⟨⟨after, hafter⟩, hremoval⟩ := hsame content (.inl rfl)
  obtain ⟨⟨done, hdone⟩, hremoval'⟩ := hsame progress.text (.inr rfl)
  refine ⟨?_, ?_, ?_⟩
  · simp only [Progress.accepts, hstart, hstop, hbefore, Bool.true_and, Bool.and_eq_true,
      decide_eq_true_eq]
    rw [hdone]
    simp only [byteSize_append]
    omega
  · cases correction with
    | replace text => rfl
    | remove => simp only [edit_remove, hstart, hstop, hremoval, hremoval']
  · cases correction with
    | replace text =>
        exact ⟨lead, statement, between, hmargin, by simp [hstart, hstop],
          ⟨after, hafter⟩, hboundary⟩
    | remove =>
        obtain ⟨above, old, below, happend, habove, hrange⟩ :=
          exists_removalRange_eq lead statement between hmargin
        refine ⟨above, old, below, habove, ?_, ⟨after, by rw [hafter, happend]⟩, ?_⟩
        · simp only [edit_remove, hstart, hstop, hremoval, hrange]
        · rwa [← happend]

/-- One step makes the edit that its correction asks of the content, or leaves the text alone. -/
theorem Settled.step {content : Text} {progress : Progress} {edits : List (ByteRange × Text)}
    (h : Settled content progress edits) {span : Span} (hspan : span.CoversStatement content)
    (correction : Correction) :
    Settled content (progress.step (span, correction))
      (if progress.boundary.all (span.stop ≤ ·) then correction.edit content span :: edits
        else edits) := by
  split
  next hbefore =>
    obtain ⟨haccepts, hedit, lead, old, between, hmargin, hrange, ⟨after, hcontent⟩, hboundary⟩ :=
      h.edit_spec hspan hbefore correction
    have hhead : ∀ edit ∈ edits.head?, byteSize (lead ++ old) ≤ edit.1.start := by
      intro edit hmem
      rw [hboundary edit hmem, byteSize_append (lead ++ old)]
      exact Nat.le_add_right _ _
    simp only [Progress.step, haccepts, if_true, hedit]
    rcases hasked : correction.edit content span with ⟨range, inserted⟩
    rw [hasked] at hrange
    obtain rfl : range = _ := hrange
    have hsplit : content = lead ++ old ++ (between ++ after) := by simp [hcontent]
    refine ⟨?_, rfl, by simp [h.applied], ?_, ?_, ?_⟩
    · rw [h.text]
      exact splice_spliceAll hsplit
        (fun edit hmem => ⟨hhead edit hmem, h.liesIn edit (List.mem_of_mem_head? hmem)⟩) inserted
    · intro edit hmem
      rcases List.mem_cons.mp hmem with rfl | hlater
      · exact ⟨lead, old, between ++ after, hsplit, rfl, rfl⟩
      · exact h.liesIn edit hlater
    · exact .cons (le_start_of_ordered (·.1.start) (·.1.stop)
        (fun edit hmem => (h.liesIn edit hmem).start_le_stop) h.ordered hhead) h.ordered
    · intro edit hmem
      obtain rfl := Option.some.inj hmem
      exact ⟨lead, old ++ between ++ after, by simp [hcontent], rfl, hmargin⟩
  next hbefore =>
    have hrefused : progress.accepts span = false := by
      simp only [Progress.accepts, hbefore, Bool.false_and]
    simp only [Progress.step, hrefused]
    exact ⟨h.text, h.boundary, h.applied, h.liesIn, h.ordered, h.margin⟩

/-- A run makes the accepted edits. -/
theorem Settled.foldl {content : Text} {corrections : List (Span × Correction)}
    (hspans : ∀ next ∈ corrections, next.1.CoversStatement content) :
    ∀ {progress : Progress} {edits : List (ByteRange × Text)}, Settled content progress edits →
      Settled content (corrections.foldl Progress.step progress)
        ((accepted content progress.boundary corrections).reverse ++ edits) := by
  induction corrections with
  | nil => exact id
  | cons next rest ih =>
      obtain ⟨span, correction⟩ := next
      intro progress edits h
      have hstep := h.step (hspans _ List.mem_cons_self) correction
      have hrun := ih (fun later hlater => hspans later (List.mem_cons_of_mem _ hlater)) hstep
      have hboundary := hstep.boundary
      rw [List.foldl_cons]
      split at hrun
      next hbefore =>
        rw [if_pos hbefore] at hboundary
        rw [hboundary] at hrun
        simpa [accepted, hbefore] using hrun
      next hbefore =>
        rw [if_neg hbefore, ← h.boundary] at hboundary
        rw [hboundary] at hrun
        simpa [accepted, hbefore] using hrun

/-- Every correction of a file is asked for at a statement. -/
theorem coversStatement_of_mem_corrections {rules : RuleSet} {root file content : Text}
    {next : Span × Correction} (h : next ∈ ofOffenses (rules.check root file content)) :
    next.1.CoversStatement content := by
  obtain ⟨rule, -, call, hcall, hcorrection, hspan⟩ := mem_corrections_iff.mp h
  rw [← hspan]
  exact coversStatement_of_mem_inclusionCalls hcall
    (rule.argument_ne_other_of_correction? hcorrection)

theorem settled_run (rules : RuleSet) (root file content : Text) :
    Settled content (run content (rules.check root file content))
      (accepted content none (backwards (ofOffenses (rules.check root file content)))).reverse := by
  have hspans : ∀ next ∈ backwards (ofOffenses (rules.check root file content)),
      next.1.CoversStatement content := fun next hnext =>
    coversStatement_of_mem_corrections ((backwards_perm _).mem_iff.mp hnext)
  have hrun := Settled.foldl hspans (settled_start content)
  rwa [List.append_nil] at hrun

/-- Correcting a file is one splice into its content.  The corrections are taken with the last
first, the edits of the accepted ones are measured on the content itself, and they are disjoint
pieces of it. -/
theorem applyAll_check (rules : RuleSet) (root file content : Text) :
    let corrections := ofOffenses (rules.check root file content)
    let edits := accepted content none (backwards corrections)
    (backwards corrections).Perm corrections ∧
      (backwards corrections).Pairwise (fun earlier later => later.1.start ≤ earlier.1.start) ∧
      (∀ edit ∈ edits, edit.1.LiesIn content) ∧
      edits.Pairwise (fun later earlier => earlier.1.stop ≤ later.1.start) ∧
      applyAll content (rules.check root file content) =
        (content.spliceAll 0 edits.reverse, edits.length) := by
  intro corrections edits
  have hsettled := settled_run rules root file content
  refine ⟨backwards_perm _, backwards_pairwise _, ?_, ?_, ?_⟩
  · intro edit hedit
    exact hsettled.liesIn edit (List.mem_reverse.mpr hedit)
  · exact List.pairwise_reverse.mp hsettled.ordered
  · have happlied := hsettled.applied
    rw [List.length_reverse] at happlied
    exact Prod.ext hsettled.text happlied

end Correction

end RequireLint
