import RequireLint.Proofs.Correction.Splice
import RequireLint.Proofs.Correction.WrittenLine

/-!
# Correcting a content line by line

Where every call stands alone on its line, a correction changes one line and no other.  The
corrected text is then read like the content, except that a line with a written statement holds
the `require` of its load name, and that removed calls are gone.
-/

namespace RequireLint

open Text

/-! ## Where lines end -/

/-- The rest of a line is what precedes its end, and carriage returns. -/
theorem Ends.takeWhile {ends after : Text} (h : Ends ends after) {trailing : Text}
    (htrailing : '\n' ∉ trailing) :
    ∃ returns, (∀ c ∈ returns, c = '\r') ∧
      (trailing ++ (ends ++ after)).takeWhile (· ≠ '\n') = trailing ++ returns ∧
      min (byteSize returns + 1) (byteSize (ends ++ after)) = byteSize ends := by
  have hkeep : ∀ t : Text, '\n' ∉ t → ∀ c ∈ t, decide (c ≠ '\n') = true := by
    intro t ht c hc
    simpa using ne_of_mem_of_not_mem hc ht
  have hreturn : ∀ returns : Text, (∀ c ∈ returns, c = '\r') → '\n' ∉ returns := by
    intro returns hall hmem
    exact absurd (hall _ hmem) (by decide)
  rw [List.takeWhile_append_of_pos (hkeep trailing htrailing)]
  rcases h with ⟨returns, rfl, hall⟩ | ⟨hall, rfl⟩
  · refine ⟨returns, hall, ?_, ?_⟩
    · rw [List.append_assoc, List.takeWhile_append_of_pos (hkeep returns (hreturn returns hall))]
      simp
    · have hfeed : byteSize ['\n'] = 1 := rfl
      simp only [byteSize_append, hfeed]
      omega
  · refine ⟨ends, hall, ?_, ?_⟩
    · rw [List.append_nil, List.takeWhile_eq_self_iff.mpr (hkeep ends (hreturn ends hall))]
    · rw [List.append_nil]
      omega

theorem allBlank_iff {t : Text} : allBlank t = true ↔ ∀ c ∈ t, isBlank c = true := by
  rw [allBlank, List.all_eq_true]

section RemovedLine

variable (above blanks statement : Text) {ends after : Text}

/-- A statement that shares its line with blanks is removed with the line. -/
theorem removalRange_of_blank (habove : OpensLine above)
    (hblanks : ∀ c ∈ blanks, isInlineBlank c = true) {trailing : Text}
    (htrailing : ∀ c ∈ trailing, isInlineBlank c = true) (hends : Ends ends after) :
    removalRange (above ++ blanks ++ statement ++ (trailing ++ (ends ++ after)))
        ⟨byteSize (above ++ blanks), byteSize (above ++ blanks ++ statement)⟩ =
      ⟨byteSize above, byteSize (above ++ (blanks ++ statement ++ trailing ++ ends))⟩ := by
  obtain ⟨returns, hreturns, hline, hsize⟩ := hends.takeWhile (no_feed_of_blanks htrailing)
  have hbefore : allBlank blanks = true :=
    allBlank_iff.mpr fun c hc => isBlank_of_isInlineBlank (hblanks c hc)
  have hafter : allBlank (trailing ++ returns) = true := by
    rw [allBlank_iff]
    intro c hc
    rcases List.mem_append.mp hc with hc | hc
    · exact isBlank_of_isInlineBlank (htrailing c hc)
    · rw [hreturns c hc]
      decide
  rw [removalRange_append, habove.lastLine_append (no_feed_of_blanks hblanks), hline, hbefore,
    hafter]
  simp only [Bool.and_self, if_true, byteSize_append] at hsize ⊢
  rw [ByteRange.mk.injEq]
  omega

/-- A statement before a comment is removed alone. -/
theorem removalRange_of_comment {spaces comment : Text} (hcomment : '\n' ∉ spaces ++ '#' :: comment)
    (hends : Ends ends after) :
    removalRange (above ++ blanks ++ statement ++ (spaces ++ '#' :: comment ++ (ends ++ after)))
        ⟨byteSize (above ++ blanks), byteSize (above ++ blanks ++ statement)⟩ =
      ⟨byteSize (above ++ blanks), byteSize (above ++ blanks ++ statement)⟩ := by
  obtain ⟨returns, -, hline, -⟩ := hends.takeWhile hcomment
  have hafter : allBlank (spaces ++ '#' :: comment ++ returns) = false := by
    rw [allBlank, List.all_eq_false]
    exact ⟨'#', by simp, by decide⟩
  rw [removalRange_append, hline, hafter, Bool.and_false]
  rfl

end RemovedLine

/-! ## Corrections of a tail of the content -/

namespace Correction

/-- What a call says is clean when no rule corrects it. -/
def Clean (rules : RuleSet) (ctx : Context) (said : Directive × Expr) : Prop :=
  ∀ rule ∈ rules, rule.correction? ctx said.1 said.2 = none

/-- The load names that some edits write are clean. -/
def WritesClean (rules : RuleSet) (ctx : Context) (edits : List (ByteRange × Text)) : Prop :=
  ∀ edit ∈ edits, ∀ name, edit.2 = Reference.requireStatement name →
    Clean rules ctx (.require, .str name)

/-- The load names that some edits write are plain and do not go on over a line. -/
def WritesPlain (edits : List (ByteRange × Text)) : Prop :=
  ∀ edit ∈ edits, ∀ name, edit.2 = Reference.requireStatement name →
    Expr.Plain name ∧ '\n' ∉ name

/-- A correction that a rule has for one of the calls read. -/
def AskedFor (rules : RuleSet) (ctx : Context) (read : List Reading)
    (next : Span × Correction) : Prop :=
  ∃ rule ∈ rules, ∃ reading ∈ read,
    rule.correction? ctx reading.call.kind reading.call.argument = some next.2 ∧
      reading.call.span = next.1

theorem writesClean_append {rules : RuleSet} {ctx : Context}
    {edits edits' : List (ByteRange × Text)} :
    WritesClean rules ctx (edits ++ edits') ↔
      WritesClean rules ctx edits ∧ WritesClean rules ctx edits' :=
  List.forall_mem_append

theorem clean_of_not_askedFor {rules : RuleSet} {ctx : Context} {read : List Reading}
    (h : ∀ next, ¬ AskedFor rules ctx read next) :
    ∀ reading ∈ read, Clean rules ctx reading.said := by
  intro reading hreading rule hrule
  by_contra hsome
  obtain ⟨correction, hcorrection⟩ := Option.ne_none_iff_exists'.mp hsome
  exact h (reading.call.span, correction) ⟨rule, hrule, reading, hreading, hcorrection, rfl⟩

/-- The corrections before a position in the order of the content come last. -/
theorem exists_split_at (position : Nat) {corrections : List (Span × Correction)}
    (hordered : corrections.Pairwise fun earlier later => later.1.start ≤ earlier.1.start) :
    ∃ behind before, corrections = behind ++ before ∧
      (∀ next ∈ behind, position ≤ next.1.start) ∧ ∀ next ∈ before, next.1.start < position := by
  induction corrections with
  | nil => exact ⟨[], [], rfl, by simp, by simp⟩
  | cons first rest ih =>
      obtain ⟨hfirst, hrest⟩ := List.pairwise_cons.mp hordered
      by_cases hposition : position ≤ first.1.start
      · obtain ⟨behind, before, rfl, hbehind, hbefore⟩ := ih hrest
        refine ⟨first :: behind, before, rfl, ?_, hbefore⟩
        exact List.forall_mem_cons.mpr ⟨hposition, hbehind⟩
      · refine ⟨[], first :: rest, rfl, by simp, ?_⟩
        refine List.forall_mem_cons.mpr ⟨by omega, ?_⟩
        intro next hnext
        have hle := hfirst next hnext
        omega

/-- Corrections of two kinds, on either side of a position, stand one kind after the other. -/
theorem exists_split_of_iff (position : Nat) {corrections : List (Span × Correction)}
    {Before Behind : Span × Correction → Prop}
    (hordered : corrections.Pairwise fun earlier later => later.1.start ≤ earlier.1.start)
    (hmem : ∀ next, next ∈ corrections ↔ Before next ∨ Behind next)
    (hbefore : ∀ next, Before next → next.1.start < position)
    (hbehind : ∀ next, Behind next → position ≤ next.1.start) :
    ∃ behind before, corrections = behind ++ before ∧ (∀ next, next ∈ behind ↔ Behind next) ∧
      ∀ next, next ∈ before ↔ Before next := by
  obtain ⟨behind, before, rfl, hge, hlt⟩ := exists_split_at position hordered
  refine ⟨behind, before, rfl, fun next => ⟨?_, ?_⟩, fun next => ⟨?_, ?_⟩⟩
  · intro hnext
    refine ((hmem next).mp (List.mem_append_left _ hnext)).resolve_left fun hcontra => ?_
    exact absurd (hge next hnext) (Nat.not_le.mpr (hbefore next hcontra))
  · intro hnext
    refine (List.mem_append.mp ((hmem next).mpr (.inr hnext))).resolve_right fun hcontra => ?_
    exact absurd (hbehind next hnext) (Nat.not_le.mpr (hlt next hcontra))
  · intro hnext
    refine ((hmem next).mp (List.mem_append_right _ hnext)).resolve_right fun hcontra => ?_
    exact absurd (hbehind next hcontra) (Nat.not_le.mpr (hlt next hnext))
  · intro hnext
    refine (List.mem_append.mp ((hmem next).mpr (.inl hnext))).resolve_left fun hcontra => ?_
    exact absurd (hge next hcontra) (Nat.not_le.mpr (hbefore next hnext))

/-- What is accepted first bounds what can be accepted later. -/
theorem exists_accepted_append (content : Text) (boundary : Option Nat)
    (first later : List (Span × Correction)) :
    ∃ boundary', accepted content boundary (first ++ later) =
        accepted content boundary first ++ accepted content boundary' later ∧
      (boundary' = boundary ∨
        ∃ edit ∈ accepted content boundary first, boundary' = some edit.1.start) := by
  induction first generalizing boundary with
  | nil => exact ⟨boundary, rfl, .inl rfl⟩
  | cons next first ih =>
      obtain ⟨span, correction⟩ := next
      by_cases hbefore : boundary.all (span.stop ≤ ·) = true
      · obtain ⟨boundary', happend, hboundary⟩ := ih (some (correction.edit content span).1.start)
        refine ⟨boundary', ?_, .inr ?_⟩
        · simp only [List.cons_append, accepted, hbefore, if_true, happend]
        · simp only [accepted, hbefore, if_true]
          rcases hboundary with rfl | ⟨edit, hedit, rfl⟩
          · exact ⟨_, List.mem_cons_self, rfl⟩
          · exact ⟨edit, List.mem_cons_of_mem _ hedit, rfl⟩
      · obtain ⟨boundary', happend, hboundary⟩ := ih boundary
        refine ⟨boundary', ?_, ?_⟩
        · simp only [List.cons_append, accepted, hbefore, if_false, Bool.false_eq_true, happend]
        · simpa only [accepted, hbefore, if_false, Bool.false_eq_true] using hboundary

/-- Corrections that all end behind the boundary are left out. -/
theorem accepted_eq_nil {content : Text} {boundary : Nat} {corrections : List (Span × Correction)}
    (h : ∀ next ∈ corrections, boundary < next.1.stop) :
    accepted content (some boundary) corrections = [] := by
  induction corrections with
  | nil => rfl
  | cons next rest ih =>
      obtain ⟨span, correction⟩ := next
      have hstop : boundary < span.stop := h _ List.mem_cons_self
      have hrefused : (some boundary).all (span.stop ≤ ·) = false := by simpa using hstop
      rw [accepted, hrefused]
      exact ih fun later hlater => h later (List.mem_cons_of_mem _ hlater)

theorem start_edit_le (content : Text) (span : Span) (correction : Correction) :
    (correction.edit content span).1.start ≤ span.start := by
  cases correction with
  | replace text => exact le_rfl
  | remove =>
      simp only [edit_remove, removalRange]
      split
      · exact Nat.sub_le _ _
      · exact le_rfl

/-- Of several corrections of one statement the first is accepted. -/
theorem accepted_concat {content : Text} {later rest : List (Span × Correction)} {span : Span}
    (correction : Correction) (hrest : ∀ next ∈ rest, next.1 = span)
    (hpositive : span.start < span.stop)
    (hlater : ∀ edit ∈ accepted content none later, span.stop ≤ edit.1.start) :
    accepted content none (later ++ (span, correction) :: rest) =
      accepted content none later ++ [correction.edit content span] := by
  obtain ⟨boundary, happend, hboundary⟩ :=
    exists_accepted_append content none later ((span, correction) :: rest)
  have hbefore : boundary.all (span.stop ≤ ·) = true := by
    rcases hboundary with rfl | ⟨edit, hedit, rfl⟩
    · rfl
    · simpa using hlater edit hedit
  have hnil : accepted content (some (correction.edit content span).1.start) rest = [] := by
    refine accepted_eq_nil ?_
    intro next hnext
    rw [hrest next hnext]
    exact (start_edit_le content span correction).trans_lt hpositive
  rw [happend]
  simp only [accepted, hbefore, if_true, hnil]

theorem liesIn_of_mem_accepted {content : Text} {corrections : List (Span × Correction)}
    (hspans : ∀ next ∈ corrections, next.1.CoversStatement content) :
    ∀ edit ∈ accepted content none corrections, edit.1.LiesIn content := by
  intro edit hedit
  have hsettled := Settled.foldl hspans (settled_start content)
  rw [List.append_nil] at hsettled
  exact hsettled.liesIn edit (List.mem_reverse.mpr hedit)

/-- The content from a line on, and the corrections that its calls have. -/
structure Tail (rules : RuleSet) (ctx : Context) (content : Text) (comment : Bool) (number : Nat)
    (above t : Text) (corrections : List (Span × Correction)) : Prop where
  split : content = above ++ t
  opensLine : t ≠ [] → OpensLine above
  tidy : TidyFrom comment number (byteSize above) t
  ordered : corrections.Pairwise fun earlier later => later.1.start ≤ earlier.1.start
  askedFor : ∀ next, next ∈ corrections ↔
    AskedFor rules ctx (readingsFrom comment number (byteSize above) t) next
  covers : ∀ next ∈ corrections, next.1.CoversStatement content
  plain : WritesPlain (accepted content none corrections)

theorem askedFor_append {rules : RuleSet} {ctx : Context} {read read' : List Reading}
    {next : Span × Correction} :
    AskedFor rules ctx (read ++ read') next ↔
      AskedFor rules ctx read next ∨ AskedFor rules ctx read' next := by
  simp only [AskedFor, List.mem_append, or_and_right, exists_or, and_or_left]

theorem askedFor_ite {rules : RuleSet} {ctx : Context} {read : List Reading} {p : Prop}
    [Decidable p] {next : Span × Correction} :
    AskedFor rules ctx (if p then read else []) next ↔ p ∧ AskedFor rules ctx read next := by
  split
  next hp => simp [hp]
  next hp => simp [hp, AskedFor]

section Step

variable {rules : RuleSet} {ctx : Context} {content : Text} {comment : Bool} {number : Nat}
  {above body ends after : Text} {corrections : List (Span × Correction)}

/-- The corrections of a tail are those of the lines below its first, and those of the first. -/
theorem Tail.step
    (h : Tail rules ctx content comment number above (body ++ ends ++ after) corrections)
    (hbody : IsBody body) (hends : Ends ends after) (hne : body ++ ends ≠ []) :
    ∃ later line, corrections = later ++ line ∧
      (∀ next, next ∈ line ↔ isCode comment body = true ∧
        AskedFor rules ctx (lineReadings number ⟨byteSize above, body ++ ends, after⟩) next) ∧
      (nextComment? comment body = none → later = []) ∧
      ∀ comment', nextComment? comment body = some comment' →
        Tail rules ctx content comment' (number + 1) (above ++ (body ++ ends)) after later := by
  obtain ⟨hsplit, hopens, htidy, hordered, hasked, hcovers, hplain⟩ := h
  obtain ⟨hline, hbelow⟩ := tidyFrom_line hbody hends hne htidy
  rw [readingsFrom_line hbody hends hne] at hasked
  have hposition : byteSize above + byteSize (body ++ ends) =
      byteSize (above ++ (body ++ ends)) := (byteSize_append _ _).symm
  rw [hposition] at hasked hbelow
  simp only [askedFor_append, askedFor_ite] at hasked
  have hbefore : ∀ next, isCode comment body = true ∧
      AskedFor rules ctx (lineReadings number ⟨byteSize above, body ++ ends, after⟩) next →
      next.1.start < byteSize (above ++ (body ++ ends)) := by
    rintro next ⟨hcode, hnext⟩
    have hlt := (hcovers next ((hasked next).mpr (.inl ⟨hcode, hnext⟩))).start_lt_stop
    obtain ⟨rule, -, reading, hreading, -, hspan⟩ := hnext
    have hstop := (hline hcode reading hreading).stop_le hbody hends
    rw [hposition, hspan] at hstop
    omega
  have hbehind : ∀ next, AskedFor rules ctx ((nextComment? comment body).elim [] fun later =>
      readingsFrom later (number + 1) (byteSize (above ++ (body ++ ends))) after) next →
      byteSize (above ++ (body ++ ends)) ≤ next.1.start := by
    rintro next ⟨rule, -, reading, hreading, -, hspan⟩
    cases hnext : nextComment? comment body with
    | none =>
        rw [hnext] at hreading
        simp at hreading
    | some comment' =>
        rw [hnext] at hreading
        rw [← hspan]
        exact le_start_of_mem_readingsFrom hreading
  obtain ⟨later, line, rfl, hlater, hfirst⟩ :=
    exists_split_of_iff (byteSize (above ++ (body ++ ends))) hordered hasked hbefore hbehind
  refine ⟨later, line, rfl, hfirst, ?_, ?_⟩
  · intro hnone
    rw [List.eq_nil_iff_forall_not_mem]
    intro next hnext
    obtain ⟨rule, -, reading, hreading, -⟩ := (hlater next).mp hnext
    rw [hnone] at hreading
    simp at hreading
  · intro comment' hsome
    rw [hsome] at hlater
    refine ⟨?_, ?_, hbelow comment' hsome, (List.pairwise_append.mp hordered).1, hlater, ?_, ?_⟩
    · rw [hsplit]
      simp
    · intro hafter
      rw [← List.append_assoc]
      exact hends.opensLine hafter _
    · intro next hnext
      exact hcovers next (List.mem_append_left line hnext)
    · intro edit hedit
      obtain ⟨boundary', happend, -⟩ := exists_accepted_append content none later line
      refine hplain edit ?_
      rw [happend]
      exact List.mem_append_left _ hedit

end Step

/-- What becomes of a tail under the accepted edits: they all lie in it, they leave nothing where
there was nothing, and what is read from the outcome is clean exactly when the load names that
they write are. -/
structure Outcome (rules : RuleSet) (ctx : Context) (content : Text) (comment : Bool)
    (above t : Text) (edits : List (ByteRange × Text)) : Prop where
  start : ∀ edit ∈ edits, byteSize above ≤ edit.1.start
  nil : t = [] → content.spliceAll (byteSize above) edits.reverse = []
  clean : ∀ number start,
    (∀ reading ∈ readingsFrom comment number start
        (content.spliceAll (byteSize above) edits.reverse), Clean rules ctx reading.said) ↔
      WritesClean rules ctx edits

section Outcome

variable {rules : RuleSet} {ctx : Context} {content : Text} {comment comment' : Bool}
  {above body ends after : Text} {edits : List (ByteRange × Text)}

theorem Outcome.le_start {piece : Text}
    (h : Outcome rules ctx content comment (above ++ piece) after edits) :
    ∀ edit ∈ edits, byteSize above ≤ edit.1.start := by
  intro edit hedit
  have hle := h.start edit hedit
  rw [byteSize_append] at hle
  omega

theorem Outcome.le_start_concat {piece : Text} {first : ByteRange × Text}
    (h : Outcome rules ctx content comment (above ++ piece) after edits)
    (hfirst : byteSize above ≤ first.1.start) :
    ∀ edit ∈ edits ++ [first], byteSize above ≤ edit.1.start := by
  intro edit hedit
  rcases List.mem_append.mp hedit with hedit | hedit
  · exact h.le_start edit hedit
  · obtain rfl := List.mem_singleton.mp hedit
    exact hfirst

/-- The edits below a piece of the content keep it. -/
theorem Outcome.spliceAll_eq_append (lead piece : Text)
    (h : Outcome rules ctx content comment (above ++ (lead ++ piece)) after edits)
    (hcontent : content = above ++ (lead ++ piece) ++ after)
    (hlies : ∀ edit ∈ edits, edit.1.LiesIn content) :
    content.spliceAll (byteSize (above ++ lead)) edits.reverse =
      piece ++ content.spliceAll (byteSize (above ++ (lead ++ piece))) edits.reverse := by
  have hwhole : above ++ (lead ++ piece) = above ++ lead ++ piece := by simp
  rw [hwhole] at hcontent ⊢
  refine RequireLint.spliceAll_eq_append _ hcontent ?_
  intro edit hedit
  have hmem := List.mem_reverse.mp (List.mem_of_mem_head? hedit)
  rw [← hwhole]
  exact ⟨h.start edit hmem, hlies edit hmem⟩

/-- A line without corrections stays as it is. -/
theorem Outcome.keep (h : Outcome rules ctx content comment' (above ++ (body ++ ends)) after edits)
    (hcontent : content = above ++ (body ++ ends) ++ after)
    (hlies : ∀ edit ∈ edits, edit.1.LiesIn content) (hbody : IsBody body)
    (hends : Ends ends after) (hne : body ++ ends ≠ [])
    (hnext : nextComment? comment body = some comment') {number : Nat}
    (hline : isCode comment body = true →
      ∀ reading ∈ lineReadings number ⟨byteSize above, body ++ ends, after⟩,
        reading.StandsAlone ⟨byteSize above, body ++ ends, after⟩)
    (hclean : isCode comment body = true →
      ∀ reading ∈ lineReadings number ⟨byteSize above, body ++ ends, after⟩,
        Clean rules ctx reading.said) :
    Outcome rules ctx content comment above (body ++ ends ++ after) edits := by
  have hsplice := Outcome.spliceAll_eq_append [] (body ++ ends) h hcontent hlies
  rw [List.append_nil, List.nil_append] at hsplice
  have hends' := hends.congr h.nil
  refine ⟨h.le_start, ?_, ?_⟩
  · intro hnil
    exact absurd (List.append_eq_nil_iff.mp hnil).1 hne
  · intro number' start'
    rw [hsplice, readingsFrom_line hbody hends' hne, hnext, List.forall_mem_append,
      Option.elim_some, h.clean]
    refine and_iff_right ?_
    intro reading hreading
    split at hreading
    next hcode =>
      have hsaid : reading.said ∈
          (lineReadings number ⟨byteSize above, body ++ ends, after⟩).map Reading.said := by
        rw [← said_lineReadings hbody hends hends' (hline hcode) number' start']
        exact List.mem_map_of_mem hreading
      obtain ⟨original, horiginal, heq⟩ := List.mem_map.mp hsaid
      rw [← heq]
      exact hclean hcode original horiginal
    · simp at hreading

/-- The outcome of a line with an edit in it, and of what follows the line. -/
theorem Outcome.spliceAll_concat (inserted : Text) {lead old rest : Text}
    (h : Outcome rules ctx content comment (above ++ (lead ++ old ++ rest)) after edits)
    (hcontent : content = above ++ (lead ++ old ++ rest) ++ after)
    (hlies : ∀ edit ∈ edits, edit.1.LiesIn content) :
    content.spliceAll (byteSize above)
        (edits ++ [(ByteRange.mk (byteSize (above ++ lead)) (byteSize (above ++ lead ++ old)),
          inserted)]).reverse =
      lead ++ inserted ++ rest ++
        content.spliceAll (byteSize (above ++ (lead ++ old ++ rest))) edits.reverse := by
  have hbelow := Outcome.spliceAll_eq_append (lead ++ old) rest h hcontent hlies
  have hkept : content.slice (byteSize above) (byteSize (above ++ lead)) = lead := by
    have hsplit : content = above ++ lead ++ (old ++ rest ++ after) := by simp [hcontent]
    rw [hsplit, slice_append]
  rw [← List.append_assoc above] at hbelow
  rw [List.reverse_append, List.reverse_singleton, List.singleton_append]
  simp only [spliceAll, hkept, hbelow]
  simp only [List.append_assoc]

theorem WritesClean.of_removal {range : ByteRange} :
    WritesClean rules ctx (edits ++ [(range, [])]) ↔ WritesClean rules ctx edits := by
  rw [writesClean_append]
  refine and_iff_left ?_
  intro edit hedit name hname
  obtain rfl := List.mem_singleton.mp hedit
  have hne : Reference.requireStatement name ≠ [] :=
    List.append_ne_nil_of_right_ne_nil _ (by decide)
  exact absurd hname.symm hne

theorem WritesClean.of_replacement {range : ByteRange} {name : Text} :
    WritesClean rules ctx (edits ++ [(range, Reference.requireStatement name)]) ↔
      WritesClean rules ctx edits ∧ Clean rules ctx (.require, .str name) := by
  rw [writesClean_append]
  refine and_congr_right' ?_
  constructor
  · intro h
    exact h _ (List.mem_singleton_self _) name rfl
  · intro h edit hedit name' hname
    obtain rfl := List.mem_singleton.mp hedit
    obtain rfl : name = name' := List.append_cancel_left (List.append_cancel_right hname)
    exact h

section Line

variable {blanks statement trailing : Text}

/-- A line with a written statement is clean when the load name is. -/
theorem Outcome.replace {name : Text}
    (h : Outcome rules ctx content false
      (above ++ (blanks ++ statement ++ (trailing ++ ends))) after edits)
    (hcontent : content = above ++ (blanks ++ statement ++ (trailing ++ ends)) ++ after)
    (hlies : ∀ edit ∈ edits, edit.1.LiesIn content)
    (hblanks : ∀ c ∈ blanks, isInlineBlank c = true) (htrailing : Trailing trailing)
    (hbody : IsBody (blanks ++ statement ++ trailing)) (hends : Ends ends after)
    (hstatement : statement ≠ []) (hname : Expr.Plain name) (hfeed : '\n' ∉ name) :
    Outcome rules ctx content false above (blanks ++ statement ++ (trailing ++ ends) ++ after)
      (edits ++ [(⟨byteSize (above ++ blanks), byteSize (above ++ blanks ++ statement)⟩,
        Reference.requireStatement name)]) := by
  have hsplice := h.spliceAll_concat (Reference.requireStatement name) hcontent hlies
  refine ⟨h.le_start_concat (by simp), ?_, ?_⟩
  · intro hnil
    exact absurd hnil (by simp [hstatement])
  · intro number start
    obtain ⟨later, hsaid⟩ := said_readingsFrom_written hblanks hname hfeed htrailing hbody
      (hends.congr h.nil) number start
    rw [hsplice, WritesClean.of_replacement, ← h.clean (number + 1) later,
      ← List.forall_mem_map, ← List.append_assoc, hsaid, List.forall_mem_cons, List.forall_mem_map,
      and_comm]

/-- Nothing is left of a line that is removed. -/
theorem Outcome.removeLine
    (h : Outcome rules ctx content comment (above ++ (body ++ ends)) after edits)
    (hcontent : content = above ++ (body ++ ends) ++ after)
    (hne : body ++ ends ≠ []) :
    Outcome rules ctx content comment above (body ++ ends ++ after)
      (edits ++ [(ByteRange.mk (byteSize above) (byteSize (above ++ (body ++ ends))), [])]) := by
  have hsplice : content.spliceAll (byteSize above)
      (edits ++
        [(ByteRange.mk (byteSize above) (byteSize (above ++ (body ++ ends))), [])]).reverse =
        content.spliceAll (byteSize (above ++ (body ++ ends))) edits.reverse := by
    have hslice := slice_append above [] (body ++ ends ++ after)
    rw [List.append_nil, ← List.append_assoc, ← hcontent] at hslice
    rw [List.reverse_append, List.reverse_singleton, List.singleton_append]
    simp only [spliceAll, hslice, List.nil_append]
  refine ⟨h.le_start_concat le_rfl, ?_, ?_⟩
  · intro hnil
    exact absurd (List.append_eq_nil_iff.mp hnil).1 hne
  · intro number start
    rw [hsplice, h.clean, WritesClean.of_removal]

/-- A comment is left of the line of a statement that is removed. -/
theorem Outcome.removeStatement {spaces text : Text}
    (h : Outcome rules ctx content false
      (above ++ (blanks ++ statement ++ (spaces ++ '#' :: text ++ ends))) after edits)
    (hcontent :
      content = above ++ (blanks ++ statement ++ (spaces ++ '#' :: text ++ ends)) ++ after)
    (hlies : ∀ edit ∈ edits, edit.1.LiesIn content)
    (hblanks : ∀ c ∈ blanks, isInlineBlank c = true)
    (hspaces : ∀ c ∈ spaces, isInlineBlank c = true)
    (hbody : IsBody (blanks ++ statement ++ (spaces ++ '#' :: text))) (hends : Ends ends after) :
    Outcome rules ctx content false above
      (blanks ++ statement ++ (spaces ++ '#' :: text ++ ends) ++ after)
      (edits ++ [(⟨byteSize (above ++ blanks), byteSize (above ++ blanks ++ statement)⟩, [])]) := by
  have hsplice := h.spliceAll_concat [] hcontent hlies
  refine ⟨h.le_start_concat (by simp), ?_, ?_⟩
  · intro hnil
    exact absurd hnil (by simp)
  · intro number start
    obtain ⟨later, hread⟩ := readingsFrom_comment hblanks hspaces hbody (hends.congr h.nil)
      number start
    rw [hsplice, List.append_nil, ← List.append_assoc, hread, h.clean, WritesClean.of_removal]

end Line

end Outcome

section Corrected

variable {rules : RuleSet} {ctx : Context} {content : Text} {above body ends after : Text}
  {edits : List (ByteRange × Text)}

/-- The correction of a call that stands alone makes one edit, which leaves the outcome of a
line. -/
theorem Outcome.correct {reading : Reading} {correction : Correction}
    (h : Outcome rules ctx content false (above ++ (body ++ ends)) after edits)
    (hcontent : content = above ++ (body ++ ends) ++ after) (habove : OpensLine above)
    (hlies : ∀ edit ∈ edits, edit.1.LiesIn content) (hbody : IsBody body)
    (hends : Ends ends after)
    (halone : reading.StandsAlone ⟨byteSize above, body ++ ends, after⟩)
    (hcovers : reading.call.span.CoversStatement content)
    (hreplace : ∀ text, correction = .replace text →
      ∃ name, text = Reference.requireStatement name ∧ Expr.Plain name ∧ '\n' ∉ name) :
    Outcome rules ctx content false above (body ++ ends ++ after)
      (edits ++ [correction.edit content reading.call.span]) := by
  obtain ⟨-, blanks, statement, trailing, hsplit, hblanks, htrailing, hstart, hstop⟩ := halone
  have hpositive := hcovers.start_lt_stop
  rw [body_append_ends hbody hends] at hsplit
  subst hsplit
  rw [← byteSize_append] at hstart hstop
  rw [← List.append_assoc above] at hstop
  have hwhole : blanks ++ statement ++ trailing ++ ends =
      blanks ++ statement ++ (trailing ++ ends) := List.append_assoc _ _ _
  have hstatement : statement ≠ [] := by
    rintro rfl
    rw [hstart, hstop, List.append_nil] at hpositive
    exact absurd hpositive (lt_irrefl _)
  cases correction with
  | replace text =>
      obtain ⟨name, rfl, hname, hfeed⟩ := hreplace text rfl
      rw [hwhole] at h hcontent ⊢
      simp only [edit_replace, hstart, hstop]
      exact h.replace hcontent hlies hblanks htrailing hbody hends hstatement hname hfeed
  | remove =>
      have hrest : content = above ++ blanks ++ statement ++ (trailing ++ (ends ++ after)) := by
        simp [hcontent]
      rcases htrailing.cases with hspaces | ⟨spaces, comment, rfl, hspaces⟩
      · have hrange := removalRange_of_blank above blanks statement habove hblanks hspaces hends
        rw [← hrest, ← hstart, ← hstop] at hrange
        have hedit : edit content reading.call.span .remove =
            (ByteRange.mk (byteSize above)
              (byteSize (above ++ (blanks ++ statement ++ trailing ++ ends))), []) := by
          simp only [edit_remove, hrange]
        rw [hedit]
        exact h.removeLine hcontent (by simp [hstatement])
      · have hcomment : '\n' ∉ spaces ++ '#' :: comment := fun hmem =>
          hbody.1 (List.mem_append_right _ hmem)
        have hrange := removalRange_of_comment above blanks statement hcomment hends
        rw [← hrest, ← hstart, ← hstop] at hrange
        have hedit : edit content reading.call.span .remove =
            (ByteRange.mk (byteSize (above ++ blanks)) (byteSize (above ++ blanks ++ statement)),
              []) := by
          simp only [edit_remove, hrange]
          rw [hstart, hstop]
        rw [hwhole] at h hcontent ⊢
        rw [hedit]
        exact h.removeStatement hcontent hlies hblanks hspaces hbody hends

/-- Calls that stand alone on one line are one call. -/
theorem eq_of_mem_lineReadings {number : Nat} {line : Line}
    (h : ∀ reading ∈ lineReadings number line, reading.StandsAlone line) {first second : Reading}
    (hfirst : first ∈ lineReadings number line) (hsecond : second ∈ lineReadings number line) :
    first = second := by
  rw [lineReadings_eq_toList (lineReadings_of_standsAlone h), Option.mem_toList] at hfirst hsecond
  exact Option.mem_unique hfirst hsecond

/-- Nothing is read in a tail without code. -/
theorem Tail.outcome_of_nil {comment : Bool} {number : Nat} {t : Text}
    (h : Tail rules ctx content comment number above t [])
    (hread : ∀ number start, readingsFrom comment number start t = []) :
    Outcome rules ctx content comment above t [] := by
  have hkept : content.spliceAll (byteSize above) [] = t := by
    rw [h.split, spliceAll, dropBytes_append]
  refine ⟨by simp, ?_, ?_⟩
  · intro hnil
    rw [List.reverse_nil, hkept, hnil]
  · intro number' start'
    rw [List.reverse_nil, hkept, hread]
    simp [WritesClean]

/-- The outcome of the lines below a line gives that of the line and those below. -/
theorem Tail.outcome_of_below {comment comment' : Bool} {number : Nat}
    {later line : List (Span × Correction)}
    (h : Tail rules ctx content comment number above (body ++ ends ++ after) (later ++ line))
    (hbody : IsBody body) (hends : Ends ends after) (hne : body ++ ends ≠ [])
    (hline : ∀ next, next ∈ line ↔ isCode comment body = true ∧
      AskedFor rules ctx (lineReadings number ⟨byteSize above, body ++ ends, after⟩) next)
    (hnext : nextComment? comment body = some comment')
    (hbelow : Outcome rules ctx content comment' (above ++ (body ++ ends)) after
      (accepted content none later)) :
    Outcome rules ctx content comment above (body ++ ends ++ after)
      (accepted content none (later ++ line)) := by
  have hcontent : content = above ++ (body ++ ends) ++ after := by
    rw [h.split, List.append_assoc above]
  have hlies : ∀ edit ∈ accepted content none later, edit.1.LiesIn content :=
    liesIn_of_mem_accepted fun next hmem => h.covers next (List.mem_append_left _ hmem)
  have halone := (tidyFrom_line hbody hends hne h.tidy).1
  cases line with
  | nil =>
      rw [List.append_nil]
      refine hbelow.keep hcontent hlies hbody hends hne hnext halone ?_
      intro hcode
      refine clean_of_not_askedFor ?_
      intro next hasked
      exact absurd ((hline next).mpr ⟨hcode, hasked⟩) List.not_mem_nil
  | cons first rest =>
      obtain ⟨span, correction⟩ := first
      obtain ⟨hcode, rule, hrule, reading, hreading, hcorrection, hspan⟩ :=
        (hline _).mp List.mem_cons_self
      obtain rfl : reading.call.span = span := hspan
      obtain ⟨rfl, hfalse⟩ := nextComment?_of_isCode hcode
      obtain rfl : false = comment' := Option.some.inj (hfalse.symm.trans hnext)
      have hcovers := h.covers _ (List.mem_append_right later List.mem_cons_self)
      have hrest : ∀ next ∈ rest, next.1 = reading.call.span := by
        intro next hmem
        obtain ⟨-, rule', -, reading', hreading', -, hspan'⟩ :=
          (hline next).mp (List.mem_cons_of_mem _ hmem)
        rw [← hspan', eq_of_mem_lineReadings (halone hcode) hreading' hreading]
      have hlater : ∀ edit ∈ accepted content none later,
          reading.call.span.stop ≤ edit.1.start := by
        intro edit hmem
        have hstop := (halone hcode reading hreading).stop_le hbody hends
        rw [← byteSize_append] at hstop
        exact hstop.trans (hbelow.start edit hmem)
      have hplain := h.plain
      rw [accepted_concat correction hrest hcovers.start_lt_stop hlater] at hplain ⊢
      have hopens : OpensLine above := by
        refine h.opensLine fun hnil => ?_
        exact hne (List.append_eq_nil_iff.mp hnil).1
      refine hbelow.correct hcontent hopens hlies hbody hends (halone hcode reading hreading)
        hcovers ?_
      rintro text rfl
      obtain ⟨name, rfl⟩ := rule.exists_loadName_of_replace hcorrection
      exact ⟨name, rfl, hplain _ (List.mem_append_right _ List.mem_cons_self) name rfl⟩

/-- What becomes of a tail, by induction on its lines. -/
theorem Tail.outcome {comment : Bool} {number : Nat} {t : Text}
    {corrections : List (Span × Correction)}
    (h : Tail rules ctx content comment number above t corrections) :
    Outcome rules ctx content comment above t (accepted content none corrections) := by
  induction t using lineInduction generalizing comment number above corrections with
  | nil =>
      obtain rfl : corrections = [] := by
        rw [List.eq_nil_iff_forall_not_mem]
        intro next hnext
        obtain ⟨rule, -, reading, hreading, -⟩ := (h.askedFor next).mp hnext
        simp at hreading
      exact h.outcome_of_nil (readingsFrom_nil comment)
  | line body ends after hbody hends hne ih =>
      obtain ⟨later, line, rfl, hline, hlast, hbelow⟩ := h.step hbody hends hne
      cases hnext : nextComment? comment body with
      | none =>
          -- The end marker is no code and nothing below it is read, so the tail stays as it is.
          obtain rfl := hlast hnext
          have hcode : isCode comment body = false := by
            by_contra hcode
            rw [Bool.not_eq_false] at hcode
            rw [(nextComment?_of_isCode hcode).2] at hnext
            simp at hnext
          obtain rfl : line = [] := by
            rw [List.eq_nil_iff_forall_not_mem]
            intro next hmem
            rw [hline next, hcode] at hmem
            simp at hmem
          refine h.outcome_of_nil ?_
          intro number' start'
          rw [readingsFrom_line hbody hends hne, hnext, hcode]
          rfl
      | some comment' =>
          exact h.outcome_of_below hbody hends hne hline hnext (ih (hbelow comment' hnext))

end Corrected

end Correction

end RequireLint
