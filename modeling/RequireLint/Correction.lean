import RequireLint.Rule.Offense
import RequireLint.Text.Blank
import RequireLint.Text.Line

/-!
# Applying corrections

Corrections are applied from the last to the first, so that the positions of those to come
stay valid.  A correction that reaches into one already applied is left out.
-/

namespace RequireLint

/-- A range of positions. -/
structure ByteRange where
  start : Nat
  /-- The position after the last. -/
  stop : Nat
deriving Repr, DecidableEq

namespace Text

/-- The text with a range of it replaced. -/
def splice (t : Text) (range : ByteRange) (inserted : Text) : Text :=
  t.takeBytes range.start ++ inserted ++ t.dropBytes range.stop

/-- The part of the line of `position` that lies after it. -/
def lineAfter (t : Text) (position : Nat) : Text :=
  (t.dropBytes position).takeWhile (· ≠ '\n')

/-- The range to delete with the statement at `range`: the whole line with its line feed when
the statement stands alone on it. -/
def removalRange (t : Text) (range : ByteRange) : ByteRange :=
  let before := lineBefore t range.start
  let after := lineAfter t range.stop
  if allBlank before && allBlank after then
    ⟨range.start - byteSize before, min (range.stop + byteSize after + 1) (byteSize t)⟩
  else range

end Text

namespace Correction

/-- The corrections among some offenses, with what they correct. -/
def ofOffenses (offenses : List Offense) : List (Span × Correction) :=
  offenses.filterMap fun offense => offense.correction.map fun c => (offense.span, c)

theorem mem_ofOffenses {offenses : List Offense} {span : Span} {correction : Correction} :
    (span, correction) ∈ ofOffenses offenses ↔
      ∃ offense ∈ offenses, offense.correction = some correction ∧ offense.span = span := by
  simp only [ofOffenses, List.mem_filterMap, Option.map_eq_some_iff, Prod.mk.injEq]
  constructor
  · rintro ⟨offense, hmem, _, hcorrection, hspan, rfl⟩
    exact ⟨offense, hmem, hcorrection, hspan⟩
  · rintro ⟨offense, hmem, hcorrection, hspan⟩
    exact ⟨offense, hmem, correction, hcorrection, hspan, rfl⟩

/-- The corrections by position, the last first. -/
def backwards (corrections : List (Span × Correction)) : List (Span × Correction) :=
  corrections.mergeSort fun a b => decide (b.1.start ≤ a.1.start)

theorem backwards_perm (corrections : List (Span × Correction)) :
    (backwards corrections).Perm corrections :=
  List.mergeSort_perm _ _

-- The laws that sorting asks of the order.
section Order

variable (a b c : Span × Correction)

theorem start_le_trans (hab : decide (b.1.start ≤ a.1.start) = true)
    (hbc : decide (c.1.start ≤ b.1.start) = true) : decide (c.1.start ≤ a.1.start) = true := by
  rw [decide_eq_true_eq] at hab hbc ⊢
  exact Nat.le_trans hbc hab

theorem start_le_total :
    (decide (b.1.start ≤ a.1.start) || decide (a.1.start ≤ b.1.start)) = true := by
  simpa using Nat.le_total b.1.start a.1.start

end Order

theorem backwards_pairwise (corrections : List (Span × Correction)) :
    (backwards corrections).Pairwise fun earlier later => later.1.start ≤ earlier.1.start :=
  (List.pairwise_mergeSort start_le_trans start_le_total corrections).imp of_decide_eq_true

/-- Corrections that start at one position stay in their order. -/
theorem filter_start_backwards (corrections : List (Span × Correction)) (start : Nat) :
    (backwards corrections).filter (fun next => decide (next.1.start = start)) =
      corrections.filter fun next => decide (next.1.start = start) := by
  let atStart (next : Span × Correction) : Bool := decide (next.1.start = start)
  have htied : (corrections.filter atStart).Pairwise
      fun a b => decide (b.1.start ≤ a.1.start) = true := by
    apply List.pairwise_iff_forall_sublist.mpr
    intro a b hab
    have ha := (List.mem_filter.mp (hab.subset (by simp : a ∈ [a, b]))).2
    have hb := (List.mem_filter.mp (hab.subset (by simp : b ∈ [a, b]))).2
    simp only [atStart, decide_eq_true_eq] at ha hb ⊢
    omega
  have hkept : (corrections.filter atStart).Sublist (backwards corrections) :=
    List.sublist_mergeSort start_le_trans start_le_total htied List.filter_sublist
  have hsame : (corrections.filter atStart).Sublist ((backwards corrections).filter atStart) := by
    simpa using hkept.filter atStart
  exact (hsame.eq_of_length ((backwards_perm corrections).filter atStart).length_eq.symm).symm

/-- The range that a correction changes, and the text to put there. -/
def edit (t : Text) (span : Span) : Correction → ByteRange × Text
  | replace text => (⟨span.start, span.stop⟩, text)
  | remove => (Text.removalRange t ⟨span.start, span.stop⟩, [])

@[simp] theorem edit_replace (t text : Text) (span : Span) :
    edit t span (replace text) = (⟨span.start, span.stop⟩, text) := rfl

@[simp] theorem edit_remove (t : Text) (span : Span) :
    edit t span remove = (Text.removalRange t ⟨span.start, span.stop⟩, []) := rfl

/-- A text under correction. -/
structure Progress where
  /-- The text as corrected so far. -/
  text : Text
  /-- Where the range corrected last starts; positions before it are still those of the
  content. -/
  boundary : Option Nat
  applied : Nat
  /-- What the corrections left out would have changed, in the order of leaving out. -/
  skipped : List Span
deriving Repr, DecidableEq

namespace Progress

/-- Whether a correction at `span` lies in the text and before all that has been changed. -/
def accepts (progress : Progress) (span : Span) : Bool :=
  progress.boundary.all (span.stop ≤ ·) && span.stop ≤ Text.byteSize progress.text &&
    span.start ≤ span.stop

/-- Applies one correction, or leaves it out. -/
def step (progress : Progress) (next : Span × Correction) : Progress :=
  if progress.accepts next.1 then
    let (range, inserted) := next.2.edit progress.text next.1
    ⟨progress.text.splice range inserted, some range.start, progress.applied + 1,
      progress.skipped⟩
  else { progress with skipped := progress.skipped ++ [next.1] }

end Progress

/-- What becomes of a content when the corrections of some offenses are applied to it. -/
def run (content : Text) (offenses : List Offense) : Progress :=
  (backwards (ofOffenses offenses)).foldl Progress.step ⟨content, none, 0, []⟩

/-- Applies the corrections of some offenses to a content.  The result is the corrected text
and the number of corrections applied. -/
def applyAll (content : Text) (offenses : List Offense) : Text × Nat :=
  let last := run content offenses
  (last.text, last.applied)

end Correction

end RequireLint
