import Mathlib.Data.List.Pairwise
import Mathlib.Data.List.Perm.Subperm
import RequireLint.Proofs.Correction.Splice

/-!
# Replacements of any pieces of a content

The corrections of a file stand at statements, which do not overlap.  Corrections that only replace
are applied faithfully wherever they stand: they may overlap, start together or reach beyond the
content, and they may come in any order.

Whether a correction is accepted is decided on the text changed so far, whose size says little
about the content.  The boundary decides in its place: all that has been changed lies behind the
boundary, so what ends before it lies in the text and in the content alike.
-/

namespace RequireLint

open Text

/-- Two spans have a position in common. -/
def Span.Overlaps (a b : Span) : Prop := a.start < b.stop ∧ b.start < a.stop

theorem Span.Overlaps.symm {a b : Span} (h : a.Overlaps b) : b.Overlaps a := ⟨h.2, h.1⟩

namespace Correction

/-- The corrections that a run applies, in the order in which it does. -/
def appliedBy : Progress → List (Span × Correction) → List (Span × Correction)
  | _, [] => []
  | progress, next :: rest =>
    if progress.accepts next.1 then next :: appliedBy (progress.step next) rest
    else appliedBy (progress.step next) rest

/-- The corrections of some offenses that are applied to a content. -/
def appliedTo (content : Text) (offenses : List Offense) : List (Span × Correction) :=
  appliedBy ⟨content, none, 0, []⟩ (backwards (ofOffenses offenses))

/-- A correction that replaces something.  If it does not reach beyond the content, then it
replaces characters of the content. -/
structure Replaces (content : Text) (next : Span × Correction) : Prop where
  start_lt_stop : next.1.start < next.1.stop
  exists_text : ∃ text, next.2 = .replace text
  isBoundary : next.1.stop ≤ byteSize content →
    IsBoundary content next.1.start ∧ IsBoundary content next.1.stop

namespace Replaces

variable {content : Text} {next : Span × Correction}

/-- A replacement changes its span and nothing else. -/
theorem edit_range (h : Replaces content next) :
    (next.2.edit content next.1).1 = ⟨next.1.start, next.1.stop⟩ := by
  obtain ⟨text, htext⟩ := h.exists_text
  rw [htext, edit_replace]

/-- What a replacement changes does not depend on the text that it is made in. -/
theorem edit_eq (h : Replaces content next) (t : Text) :
    next.2.edit t next.1 = next.2.edit content next.1 := by
  obtain ⟨text, htext⟩ := h.exists_text
  rw [htext, edit_replace, edit_replace]

theorem exists_append (h : Replaces content next) (hinside : next.1.stop ≤ byteSize content) :
    ∃ lead old rest, content = lead ++ old ++ rest ∧ next.1.start = byteSize lead ∧
      next.1.stop = byteSize (lead ++ old) := by
  obtain ⟨⟨lead, after, hlead, hstart⟩, whole, rest, hwhole, hstop⟩ := h.isBoundary hinside
  have hle : byteSize lead ≤ byteSize whole := by
    have hlt := h.start_lt_stop
    omega
  obtain ⟨old, rfl, -⟩ := exists_append_of_byteSize_le (hlead.symm.trans hwhole) hle
  exact ⟨lead, old, rest, hwhole, hstart, hstop⟩

theorem liesIn (h : Replaces content next) (hinside : next.1.stop ≤ byteSize content) :
    (next.2.edit content next.1).1.LiesIn content := by
  rw [h.edit_range]
  exact h.exists_append hinside

end Replaces

/-! ## What a run applies -/

theorem appliedBy_sublist (progress : Progress) (nexts : List (Span × Correction)) :
    (appliedBy progress nexts).Sublist nexts := by
  induction nexts generalizing progress with
  | nil => exact .slnil
  | cons next rest ih =>
      rw [appliedBy]
      split
      · exact (ih _).cons_cons next
      · exact (ih _).cons next

/-- Every correction is applied or left out. -/
theorem appliedBy_append_skipped (progress : Progress) (nexts : List (Span × Correction)) :
    ((appliedBy progress nexts).map (·.1) ++ (nexts.foldl Progress.step progress).skipped).Perm
      (nexts.map (·.1) ++ progress.skipped) := by
  induction nexts generalizing progress with
  | nil => exact .refl _
  | cons next rest ih =>
      have hrest := ih (progress.step next)
      rw [List.foldl_cons, appliedBy]
      by_cases haccepts : progress.accepts next.1 = true
      · have hskipped : (progress.step next).skipped = progress.skipped := by
          simp [Progress.step, haccepts]
        rw [hskipped] at hrest
        rw [if_pos haccepts]
        exact hrest.cons next.1
      · have hskipped : (progress.step next).skipped = progress.skipped ++ [next.1] := by
          simp [Progress.step, haccepts]
        rw [hskipped, ← List.append_assoc] at hrest
        rw [if_neg haccepts]
        exact hrest.trans (List.perm_append_singleton next.1 _)

/-- A run counts what it applies. -/
theorem applied_foldl (progress : Progress) (nexts : List (Span × Correction)) :
    (nexts.foldl Progress.step progress).applied =
      progress.applied + (appliedBy progress nexts).length := by
  induction nexts generalizing progress with
  | nil => rfl
  | cons next rest ih =>
      rw [List.foldl_cons, ih, appliedBy]
      by_cases haccepts : progress.accepts next.1 = true
      · simp only [Progress.step, haccepts, if_true, List.length_cons]
        omega
      · simp [Progress.step, haccepts]

/-! ## One replacement after the other -/

/-- A text under correction against the replacements made so far, which stand in the order of the
content: the text is their splice, and they change disjoint pieces of the content. -/
structure Replaced (content : Text) (progress : Progress) (applied : List (Span × Correction)) :
    Prop where
  text : progress.text = content.spliceAll 0 (applied.map fun next => next.2.edit content next.1)
  boundary : progress.boundary = applied.head?.map (·.1.start)
  replaces : ∀ next ∈ applied, Replaces content next
  stop_le : ∀ next ∈ applied, next.1.stop ≤ byteSize content
  ordered : applied.Pairwise fun earlier later => earlier.1.stop ≤ later.1.start

theorem replaced_start (content : Text) : Replaced content ⟨content, none, 0, []⟩ [] where
  text := by simp [spliceAll]
  boundary := rfl
  replaces := by simp
  stop_le := by simp
  ordered := .nil

namespace Replaced

variable {content : Text} {progress : Progress} {applied : List (Span × Correction)}
  {next : Span × Correction}

/-- The edits made so far lie in the content, and none starts before the boundary. -/
theorem edits_head (h : Replaced content progress applied) {position : Nat}
    (hhead : ∀ first ∈ applied.head?, position ≤ first.1.start) :
    ∀ edit ∈ (applied.map fun next => next.2.edit content next.1).head?,
      position ≤ edit.1.start ∧ edit.1.LiesIn content := by
  intro edit hedit
  rw [List.head?_map] at hedit
  obtain ⟨first, hfirst, rfl⟩ := Option.map_eq_some_iff.mp hedit
  have hmem := List.mem_of_mem_head? hfirst
  have hreplaces := h.replaces first hmem
  refine ⟨?_, hreplaces.liesIn (h.stop_le first hmem)⟩
  rw [hreplaces.edit_range]
  exact hhead first hfirst

/-- What ends before the boundary is accepted, and at first what lies in the content. -/
theorem accepts_iff (h : Replaced content progress applied) (hnext : Replaces content next) :
    progress.accepts next.1 = true ↔
      next.1.stop ≤ byteSize content ∧ ∀ first ∈ applied.head?, next.1.stop ≤ first.1.start := by
  have hle : next.1.start ≤ next.1.stop := hnext.start_lt_stop.le
  cases applied with
  | nil =>
      have htext : progress.text = content := by simpa [spliceAll] using h.text
      simp [Progress.accepts, h.boundary, htext, hle]
  | cons first later =>
      obtain ⟨lead, old, rest, hcontent, hstart, -⟩ :=
        (h.replaces first List.mem_cons_self).exists_append (h.stop_le first List.mem_cons_self)
      -- What precedes the boundary is the same in the content and in the text.
      have htext : progress.text = lead ++ content.spliceAll (byteSize lead)
          ((first :: later).map fun next => next.2.edit content next.1) := by
        rw [h.text]
        have hsplit : content = [] ++ lead ++ (old ++ rest) := by simp [hcontent]
        refine spliceAll_eq_append [] hsplit (h.edits_head ?_)
        intro found hfound
        obtain rfl := Option.some.inj hfound
        exact hstart.ge
      have hsize : byteSize lead ≤ byteSize progress.text := by simp [htext]
      have hsize' : byteSize lead ≤ byteSize content := by
        rw [hcontent, byteSize_append, byteSize_append]
        omega
      simp only [Progress.accepts, h.boundary, List.head?_cons, Option.map_some, Option.all_some,
        Option.mem_def, Option.some.injEq, forall_eq', hstart, Bool.and_eq_true,
        decide_eq_true_eq]
      omega

/-- One step makes the replacement or leaves the text alone. -/
theorem step (h : Replaced content progress applied) (hnext : Replaces content next) :
    Replaced content (progress.step next)
      (if progress.accepts next.1 then next :: applied else applied) := by
  split
  next haccepts =>
    obtain ⟨hinside, hhead⟩ := (h.accepts_iff hnext).mp haccepts
    obtain ⟨lead, old, rest, hcontent, hstart, hstop⟩ := hnext.exists_append hinside
    have hrange := hnext.edit_range
    have hedits := h.edits_head hhead
    simp only [Progress.step, haccepts, if_true, hnext.edit_eq progress.text]
    refine ⟨?_, ?_, ?_, ?_, ?_⟩
    · rw [List.map_cons, h.text]
      rcases hedit : next.2.edit content next.1 with ⟨range, inserted⟩
      rw [hedit] at hrange
      obtain rfl : range = _ := hrange
      rw [hstop] at hedits
      rw [hstart, hstop]
      exact splice_spliceAll hcontent hedits inserted
    · rw [hrange]
      rfl
    · exact List.forall_mem_cons.mpr ⟨hnext, h.replaces⟩
    · exact List.forall_mem_cons.mpr ⟨hinside, h.stop_le⟩
    · exact .cons (le_start_of_ordered (·.1.start) (·.1.stop)
        (fun earlier hmem => (h.replaces earlier hmem).start_lt_stop.le) h.ordered hhead) h.ordered
  next haccepts =>
    simp only [Progress.step, haccepts]
    exact ⟨h.text, h.boundary, h.replaces, h.stop_le, h.ordered⟩

/-- A run makes the replacements that it applies. -/
theorem foldl {nexts : List (Span × Correction)} (hnexts : ∀ next ∈ nexts, Replaces content next) :
    ∀ {progress : Progress} {applied : List (Span × Correction)},
      Replaced content progress applied →
        Replaced content (nexts.foldl Progress.step progress)
          ((appliedBy progress nexts).reverse ++ applied) := by
  induction nexts with
  | nil => exact id
  | cons next rest ih =>
      intro progress applied h
      obtain ⟨hnext, hrest⟩ := List.forall_mem_cons.mp hnexts
      have hrun := ih hrest (h.step hnext)
      rw [List.foldl_cons, appliedBy]
      split
      next haccepts =>
        rw [if_pos haccepts] at hrun
        simpa using hrun
      next haccepts =>
        rwa [if_neg haccepts] at hrun

/-- What is left out although it lies in the content overlaps what has been applied last, since
it does not start later. -/
theorem overlaps_of_refused (h : Replaced content progress applied) (hnext : Replaces content next)
    (hearlier : ∀ other ∈ applied, next.1.start ≤ other.1.start)
    (hrefused : progress.accepts next.1 = false) (hinside : next.1.stop ≤ byteSize content) :
    ∃ other ∈ applied, next.1.Overlaps other.1 := by
  rw [← Bool.not_eq_true, h.accepts_iff hnext] at hrefused
  push Not at hrefused
  obtain ⟨first, hfirst, hlt⟩ := hrefused hinside
  have hmem := List.mem_of_mem_head? hfirst
  refine ⟨first, hmem, ?_, hlt⟩
  exact (hearlier first hmem).trans_lt (h.replaces first hmem).start_lt_stop

/-- Everything that a run leaves out although it lies in the content overlaps something that has
been applied, if the run goes from the last to the first. -/
theorem overlaps_of_mem_skipped {nexts : List (Span × Correction)}
    (hnexts : ∀ next ∈ nexts, Replaces content next)
    (hsorted : nexts.Pairwise fun earlier later => later.1.start ≤ earlier.1.start) :
    ∀ {progress : Progress} {applied : List (Span × Correction)},
      Replaced content progress applied →
      (∀ next ∈ nexts, ∀ other ∈ applied, next.1.start ≤ other.1.start) →
      (∀ span ∈ progress.skipped, span.stop ≤ byteSize content →
        ∃ other ∈ applied, span.Overlaps other.1) →
      ∀ span ∈ (nexts.foldl Progress.step progress).skipped, span.stop ≤ byteSize content →
        ∃ other ∈ (appliedBy progress nexts).reverse ++ applied, span.Overlaps other.1 := by
  induction nexts with
  | nil =>
      intro progress applied _ _ hskipped
      simpa [appliedBy] using hskipped
  | cons next rest ih =>
      intro progress applied h hearlier hskipped
      obtain ⟨hnext, hrest⟩ := List.forall_mem_cons.mp hnexts
      obtain ⟨hhead, htail⟩ := List.pairwise_cons.mp hsorted
      have hrun := ih hrest htail (h.step hnext)
      rw [List.foldl_cons, appliedBy]
      by_cases haccepts : progress.accepts next.1 = true
      · rw [if_pos haccepts] at hrun ⊢
        rw [List.reverse_cons, List.append_assoc, List.singleton_append]
        apply hrun
        · intro later hlater
          exact List.forall_mem_cons.mpr
            ⟨hhead later hlater, hearlier later (List.mem_cons_of_mem next hlater)⟩
        · intro span hspan hinside
          simp only [Progress.step, haccepts, if_true] at hspan
          obtain ⟨other, hother, hoverlaps⟩ := hskipped span hspan hinside
          exact ⟨other, List.mem_cons_of_mem next hother, hoverlaps⟩
      · rw [if_neg haccepts] at hrun ⊢
        apply hrun
        · intro later hlater
          exact hearlier later (List.mem_cons_of_mem next hlater)
        · intro span hspan hinside
          simp only [Progress.step, haccepts] at hspan
          rcases List.mem_append.mp hspan with hspan | hspan
          · exact hskipped span hspan hinside
          · obtain rfl := List.mem_singleton.mp hspan
            exact h.overlaps_of_refused hnext (hearlier next List.mem_cons_self)
              (Bool.not_eq_true _ ▸ haccepts) hinside

end Replaced

/-! ## All replacements -/

/-- What it means that a content is corrected by the given ones of the corrections of some
offenses. -/
structure SplicedBy (content : Text) (offenses : List Offense)
    (applied : List (Span × Correction)) : Prop where
  /-- They are some of the corrections. -/
  subperm : applied.Subperm (ofOffenses offenses)
  /-- The others are left out. -/
  perm : (applied.map (·.1) ++ (run content offenses).skipped).Perm
    ((ofOffenses offenses).map (·.1))
  /-- They stand apart, here with the last first. -/
  apart : applied.Pairwise fun later earlier => earlier.1.stop ≤ later.1.start
  stop_le : ∀ next ∈ applied, next.1.stop ≤ byteSize content
  /-- Nothing in the content is left out without need. -/
  overlaps : ∀ span ∈ (run content offenses).skipped, span.stop ≤ byteSize content →
    ∃ next ∈ applied, span.Overlaps next.1
  /-- The outcome is the content with their edits made at once, and their number. -/
  result : applyAll content offenses =
    (content.spliceAll 0 (applied.reverse.map fun next => next.2.edit content next.1),
      applied.length)

theorem splicedBy_appliedTo {content : Text} {offenses : List Offense}
    (hreplaces : ∀ next ∈ ofOffenses offenses, Replaces content next) :
    SplicedBy content offenses (appliedTo content offenses) := by
  have hperm : (backwards (ofOffenses offenses)).Perm (ofOffenses offenses) := backwards_perm _
  have hnexts : ∀ next ∈ backwards (ofOffenses offenses), Replaces content next := fun next hnext =>
    hreplaces next (hperm.mem_iff.mp hnext)
  have hrun := Replaced.foldl hnexts (replaced_start content)
  rw [List.append_nil] at hrun
  constructor
  · exact (appliedBy_sublist _ _).subperm.trans hperm.subperm
  · have hall := appliedBy_append_skipped ⟨content, none, 0, []⟩ (backwards (ofOffenses offenses))
    rw [List.append_nil] at hall
    exact hall.trans (hperm.map _)
  · exact List.pairwise_reverse.mp hrun.ordered
  · intro next hnext
    exact hrun.stop_le next (List.mem_reverse.mpr hnext)
  · intro span hspan hinside
    obtain ⟨next, hnext, hoverlaps⟩ := Replaced.overlaps_of_mem_skipped hnexts
      (backwards_pairwise _) (replaced_start content) (by simp) (by simp) span hspan hinside
    rw [List.append_nil, List.mem_reverse] at hnext
    exact ⟨next, hnext, hoverlaps⟩
  · have hcount := applied_foldl ⟨content, none, 0, []⟩ (backwards (ofOffenses offenses))
    rw [Nat.zero_add] at hcount
    exact Prod.ext hrun.text hcount

/-- Corrections that stand apart in the content are all applied. -/
theorem SplicedBy.perm_of_apart {content : Text} {offenses : List Offense}
    {applied : List (Span × Correction)} (h : SplicedBy content offenses applied)
    (hapart : (ofOffenses offenses).Pairwise fun a b => ¬ a.1.Overlaps b.1)
    (hinside : ∀ next ∈ ofOffenses offenses, next.1.stop ≤ byteSize content) :
    applied.Perm (ofOffenses offenses) := by
  have hspans : (applied.map (·.1) ++ (run content offenses).skipped).Pairwise
      fun a b => ¬ a.Overlaps b :=
    h.perm.symm.pairwise (List.pairwise_map.mpr hapart) fun hab hba => hab hba.symm
  have hskipped : (run content offenses).skipped = [] := by
    apply List.eq_nil_iff_forall_not_mem.mpr
    intro span hspan
    have hmem : span ∈ (ofOffenses offenses).map (·.1) :=
      h.perm.mem_iff.mp (List.mem_append_right _ hspan)
    obtain ⟨next, hnext, rfl⟩ := List.mem_map.mp hmem
    obtain ⟨other, hother, hoverlaps⟩ := h.overlaps _ hspan (hinside next hnext)
    exact (List.pairwise_append.mp hspans).2.2 _ (List.mem_map_of_mem hother) _ hspan
      hoverlaps.symm
  have hlength := h.perm.length_eq
  rw [hskipped, List.append_nil, List.length_map, List.length_map] at hlength
  exact h.subperm.perm_of_length_le hlength.ge

/-- Corrections that stand apart have one order only from the last to the first. -/
theorem backwards_eq_of_perm {corrections corrections' : List (Span × Correction)}
    (hperm : corrections'.Perm corrections)
    (hsize : ∀ next ∈ corrections, next.1.start < next.1.stop)
    (hapart : corrections.Pairwise fun a b => ¬ a.1.Overlaps b.1) :
    backwards corrections' = backwards corrections := by
  have hdistinct : ∀ a ∈ corrections, ∀ b ∈ corrections, a ≠ b → ¬ a.1.Overlaps b.1 := by
    have hsymm : Std.Symm fun a b : Span × Correction => ¬ a.1.Overlaps b.1 :=
      ⟨fun a b hab hba => hab hba.symm⟩
    intro a ha b hb hne
    exact hapart.forall ha hb hne
  apply List.Perm.eq_of_pairwise _ (backwards_pairwise _) (backwards_pairwise _)
    ((backwards_perm _).trans (hperm.trans (backwards_perm _).symm))
  intro a b ha hb hba hab
  rw [(backwards_perm _).mem_iff] at ha hb
  have hsizeA := hsize a (hperm.mem_iff.mp ha)
  have hsizeB := hsize b hb
  by_contra hne
  exact hdistinct a (hperm.mem_iff.mp ha) b hb hne ⟨by omega, by omega⟩

/-- Corrections that replace are applied faithfully, whichever they are: the outcome is one splice
into the content, and what is left out does not fit.  Corrections that stand apart are all
applied, in whatever order they come. -/
theorem splicedBy_of_replaces {content : Text} {offenses : List Offense}
    (hreplaces : ∀ next ∈ ofOffenses offenses, Replaces content next) :
    SplicedBy content offenses (appliedTo content offenses) ∧
      ((ofOffenses offenses).Pairwise (fun a b => ¬ a.1.Overlaps b.1) →
        (∀ next ∈ ofOffenses offenses, next.1.stop ≤ byteSize content) →
          (appliedTo content offenses).Perm (ofOffenses offenses) ∧
            ∀ offenses' : List Offense, offenses'.Perm offenses →
              applyAll content offenses' = applyAll content offenses) := by
  have hspliced := splicedBy_appliedTo hreplaces
  refine ⟨hspliced, ?_⟩
  intro hapart hinside
  refine ⟨hspliced.perm_of_apart hapart hinside, ?_⟩
  intro offenses' hperm
  have hcorrections : (ofOffenses offenses').Perm (ofOffenses offenses) := hperm.filterMap _
  have hbackwards := backwards_eq_of_perm hcorrections
    (fun next hnext => (hreplaces next hnext).start_lt_stop) hapart
  rw [applyAll, applyAll, run, run, hbackwards]

/-- Replacements that overlap or reach beyond the content, and the two of them that are applied. -/
theorem splicedBy_of_replaces_overlapping :
    let content : Text := "abcdef"
    let offenses : List Offense :=
      [⟨.requireHardcodingLib, ⟨0, 2, 1, 1⟩, "ab", some (.replace "q")⟩,
        ⟨.requireHardcodingLib, ⟨1, 3, 1, 2⟩, "bc", some (.replace "xyz")⟩,
        ⟨.requireHardcodingLib, ⟨2, 5, 1, 3⟩, "cde", some (.replace [])⟩,
        ⟨.requireHardcodingLib, ⟨4, 9, 1, 5⟩, "ef", some (.replace "r")⟩]
    let chosen : List Offense :=
      [⟨.requireHardcodingLib, ⟨0, 2, 1, 1⟩, "ab", some (.replace "q")⟩,
        ⟨.requireHardcodingLib, ⟨2, 5, 1, 3⟩, "cde", some (.replace [])⟩]
    (∀ next ∈ ofOffenses offenses, Replaces content next) ∧
      SplicedBy content offenses (appliedTo content offenses) ∧
      applyAll content offenses = ("qf".toList, 2) ∧
      (ofOffenses chosen).Pairwise (fun a b => ¬ a.1.Overlaps b.1) ∧
      (∀ next ∈ ofOffenses chosen, next.1.stop ≤ byteSize content) ∧
      (appliedTo content chosen).Perm (ofOffenses chosen) ∧
      applyAll content chosen.reverse = applyAll content chosen := by
  intro content offenses chosen
  have hreplaces : ∀ next ∈ ofOffenses offenses, Replaces content next := by
    simp only [offenses, ofOffenses, List.filterMap_cons, List.filterMap_nil, Option.map_some,
      List.forall_mem_cons]
    refine ⟨⟨by decide, ⟨_, rfl⟩, fun _ => ?_⟩, ⟨by decide, ⟨_, rfl⟩, fun _ => ?_⟩,
      ⟨by decide, ⟨_, rfl⟩, fun _ => ?_⟩, ⟨by decide, ⟨_, rfl⟩, fun h => ?_⟩,
      List.forall_mem_nil _⟩
    · exact ⟨⟨[], "abcdef".toList, rfl, rfl⟩, ⟨"ab".toList, "cdef".toList, rfl, rfl⟩⟩
    · exact ⟨⟨"a".toList, "bcdef".toList, rfl, rfl⟩, ⟨"abc".toList, "def".toList, rfl, rfl⟩⟩
    · exact ⟨⟨"ab".toList, "cdef".toList, rfl, rfl⟩, ⟨"abcde".toList, "f".toList, rfl, rfl⟩⟩
    · exact absurd h (by decide)
  have hchosen : ∀ next ∈ ofOffenses chosen, Replaces content next := by
    intro next hnext
    apply hreplaces
    simp only [chosen, offenses, ofOffenses, List.filterMap_cons, List.filterMap_nil,
      Option.map_some, List.mem_cons, List.not_mem_nil, or_false] at hnext ⊢
    rcases hnext with rfl | rfl <;> simp
  have hapart : (ofOffenses chosen).Pairwise (fun a b => ¬ a.1.Overlaps b.1) := by
    simp [chosen, ofOffenses, Span.Overlaps]
  have hinside : ∀ next ∈ ofOffenses chosen, next.1.stop ≤ byteSize content := by
    decide
  have hsorted : backwards (ofOffenses offenses) = (ofOffenses offenses).reverse := by
    simp [offenses, backwards, ofOffenses, List.mergeSort]
  have houtcome : applyAll content offenses = ("qf".toList, 2) := by
    rw [applyAll, run, hsorted]
    decide +kernel
  have hall := (splicedBy_of_replaces hchosen).2 hapart hinside
  exact ⟨hreplaces, (splicedBy_of_replaces hreplaces).1, houtcome, hapart, hinside, hall.1,
    hall.2 _ chosen.reverse_perm⟩

end Correction

end RequireLint
