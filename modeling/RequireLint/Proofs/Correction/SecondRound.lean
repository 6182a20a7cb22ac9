import RequireLint.Proofs.Correction.Tidy

/-!
# Correcting a corrected file

The corrected text is read and judged anew, so a second round may find something to correct: a
correction left out because it overlapped another, a statement that came to stand where one may
start, or a load name that leads back into the library from where the file lies.  A round leaves
a text alone exactly when no inclusion call of the text has a correction.

Where every call stands alone on its line, the load names are all that matters: a second round is
idle exactly when none of those that the first round wrote has a correction.
-/

namespace RequireLint

open Text

namespace Correction

/-- Without corrections nothing is accepted, and of several the first one is. -/
theorem accepted_eq_nil_iff {content : Text} {corrections : List (Span × Correction)} :
    accepted content none corrections = [] ↔ corrections = [] := by
  cases corrections with
  | nil => simp [accepted]
  | cons next rest => simp [accepted]

/-- A round leaves a text alone exactly when no call of the text has a correction. -/
theorem applyAll_eq_self_iff (rules : RuleSet) (root file content : Text) :
    applyAll content (rules.check root file content) = (content, 0) ↔
      ∀ rule ∈ rules, ∀ call ∈ inclusionCalls content,
        rule.correction? (.ofPaths root file) call.kind call.argument = none := by
  have happlied : (applyAll content (rules.check root file content)).2 =
      (accepted content none
        (backwards (ofOffenses (rules.check root file content)))).length := by
    have hsettled := (settled_run rules root file content).applied
    rwa [List.length_reverse] at hsettled
  constructor
  · intro h rule hrule call hcall
    rw [h, eq_comm, List.length_eq_zero_iff, accepted_eq_nil_iff] at happlied
    by_contra hsome
    obtain ⟨correction, hcorrection⟩ := Option.ne_none_iff_exists'.mp hsome
    have hmem : (call.span, correction) ∈ ofOffenses (rules.check root file content) :=
      mem_corrections_iff.mpr ⟨rule, hrule, call, hcall, hcorrection, rfl⟩
    rw [← (backwards_perm _).mem_iff, happlied] at hmem
    simp at hmem
  · intro h
    have hnil : ofOffenses (rules.check root file content) = [] := by
      rw [List.eq_nil_iff_forall_not_mem]
      rintro ⟨span, correction⟩ hmem
      obtain ⟨rule, hrule, call, hcall, hcorrection, -⟩ := mem_corrections_iff.mp hmem
      rw [h rule hrule call hcall] at hcorrection
      simp at hcorrection
    simp [applyAll, run, hnil, backwards]

/-- The content as a whole, and the corrections of a round. -/
theorem tail_check {rules : RuleSet} {root file content : Text} (htidy : Tidy content)
    (hplain : WritesPlain (accepted content none
      (backwards (ofOffenses (rules.check root file content))))) :
    Tail rules (.ofPaths root file) content false 1 [] content
      (backwards (ofOffenses (rules.check root file content))) where
  split := rfl
  opensLine := fun _ => .inl rfl
  tidy := htidy
  ordered := backwards_pairwise _
  askedFor := by
    rintro ⟨span, correction⟩
    rw [(backwards_perm _).mem_iff, mem_corrections_iff]
    constructor
    · rintro ⟨rule, hrule, call, hcall, hcorrection⟩
      obtain ⟨reading, hreading, rfl⟩ := List.mem_map.mp hcall
      exact ⟨rule, hrule, reading, hreading, hcorrection⟩
    · rintro ⟨rule, hrule, reading, hreading, hcorrection⟩
      exact ⟨rule, hrule, reading.call, List.mem_map_of_mem hreading, hcorrection⟩
  covers := by
    intro next hnext
    exact coversStatement_of_mem_corrections ((backwards_perm _).mem_iff.mp hnext)
  plain := hplain

/-- A second round leaves the corrected text alone exactly when no inclusion call that is read
from it has a correction.  Of a content whose calls stand alone, it does so exactly when no load
name that the first round wrote has one. -/
theorem second_round_idle_iff (rules : RuleSet) (root file content : Text) :
    let ctx := Context.ofPaths root file
    let edits := accepted content none (backwards (ofOffenses (rules.check root file content)))
    let corrected := (applyAll content (rules.check root file content)).1
    (applyAll corrected (rules.check root file corrected) = (corrected, 0) ↔
        ∀ rule ∈ rules, ∀ call ∈ inclusionCalls corrected,
          rule.correction? ctx call.kind call.argument = none) ∧
      (Tidy content → WritesPlain edits →
        (applyAll corrected (rules.check root file corrected) = (corrected, 0) ↔
          WritesClean rules ctx edits)) := by
  intro ctx edits corrected
  have hidle := applyAll_eq_self_iff rules root file corrected
  refine ⟨hidle, ?_⟩
  intro htidy hplain
  have hcorrected : corrected = content.spliceAll 0 edits.reverse :=
    (settled_run rules root file content).text
  have hclean := (tail_check htidy hplain).outcome.clean 1 0
  rw [hidle, ← hclean, hcorrected, ← readings_eq_readingsFrom]
  constructor
  · intro h reading hreading rule hrule
    exact h rule hrule reading.call (List.mem_map_of_mem hreading)
  · intro h rule hrule call hcall
    obtain ⟨reading, hreading, rfl⟩ := List.mem_map.mp hcall
    exact h reading hreading rule hrule

/-- A round on a tidy content after which nothing is left to correct. -/
theorem second_round_idle_on_spec :
    let content : Text := "require '../lib/a' # helper\n"
    let corrected : Text := "require \"a\" # helper\n"
    let round (t : Text) := applyAll t (RuleSet.default.check "/p" "/p/spec/a_spec.rb" t)
    Tidy content ∧ round content = (corrected, 1) ∧ round corrected = (corrected, 0) := by
  intro content corrected round
  have hcode : codeLines false 1 (linesFrom 0 content) = [(1, ⟨0, content, []⟩)] := by
    decide +kernel
  have hread : lineReadings 1 ⟨0, content, []⟩ =
      [⟨⟨.require, .str "../lib/a", ⟨0, 18, 1, 1⟩⟩, true⟩] := by
    decide +kernel
  have htidy : Tidy content := by
    rw [Tidy, TidyFrom, hcode, List.forall_mem_singleton, hread, List.forall_mem_singleton]
    exact ⟨rfl, [], "require '../lib/a'", " # helper", by decide +kernel, by simp, rfl, rfl, rfl⟩
  have hfirst : round content = (corrected, 1) := by decide +kernel
  have hedits : accepted content none (backwards (ofOffenses
      (RuleSet.default.check "/p" "/p/spec/a_spec.rb" content))) =
        [(⟨0, 18⟩, Reference.requireStatement "a")] := by
    decide +kernel
  have hname : ∀ name : Text,
      Reference.requireStatement "a" = Reference.requireStatement name → name = "a" := by
    intro name heq
    exact (List.append_cancel_left (List.append_cancel_right heq)).symm
  have hidle := (second_round_idle_iff RuleSet.default "/p" "/p/spec/a_spec.rb" content).2 htidy
  rw [hedits] at hidle
  have hplain : WritesPlain [(⟨0, 18⟩, Reference.requireStatement "a")] := by
    rw [WritesPlain, List.forall_mem_singleton]
    intro name heq
    obtain rfl := hname name heq
    decide
  have hclean : WritesClean RuleSet.default (.ofPaths "/p" "/p/spec/a_spec.rb")
      [(⟨0, 18⟩, Reference.requireStatement "a")] := by
    rw [WritesClean, List.forall_mem_singleton]
    intro name heq
    obtain rfl := hname name heq
    unfold Clean
    decide +kernel
  have hsecond := (hidle hplain).mpr hclean
  have hcorrected :
      (applyAll content (RuleSet.default.check "/p" "/p/spec/a_spec.rb" content)).1 = corrected :=
    congrArg Prod.fst hfirst
  rw [hcorrected] at hsecond
  exact ⟨htidy, hfirst, hsecond⟩

/-- In a project below a directory named `lib`, the load name of a file in the library can lead
into the library again. -/
theorem second_round_corrects_load_name :
    let round (content : Text) :=
      applyAll content (RuleSet.default.check "/usr/lib/foo" "/usr/lib/foo/Rakefile" content)
    round "require './lib/lib'\n" = ("require \"lib\"\n".toList, 1) ∧
      round "require \"lib\"\n" = ("require \"foo/lib\"\n".toList, 1) := by
  decide +kernel

end Correction

end RequireLint
