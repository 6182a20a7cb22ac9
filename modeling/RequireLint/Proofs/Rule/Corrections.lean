import RequireLint.Correction
import RequireLint.Rule.Set

/-!
# The corrections of a rule set

Two rules correct what they find.  The corrections of a content are the ones that these rules
have for its inclusion calls, and only a call whose argument is modelled is corrected.
-/

namespace RequireLint

/-- The correction that a rule has for a call with a directive and an argument. -/
def ActiveRule.correction? (rule : ActiveRule) (ctx : Context) (kind : Directive)
    (argument : Expr) : Option Correction :=
  match rule.id with
  | .requireHardcodingLib =>
    (Policy.hardcodingLib.evaluate kind argument ctx).replacement.map .replace
  | .bundlerSetupInTests =>
    if ctx.inTestDirectory ∧ kind = .require ∧ argument = .str "bundler/setup" then some .remove
    else none
  | _ => none

/-- Only a call that offends is corrected. -/
theorem Policy.offense_of_replacement {policy : Policy} {kind : Directive} {argument : Expr}
    {ctx : Context} {text : Text}
    (h : (policy.evaluate kind argument ctx).replacement = some text) :
    (policy.evaluate kind argument ctx).offense = true ∧ policy = hardcodingLib := by
  unfold Policy.evaluate at h ⊢
  split at h
  · simp [Decision.pass] at h
  next reference =>
    unfold Policy.decide at h ⊢
    split at h
    next hoffends =>
      split at h
      next hcorrects => exact ⟨by simp [hoffends], by simpa [autocorrects] using hcorrects⟩
      · simp at h
    · simp [Decision.pass] at h

theorem Policy.mem_offenses_iff {policy : Policy} {rule : RuleId} {unit : SourceUnit}
    {span : Span} {correction : Correction} :
    (∃ offense ∈ policy.offenses rule unit, offense.correction = some correction ∧
        offense.span = span) ↔
      ∃ call ∈ unit.calls,
        (policy.evaluate call.kind call.argument unit.context).replacement.map .replace =
          some correction ∧ call.span = span := by
  constructor
  · rintro ⟨offense, hmem, hcorrection, rfl⟩
    obtain ⟨call, hcall, hoffense⟩ := List.mem_filterMap.mp hmem
    dsimp only at hoffense
    split at hoffense
    · obtain rfl := Option.some.inj hoffense
      exact ⟨call, hcall, hcorrection, rfl⟩
    · simp at hoffense
  · rintro ⟨call, hcall, hcorrection, rfl⟩
    obtain ⟨text, htext, -⟩ := Option.map_eq_some_iff.mp hcorrection
    have hoffends := (offense_of_replacement htext).1
    refine ⟨call.offense rule unit.content ((policy.evaluate call.kind call.argument
      unit.context).replacement.map .replace), ?_, hcorrection, rfl⟩
    exact List.mem_filterMap.mpr ⟨call, hcall, by simp [hoffends]⟩

/-- A policy that knows no replacement corrects nothing. -/
theorem Policy.replacement_eq_none {policy : Policy} (hpolicy : policy ≠ hardcodingLib)
    (kind : Directive) (argument : Expr) (ctx : Context) :
    (policy.evaluate kind argument ctx).replacement = none :=
  Option.eq_none_iff_forall_ne_some.mpr fun _ h => hpolicy (offense_of_replacement h).2

theorem mem_bundlerSetupOffenses_iff {unit : SourceUnit} {span : Span} {correction : Correction} :
    (∃ offense ∈ bundlerSetupOffenses unit, offense.correction = some correction ∧
        offense.span = span) ↔
      ∃ call ∈ unit.calls,
        (if unit.context.inTestDirectory ∧ call.kind = .require ∧
            call.argument = .str "bundler/setup" then some Correction.remove
          else none) = some correction ∧ call.span = span := by
  have hsetup : ∀ call : InclusionCall, call.isBundlerSetup = true ↔
      call.kind = .require ∧ call.argument = .str "bundler/setup" := fun call => by
    simp [InclusionCall.isBundlerSetup]
  by_cases htest : unit.context.inTestDirectory
  · simp only [bundlerSetupOffenses, htest, if_true, true_and, List.mem_map, List.mem_filter,
      hsetup]
    constructor
    · rintro ⟨_, ⟨call, ⟨hcall, hmatch⟩, rfl⟩, hcorrection, rfl⟩
      exact ⟨call, hcall, by rwa [if_pos hmatch], rfl⟩
    · rintro ⟨call, hcall, hcorrection, rfl⟩
      obtain ⟨hmatch, hremove⟩ := Option.ite_none_right_eq_some.mp hcorrection
      exact ⟨_, ⟨call, ⟨hcall, hmatch⟩, rfl⟩, hremove, rfl⟩
  · simp [bundlerSetupOffenses, htest]

theorem Specification.correction_eq_none {unit : SourceUnit} {offense : Offense}
    (h : offense ∈ Specification.offenses unit) : offense.correction = none := by
  unfold Specification.offenses at h
  split at h
  · obtain ⟨header, -, hheader⟩ := List.mem_flatMap.mp h
    split at hheader
    · simp at hheader
    · obtain ⟨shell, -, rfl⟩ := List.mem_map.mp hheader
      rfl
  · simp at h

theorem ActiveRule.mem_offenses_iff (rule : ActiveRule) (unit : SourceUnit) (span : Span)
    (correction : Correction) :
    (∃ offense ∈ rule.offenses unit, offense.correction = some correction ∧
        offense.span = span) ↔
      ∃ call ∈ unit.calls, rule.correction? unit.context call.kind call.argument = some correction ∧
        call.span = span := by
  obtain ⟨id, allowInTests⟩ := rule
  cases id with
  | requireHardcodingLib => exact Policy.mem_offenses_iff
  | requireRelativeHardcodingLib | relativeRequireToLib | requireWithRelativePath =>
      refine Policy.mem_offenses_iff.trans ?_
      simp [correction?, Policy.replacement_eq_none]
  | bundlerSetupInTests => exact mem_bundlerSetupOffenses_iff
  | gemspecGit =>
      constructor
      · rintro ⟨offense, hmem, hcorrection, -⟩
        rw [Specification.correction_eq_none hmem] at hcorrection
        simp at hcorrection
      · rintro ⟨call, -, hcorrection, -⟩
        simp [correction?] at hcorrection

/-- The corrections of a rule set are those that its rules have for the inclusion calls. -/
theorem mem_corrections_iff {rules : RuleSet} {root file content : Text} {span : Span}
    {correction : Correction} :
    (span, correction) ∈ Correction.ofOffenses (rules.check root file content) ↔
      ∃ rule ∈ rules, ∃ call ∈ inclusionCalls content,
        rule.correction? (.ofPaths root file) call.kind call.argument = some correction ∧
          call.span = span := by
  have hrule := fun rule : ActiveRule => rule.mem_offenses_iff
    ⟨content, inclusionCalls content, .ofPaths root file⟩ span correction
  simp only [← hrule, Correction.mem_ofOffenses, RuleSet.check, RuleSet.offenses,
    List.mem_mergeSort, List.mem_flatMap]
  constructor
  · rintro ⟨offense, ⟨rule, hmem, hoffense⟩, hcorrection, hspan⟩
    exact ⟨rule, hmem, offense, hoffense, hcorrection, hspan⟩
  · rintro ⟨rule, hmem, offense, hoffense, hcorrection, hspan⟩
    exact ⟨offense, ⟨rule, hmem, hoffense⟩, hcorrection, hspan⟩

/-- A call is only replaced by a `require` of a load name. -/
theorem ActiveRule.exists_loadName_of_replace {rule : ActiveRule} {ctx : Context}
    {kind : Directive} {argument : Expr} {text : Text}
    (h : rule.correction? ctx kind argument = some (.replace text)) :
    ∃ name, text = Reference.requireStatement name := by
  unfold correction? at h
  split at h
  · obtain ⟨written, hwritten, heq⟩ := Option.map_eq_some_iff.mp h
    obtain rfl := Correction.replace.inj heq
    unfold Policy.evaluate at hwritten
    split at hwritten
    · simp [Decision.pass] at hwritten
    next reference hreference =>
      unfold Policy.decide at hwritten
      split at hwritten
      · obtain ⟨name, -, hname⟩ : ∃ name, reference.loadName? ctx = some name ∧
            Reference.requireStatement name = written := by
          simpa [Policy.autocorrects, Reference.canonicalReplacement] using hwritten
        exact ⟨name, hname.symm⟩
      · simp [Decision.pass] at hwritten
  · obtain ⟨-, hremove⟩ := Option.ite_none_right_eq_some.mp h
    simp at hremove
  · simp at h

/-- A call that is corrected has an argument that is modelled. -/
theorem ActiveRule.argument_ne_other_of_correction? {rule : ActiveRule} {ctx : Context}
    {kind : Directive} {argument : Expr} {correction : Correction}
    (h : rule.correction? ctx kind argument = some correction) : argument ≠ .other := by
  rintro rfl
  unfold correction? at h
  split at h
  · simp [Policy.evaluate, Reference.ofExpr?, Decision.pass] at h
  · simp at h
  · simp at h

end RequireLint
