import RequireLint.Proofs.Policy.TestCode
import RequireLint.Proofs.Rule.Distinct
import RequireLint.Proofs.Rule.Selection

/-!
# One correction for one statement

Two rules correct, and both look at the same inclusion calls.  They never meet at one call: the
set-up of the bundler is removed from test code only, and there its name does not lead into the
library.
-/

namespace RequireLint

/-! ## One call -/

/-- The name that the bundler is set up by goes down. -/
theorem Path.descends_bundlerSetup : Descends "bundler/setup" := by
  constructor
  · decide
  · have hsplit : List.splitOn '/' ("bundler/setup" : Text) =
        ["bundler".toList, "setup".toList] := by decide
    rw [hsplit, List.forall_mem_cons, List.forall_mem_singleton]
    constructor
    · exact ⟨by decide, by decide, by decide, by decide⟩
    · exact ⟨by decide, by decide, by decide, by decide⟩

/-- In test code the set-up of the bundler is not taken for a path into the library. -/
theorem Policy.evaluate_hardcodingLib_bundlerSetup {root file : Text}
    (htest : (Context.ofPaths root file).inTestDirectory = true) (kind : Directive) :
    hardcodingLib.evaluate kind (.str "bundler/setup") (.ofPaths root file) = .pass :=
  evaluate_hardcodingLib_of_testCode Path.descends_bundlerSetup (by decide) htest kind

/-- The rules that can correct. -/
theorem RuleId.autocorrectable_iff {id : RuleId} :
    id.autocorrectable = true ↔ id = requireHardcodingLib ∨ id = bundlerSetupInTests := by
  cases id <;> decide

namespace ActiveRule

variable {root file : Text} {kind : Directive} {argument : Expr}

/-- A call that is removed does not hard-code a library path. -/
theorem evaluate_of_removed {remover : ActiveRule} {removal : Correction}
    (hremover : remover.id = .bundlerSetupInTests)
    (hremoval : remover.correction? (.ofPaths root file) kind argument = some removal) :
    Policy.hardcodingLib.evaluate kind argument (.ofPaths root file) = .pass := by
  simp only [correction?, hremover] at hremoval
  obtain ⟨⟨htest, -, rfl⟩, -⟩ := Option.ite_none_right_eq_some.mp hremoval
  exact Policy.evaluate_hardcodingLib_bundlerSetup htest kind

/-- A call that is removed is not replaced. -/
theorem not_replaced_of_removed {remover replacer : ActiveRule} {removal replacement : Correction}
    (hremover : remover.id = .bundlerSetupInTests) (hreplacer : replacer.id = .requireHardcodingLib)
    (hremoval : remover.correction? (.ofPaths root file) kind argument = some removal) :
    replacer.correction? (.ofPaths root file) kind argument ≠ some replacement := by
  simp only [correction?, hreplacer, evaluate_of_removed hremover hremoval]
  simp [Decision.pass]

/-- A call is corrected by one rule at most. -/
theorem id_eq_of_correction? {first second : ActiveRule} {a b : Correction}
    (ha : first.correction? (.ofPaths root file) kind argument = some a)
    (hb : second.correction? (.ofPaths root file) kind argument = some b) :
    first.id = second.id := by
  rcases RuleId.autocorrectable_iff.mp (autocorrectable_of_correction? ha) with hfirst | hfirst
  · rcases RuleId.autocorrectable_iff.mp (autocorrectable_of_correction? hb) with hsecond | hsecond
    · exact hfirst.trans hsecond.symm
    · exact absurd ha (not_replaced_of_removed hsecond hfirst hb)
  · rcases RuleId.autocorrectable_iff.mp (autocorrectable_of_correction? hb) with hsecond | hsecond
    · exact absurd hb (not_replaced_of_removed hfirst hsecond ha)
    · exact hfirst.trans hsecond.symm

/-- The offenses that one rule corrects start one behind the other. -/
theorem pairwise_corrected (rule : ActiveRule) (ctx : Context) (content : Text) :
    ((rule.offenses ⟨content, inclusionCalls content, ctx⟩).filter (·.correction.isSome)).Pairwise
      fun a b => a.span.start < b.span.start := by
  obtain ⟨id, allowInTests⟩ := rule
  cases id with
  | requireHardcodingLib | requireRelativeHardcodingLib | relativeRequireToLib
  | requireWithRelativePath => exact (Policy.pairwise_offenses _ _ ctx content).filter _
  | bundlerSetupInTests => exact (pairwise_bundlerSetupOffenses ctx content).filter _
  | gemspecGit =>
      have hnone : (Specification.offenses ⟨content, inclusionCalls content, ctx⟩).filter
          (·.correction.isSome) = [] := by
        apply List.filter_eq_nil_iff.mpr
        intro offense hmem
        simp [Specification.correction_eq_none hmem]
      exact hnone ▸ List.Pairwise.nil

/-- No statement is corrected by two rules. -/
theorem start_ne_of_corrected {first second : ActiveRule} {content : Text} {a b : Offense}
    (hne : first.id ≠ second.id)
    (ha : a ∈ first.offenses ⟨content, inclusionCalls content, .ofPaths root file⟩)
    (hb : b ∈ second.offenses ⟨content, inclusionCalls content, .ofPaths root file⟩)
    (ha' : a.correction.isSome = true) (hb' : b.correction.isSome = true) :
    a.span.start ≠ b.span.start := by
  obtain ⟨change, hchange⟩ := Option.isSome_iff_exists.mp ha'
  obtain ⟨change', hchange'⟩ := Option.isSome_iff_exists.mp hb'
  obtain ⟨call, hcall, hcorrection, hspan⟩ :=
    (first.mem_offenses_iff _ _ _).mp ⟨a, ha, hchange, rfl⟩
  obtain ⟨call', hcall', hcorrection', hspan'⟩ :=
    (second.mem_offenses_iff _ _ _).mp ⟨b, hb, hchange', rfl⟩
  intro hstart
  rw [← hspan, ← hspan'] at hstart
  obtain rfl := InclusionCall.eq_of_start_eq hcall hcall' hstart
  exact hne (id_eq_of_correction? hcorrection hcorrection')

/-- No library path is found where the set-up of the bundler is removed. -/
theorem start_ne_of_removed {remover finder : ActiveRule} {content : Text}
    {removal other : Offense} (hremover : remover.id = .bundlerSetupInTests)
    (hfinder : finder.id = .requireHardcodingLib)
    (hremoval : removal ∈ remover.offenses ⟨content, inclusionCalls content, .ofPaths root file⟩)
    (hother : other ∈ finder.offenses ⟨content, inclusionCalls content, .ofPaths root file⟩) :
    removal.span.start ≠ other.span.start := by
  obtain ⟨id, allowInTests⟩ := finder
  obtain rfl : id = .requireHardcodingLib := hfinder
  have hremoved : removal.correction = some .remove :=
    (suitsRule_of_mem_offenses hremoval).remove ((rule_of_mem_offenses hremoval).trans hremover)
  obtain ⟨call, hcall, hcorrection, hspan⟩ :=
    (remover.mem_offenses_iff _ _ _).mp ⟨removal, hremoval, hremoved, rfl⟩
  obtain ⟨found, hfound, hfoundSpan, -, hoffends⟩ := Policy.exists_call_of_mem_offenses hother
  intro hstart
  rw [← hspan, hfoundSpan] at hstart
  obtain rfl := InclusionCall.eq_of_start_eq hcall hfound hstart
  rw [evaluate_of_removed hremover hcorrection] at hoffends
  exact absurd hoffends (by decide)

end ActiveRule

namespace RuleSet

/-- No statement is corrected twice.  In particular, a statement that is removed as the set-up of
the bundler is not found to hard-code a library path. -/
theorem nodup_span_corrected {rules : RuleSet} (hrules : rules.Assembled)
    (root file content : Text) :
    (((rules.check root file content).filter (·.correction.isSome)).map Offense.span).Nodup ∧
      ∀ removal ∈ rules.check root file content, ∀ other ∈ rules.check root file content,
        removal.rule = .bundlerSetupInTests → other.rule = .requireHardcodingLib →
          removal.span ≠ other.span := by
  constructor
  · rw [check, offenses, (((List.mergeSort_perm _ _).filter _).map _).nodup_iff,
      List.filter_flatMap, List.map_flatMap, List.nodup_flatMap]
    constructor
    · intro rule _
      apply List.pairwise_map.mpr
      apply (rule.pairwise_corrected (.ofPaths root file) content).imp
      intro a b hlt hspan
      rw [hspan] at hlt
      exact lt_irrefl _ hlt
    · apply (List.pairwise_map.mp hrules.nodup_ids).imp
      intro first second hne span hfirst hsecond
      obtain ⟨a, ha, rfl⟩ := List.mem_map.mp hfirst
      obtain ⟨b, hb, hspan⟩ := List.mem_map.mp hsecond
      obtain ⟨ha, hcorrectsA⟩ := List.mem_filter.mp ha
      obtain ⟨hb, hcorrectsB⟩ := List.mem_filter.mp hb
      exact ActiveRule.start_ne_of_corrected hne ha hb hcorrectsA hcorrectsB
        (congrArg Span.start hspan).symm
  · intro removal hremoval other hother hremover hlib hspan
    obtain ⟨remover, -, hremoval⟩ := mem_check_iff.mp hremoval
    obtain ⟨finder, -, hother⟩ := mem_check_iff.mp hother
    exact ActiveRule.start_ne_of_removed
      ((ActiveRule.rule_of_mem_offenses hremoval).symm.trans hremover)
      ((ActiveRule.rule_of_mem_offenses hother).symm.trans hlib) hremoval hother
      (congrArg Span.start hspan)

/-- A set-up of the bundler and a library path on one line of test code. -/
theorem nodup_span_corrected_spec :
    let content : Text := "require 'bundler/setup'; require '../lib/a'\n"
    let offenses := RuleSet.default.check "/p" "/p/spec/a_spec.rb" content
    RuleSet.default.Assembled ∧
      (∀ correction ∈ [Correction.remove, .replace "require \"a\""],
        ∃ offense ∈ offenses, offense.correction = some correction) ∧
      ((offenses.filter (·.correction.isSome)).map Offense.span).Nodup := by
  intro content offenses
  refine ⟨.default, ?_, (nodup_span_corrected .default "/p" "/p/spec/a_spec.rb" content).1⟩
  have hfound : ∀ correction ∈ [Correction.remove, .replace "require \"a\""],
      ∃ rule ∈ RuleSet.default, ∃ offense ∈ rule.offenses
        ⟨content, inclusionCalls content, .ofPaths "/p" "/p/spec/a_spec.rb"⟩,
          offense.correction = some correction := by
    decide +kernel
  intro correction hmem
  obtain ⟨rule, hrule, offense, hoffense, hcorrection⟩ := hfound correction hmem
  exact ⟨offense, mem_check_iff.mpr ⟨rule, hrule, hoffense⟩, hcorrection⟩

end RuleSet

end RequireLint
