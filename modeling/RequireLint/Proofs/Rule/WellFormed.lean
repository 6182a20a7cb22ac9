import RequireLint.Proofs.Rule.Specification
import RequireLint.Proofs.Source.Placement

/-!
# Well-formed offenses

A report shows an offense by its line and column, and a correction edits the bytes of its span.
Both can be trusted: every offense is a nonempty piece of the content at the place it names, and
its correction is of the kind that its rule can make.

The offenses come from two sources.  Those on inclusion calls take their positions from the
reader, which numbers the lines as it goes.  Those on calls of git take theirs from the blocks of
the manifest.  Each source is treated on its own, and a rule set only sorts what they give.
-/

namespace RequireLint

open Text

namespace Offense

/-- An offense is a nonempty piece of the content, at the line and column that it names. -/
structure Placed (offense : Offense) (content : Text) : Prop where
  start_lt_stop : offense.span.start < offense.span.stop
  stop_le : offense.span.stop ≤ byteSize content
  isBoundary_start : IsBoundary content offense.span.start
  isBoundary_stop : IsBoundary content offense.span.stop
  source_eq : offense.source = content.slice offense.span.start offense.span.stop
  locate_eq : locate content offense.span.start = (offense.span.line, offense.span.column)

/-- An offense is corrected the way its rule can. -/
structure SuitsRule (offense : Offense) : Prop where
  autocorrectable : offense.correction ≠ none → offense.rule.autocorrectable = true
  remove : offense.rule = .bundlerSetupInTests → offense.correction = some .remove
  replace : offense.rule = .requireHardcodingLib → ∀ correction ∈ offense.correction,
    ∃ text, correction = .replace text ∧ "require \"".toList <+: text

/-- What holds of every offense that a rule set finds in a content. -/
structure WellFormed (offense : Offense) (rules : RuleSet) (content : Text) : Prop extends
    offense.Placed content, offense.SuitsRule where
  rule_mem : offense.rule ∈ rules.ids

end Offense

/-! ## Where offenses stand -/

/-- The offense of a call whose argument is modelled stands where the call does. -/
theorem InclusionCall.placed_offense {call : InclusionCall} {content : Text}
    (hcall : call ∈ inclusionCalls content) (hmodelled : call.argument ≠ .other) (rule : RuleId)
    (correction : Option Correction) : (call.offense rule content correction).Placed content := by
  have hcovers := coversStatement_of_mem_inclusionCalls hcall hmodelled
  have hlt := hcovers.start_lt_stop
  obtain ⟨lead, statement, rest, hcontent, -, -, hstart, hstop⟩ := hcovers
  constructor
  · exact hlt
  · show call.span.stop ≤ byteSize content
    rw [hstop, hcontent, byteSize_append _ rest]
    omega
  · exact ⟨lead, statement ++ rest, by rw [hcontent, List.append_assoc], hstart⟩
  · exact ⟨lead ++ statement, rest, hcontent, hstop⟩
  · rfl
  · exact locate_of_mem_inclusionCalls hcall

/-- A policy objects to calls whose argument is modelled. -/
theorem Policy.placed_of_mem_offenses {policy : Policy} {rule : RuleId} {ctx : Context}
    {content : Text} {offense : Offense}
    (h : offense ∈ policy.offenses rule ⟨content, inclusionCalls content, ctx⟩) :
    offense.Placed content ∧ offense.rule = rule := by
  obtain ⟨call, hcall, hoffense⟩ := List.mem_filterMap.mp h
  dsimp only at hcall hoffense
  obtain ⟨hoffends, heq⟩ := Option.ite_none_right_eq_some.mp hoffense
  obtain rfl := Option.some.inj heq
  have hmodelled : call.argument ≠ .other := by
    intro hother
    rw [hother] at hoffends
    simp [evaluate, Reference.ofExpr?, Decision.pass] at hoffends
  exact ⟨call.placed_offense hcall hmodelled rule _, rfl⟩

theorem placed_of_mem_bundlerSetupOffenses {ctx : Context} {content : Text} {offense : Offense}
    (h : offense ∈ bundlerSetupOffenses ⟨content, inclusionCalls content, ctx⟩) :
    offense.Placed content ∧ offense.rule = .bundlerSetupInTests ∧
      offense.correction = some .remove := by
  rw [bundlerSetupOffenses, List.mem_ite_nil_right] at h
  obtain ⟨call, hcall, rfl⟩ := List.mem_map.mp h.2
  obtain ⟨hmem, hsetup⟩ := List.mem_filter.mp hcall
  have hargument : call.argument = .str "bundler/setup" := by
    rw [InclusionCall.isBundlerSetup, Bool.and_eq_true, beq_iff_eq, beq_iff_eq] at hsetup
    exact hsetup.2
  have hmodelled : call.argument ≠ .other := by
    rw [hargument]
    exact Expr.noConfusion
  exact ⟨call.placed_offense hmem hmodelled _ _, rfl, rfl⟩

namespace Specification

theorem ShellCommand.StandsIn.placed_offense {shell : ShellCommand} {content : Text}
    (h : shell.StandsIn 0 content) : (shell.offense content).Placed content := by
  obtain ⟨hread, before, after, rfl, hstart⟩ := h
  rw [Nat.zero_add] at hstart
  have hstop : shell.start + byteSize shell.literal = byteSize (before ++ shell.literal) := by
    rw [hstart, byteSize_append]
  have hpos := hread.byteSize_literal_pos
  constructor
  · show shell.start < shell.start + byteSize shell.literal
    omega
  · show shell.start + byteSize shell.literal ≤ _
    rw [hstop, byteSize_append _ after]
    omega
  · exact ⟨before, shell.literal ++ after, by rw [List.append_assoc], hstart⟩
  · exact ⟨before ++ shell.literal, after, rfl, hstop⟩
  · show shell.literal = slice shell.start (shell.start + byteSize shell.literal) _
    rw [hstop, hstart, slice_append]
  · rfl

theorem placed_of_mem_offenses {unit : SourceUnit} {offense : Offense}
    (h : offense ∈ offenses unit) :
    offense.Placed unit.content ∧ offense.rule = .gemspecGit := by
  rw [offenses_eq, List.mem_ite_nil_right] at h
  obtain ⟨shell, hshell, rfl⟩ := List.mem_map.mp h.2
  obtain ⟨block, hblock, hgit⟩ := List.mem_flatMap.mp hshell
  have hstands := standsIn_of_mem_gitCommands (liesIn_of_mem_blocks hblock) hgit
  exact ⟨hstands.placed_offense, rfl⟩

end Specification

/-! ## What a rule finds -/

-- A term, since `rw` would try to close the goal by computing the literal.
theorem Reference.prefix_requireStatement (name : Text) :
    "require \"".toList <+: requireStatement name :=
  ⟨name ++ "\"".toList, (List.append_assoc _ _ _).symm⟩

namespace ActiveRule

/-- Only a rule that can correct has corrections. -/
theorem autocorrectable_of_correction? {rule : ActiveRule} {ctx : Context} {kind : Directive}
    {argument : Expr} {correction : Correction}
    (h : rule.correction? ctx kind argument = some correction) :
    rule.id.autocorrectable = true := by
  unfold correction? at h
  split at h
  next hid => rw [hid]; rfl
  next hid => rw [hid]; rfl
  · simp at h

/-- Where a library path is hard-coded, a correction is a `require`. -/
theorem exists_replace_of_correction? {rule : ActiveRule} {ctx : Context} {kind : Directive}
    {argument : Expr} {correction : Correction} (hid : rule.id = .requireHardcodingLib)
    (h : rule.correction? ctx kind argument = some correction) :
    ∃ text, correction = .replace text ∧ "require \"".toList <+: text := by
  cases correction with
  | replace text =>
      obtain ⟨name, rfl⟩ := exists_loadName_of_replace h
      exact ⟨_, rfl, Reference.prefix_requireStatement name⟩
  | remove => simp [correction?, hid] at h

theorem placed_of_mem_offenses {rule : ActiveRule} {ctx : Context} {content : Text}
    {offense : Offense} (h : offense ∈ rule.offenses ⟨content, inclusionCalls content, ctx⟩) :
    offense.Placed content ∧ offense.rule = rule.id := by
  obtain ⟨id, allowInTests⟩ := rule
  cases id with
  | requireHardcodingLib | requireRelativeHardcodingLib | relativeRequireToLib
  | requireWithRelativePath => exact Policy.placed_of_mem_offenses h
  | bundlerSetupInTests =>
      obtain ⟨hplaced, hrule, -⟩ := placed_of_mem_bundlerSetupOffenses h
      exact ⟨hplaced, hrule⟩
  | gemspecGit => exact Specification.placed_of_mem_offenses h

theorem suitsRule_of_mem_offenses {rule : ActiveRule} {ctx : Context} {content : Text}
    {offense : Offense} (h : offense ∈ rule.offenses ⟨content, inclusionCalls content, ctx⟩) :
    offense.SuitsRule := by
  have hrule := (placed_of_mem_offenses h).2
  have hcorrection : ∀ correction ∈ offense.correction, ∃ kind argument,
      rule.correction? ctx kind argument = some correction := by
    intro correction hsome
    obtain ⟨call, -, heq, -⟩ :=
      (rule.mem_offenses_iff _ offense.span correction).mp ⟨offense, h, hsome, rfl⟩
    exact ⟨call.kind, call.argument, heq⟩
  constructor
  · intro hsome
    obtain ⟨correction, hsome⟩ := Option.ne_none_iff_exists'.mp hsome
    obtain ⟨kind, argument, heq⟩ := hcorrection correction hsome
    rw [hrule]
    exact autocorrectable_of_correction? heq
  · intro hsetup
    obtain ⟨id, allowInTests⟩ := rule
    obtain rfl : id = .bundlerSetupInTests := hrule.symm.trans hsetup
    exact (placed_of_mem_bundlerSetupOffenses h).2.2
  · intro hlib correction hsome
    obtain ⟨kind, argument, heq⟩ := hcorrection correction hsome
    exact exists_replace_of_correction? (hrule.symm.trans hlib) heq

end ActiveRule

/-! ## What a rule set finds -/

theorem Offense.le_iff {a b : Offense} :
    a.le b = true ↔ a.span.start < b.span.start ∨
      a.span.start = b.span.start ∧ a.rule.index ≤ b.rule.index := by
  rw [le]
  split <;> simp <;> omega

theorem Offense.le_trans (a b c : Offense) (hab : a.le b = true) (hbc : b.le c = true) :
    a.le c = true := by
  rw [le_iff] at hab hbc ⊢
  omega

theorem Offense.le_total (a b : Offense) : (a.le b || b.le a) = true := by
  rw [Bool.or_eq_true, le_iff, le_iff]
  omega

namespace RuleSet

theorem mem_check_iff {rules : RuleSet} {root file content : Text} {offense : Offense} :
    offense ∈ rules.check root file content ↔
      ∃ rule ∈ rules,
        offense ∈ rule.offenses ⟨content, inclusionCalls content, .ofPaths root file⟩ := by
  rw [check, offenses, List.mem_mergeSort, List.mem_flatMap]

theorem pairwise_check (rules : RuleSet) (root file content : Text) :
    (rules.check root file content).Pairwise fun a b => a.span.start < b.span.start ∨
      a.span.start = b.span.start ∧ a.rule.index ≤ b.rule.index := by
  apply (List.pairwise_mergeSort Offense.le_trans Offense.le_total _).imp
  intro a b hle
  exact Offense.le_iff.mp hle

/-- Every offense of a file is well formed, and the offenses come in the order of the content,
those at one position in the order of the rules. -/
theorem check_wellFormed (rules : RuleSet) (root file content : Text) :
    (∀ offense ∈ rules.check root file content, offense.WellFormed rules content) ∧
      (rules.check root file content).Pairwise fun a b => a.span.start < b.span.start ∨
        a.span.start = b.span.start ∧ a.rule.index ≤ b.rule.index := by
  refine ⟨?_, pairwise_check rules root file content⟩
  intro offense hoffense
  obtain ⟨rule, hrule, hmem⟩ := mem_check_iff.mp hoffense
  obtain ⟨hplaced, heq⟩ := ActiveRule.placed_of_mem_offenses hmem
  exact ⟨hplaced, ActiveRule.suitsRule_of_mem_offenses hmem,
    by rw [heq]; exact List.mem_map_of_mem hrule⟩

-- Columns count bytes, and `é` has two.
example : RuleSet.default.check "/p" "/p/spec/a_spec.rb" "é = 1; require '../lib/a'\n" =
    [⟨.requireHardcodingLib, ⟨8, 26, 1, 9⟩, "require '../lib/a'",
      some (.replace (Reference.requireStatement "a"))⟩] := by
  decide +kernel

end RuleSet

end RequireLint
