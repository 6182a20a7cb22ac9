import RequireLint.Proofs.Policy.Returns
import RequireLint.Proofs.Rule.ReturnBlocks
import RequireLint.Proofs.Rule.WellFormed
import RequireLint.Proofs.Source.ReturnLines

/-!
# Verdicts and line ends

The verdict on an offense is its rule, its line, its column and the kind of its correction.  A
content whose lines end in carriage returns and line feeds gets the same verdicts, in the same
order, as the content with line feeds alone.

Spans, source texts and replacements may differ: positions move by the carriage returns before
them, and the literal of an argument may hold a line end.  The order of the offenses can be told
from their verdicts, since positions of one content come in the order of their lines and columns.
-/

namespace RequireLint

open Text

/-! ## Verdicts -/

inductive Correction.Kind where
  | replace
  | remove
deriving Repr, DecidableEq

/-- What a correction does, whatever text it writes. -/
def Correction.kind : Correction → Kind
  | .replace _ => .replace
  | .remove => .remove

/-- What is found about an offense, apart from the texts. -/
structure Offense.Verdict where
  rule : RuleId
  line : Nat
  column : Nat
  correction : Option Correction.Kind
deriving Repr, DecidableEq

def Offense.verdict (offense : Offense) : Offense.Verdict :=
  ⟨offense.rule, offense.span.line, offense.span.column, offense.correction.map Correction.kind⟩

/-- Whether a verdict comes no later than another: by line and column, then by rule. -/
def Offense.Verdict.le (a b : Offense.Verdict) : Bool :=
  decide (a.line < b.line ∨ a.line = b.line ∧
    (a.column < b.column ∨ a.column = b.column ∧ a.rule.index ≤ b.rule.index))

theorem Offense.le_eq_verdict_le {a b : Offense} {content : Text} (ha : a.Placed content)
    (hb : b.Placed content) : a.le b = a.verdict.le b.verdict := by
  rw [Bool.eq_iff_iff, Offense.le_iff, Verdict.le, decide_eq_true_eq]
  simp only [verdict]
  rcases Nat.lt_trichotomy a.span.start b.span.start with hlt | heq | hgt
  · have hbefore := locate_lt_of_lt content hlt
    rw [ha.locate_eq, hb.locate_eq] at hbefore
    dsimp only at hbefore
    omega
  · have hsame := ha.locate_eq.symm.trans ((congrArg (locate content) heq).trans hb.locate_eq)
    obtain ⟨hline, hcolumn⟩ := Prod.mk.inj hsame
    omega
  · have hbehind := locate_lt_of_lt content hgt
    rw [ha.locate_eq, hb.locate_eq] at hbehind
    dsimp only at hbehind
    omega

/-! ## The rules one by one -/

/-- What is made of calls alike is alike. -/
theorem filterMap_eq_of_seen {β : Type} {f g : InclusionCall → Option β}
    (hfg : ∀ {call call' : InclusionCall}, call'.seen = call.seen → f call' = g call)
    {calls calls' : List InclusionCall}
    (h : calls'.map InclusionCall.seen = calls.map InclusionCall.seen) :
    calls'.filterMap f = calls.filterMap g := by
  induction calls generalizing calls' with
  | nil => simp_all
  | cons call calls ih =>
      obtain ⟨call', later, rfl, hcall, hlater⟩ := List.map_eq_cons_iff.mp h
      rw [List.filterMap_cons, List.filterMap_cons, hfg hcall, ih hlater]

namespace InclusionCall

variable {call call' : InclusionCall} (h : call'.seen = call.seen)
include h

theorem verdict_offense_of_seen (rule : RuleId) (content content' : Text)
    {correction correction' : Option Correction}
    (hcorrection : correction'.map Correction.kind = correction.map Correction.kind) :
    (call'.offense rule content' correction').verdict =
      (call.offense rule content correction).verdict := by
  simp only [seen, Prod.mk.injEq] at h
  obtain ⟨-, -, hline, hcolumn⟩ := h
  simp only [offense, Offense.verdict, hline, hcolumn, hcorrection]

theorem isBundlerSetup_of_seen : call'.isBundlerSetup = call.isBundlerSetup := by
  simp only [seen, Prod.mk.injEq] at h
  obtain ⟨hkind, hargument, -⟩ := h
  have hword : '\n' ∉ "bundler/setup".toList := by decide
  rw [isBundlerSetup, isBundlerSetup, hkind, Bool.eq_iff_iff, Bool.and_eq_true, Bool.and_eq_true,
    beq_iff_eq, beq_iff_eq, beq_iff_eq, ← Expr.dropReturns_eq_str_iff hword, hargument,
    Expr.dropReturns_eq_str_iff hword]

end InclusionCall

section Rules

variable (content : Text) {ctx : Context}

theorem Policy.verdicts_withReturns (hroot : '\n' ∉ ctx.libraryRoot) (policy : Policy)
    (rule : RuleId) :
    (policy.offenses rule ⟨withReturns content, inclusionCalls (withReturns content), ctx⟩).map
        Offense.verdict =
      (policy.offenses rule ⟨content, inclusionCalls content, ctx⟩).map Offense.verdict := by
  rw [offenses, offenses, List.map_filterMap, List.map_filterMap]
  apply filterMap_eq_of_seen _ (seen_inclusionCalls content)
  intro call call' hcall
  have hkind : call'.kind = call.kind := congrArg Prod.fst hcall
  have hargument : call'.argument.dropReturns = call.argument.dropReturns :=
    congrArg (·.2.1) hcall
  have hjudged := seen_evaluate_of_dropReturns hroot policy call.kind hargument
  obtain ⟨hoffense, hreplacement⟩ := Prod.mk.inj hjudged
  rw [hkind]
  dsimp only
  rw [hoffense]
  split
  · apply congrArg some
    apply InclusionCall.verdict_offense_of_seen hcall
    -- The replacements may differ in their texts, but there is one for both calls or for neither.
    have hkinds : ∀ replacement : Option Text,
        (replacement.map Correction.replace).map Correction.kind =
          if replacement.isSome then some .replace else none := by
      intro replacement
      cases replacement <;> rfl
    rw [hkinds, hkinds, hreplacement]
  · rfl

theorem verdicts_bundlerSetupOffenses_withReturns :
    (bundlerSetupOffenses
        ⟨withReturns content, inclusionCalls (withReturns content), ctx⟩).map Offense.verdict =
      (bundlerSetupOffenses ⟨content, inclusionCalls content, ctx⟩).map Offense.verdict := by
  rw [bundlerSetupOffenses, bundlerSetupOffenses]
  split
  · rw [List.map_map, List.map_map, ← List.filterMap_eq_map, ← List.filterMap_eq_map,
      List.filterMap_filter, List.filterMap_filter]
    apply filterMap_eq_of_seen _ (seen_inclusionCalls content)
    intro call call' hcall
    rw [InclusionCall.isBundlerSetup_of_seen hcall]
    split
    · exact congrArg some (InclusionCall.verdict_offense_of_seen hcall _ _ _ rfl)
    · rfl
  · rfl

theorem Specification.verdicts_withReturns (calls calls' : List InclusionCall) :
    (offenses ⟨withReturns content, calls', ctx⟩).map Offense.verdict =
      (offenses ⟨content, calls, ctx⟩).map Offense.verdict := by
  rw [offenses_eq, offenses_eq]
  dsimp only
  split
  · rw [flatMap_gitCommands_withReturns, List.map_map, List.map_map, List.map_map]
    apply List.map_congr_left
    intro shell hshell
    obtain ⟨block, hblock, hmem⟩ := List.mem_flatMap.mp hshell
    obtain ⟨-, before, after, hcontent, hstart⟩ :=
      standsIn_of_mem_gitCommands (liesIn_of_mem_blocks hblock) hmem
    have hboundary : IsBoundary content shell.start := by
      rw [hcontent, List.append_assoc, hstart, Nat.zero_add]
      exact isBoundary_append _ _
    simp only [Function.comp_apply, ShellCommand.offense, ShellCommand.withReturns, Offense.verdict,
      locate_shifted hboundary]
  · rfl

theorem ActiveRule.verdicts_withReturns (hroot : '\n' ∉ ctx.libraryRoot) (rule : ActiveRule) :
    (rule.offenses ⟨withReturns content, inclusionCalls (withReturns content), ctx⟩).map
        Offense.verdict =
      (rule.offenses ⟨content, inclusionCalls content, ctx⟩).map Offense.verdict := by
  obtain ⟨id, allowInTests⟩ := rule
  cases id with
  | requireHardcodingLib | requireRelativeHardcodingLib | relativeRequireToLib
  | requireWithRelativePath => exact Policy.verdicts_withReturns content hroot _ _
  | bundlerSetupInTests => exact verdicts_bundlerSetupOffenses_withReturns content
  | gemspecGit => exact Specification.verdicts_withReturns content _ _

end Rules

namespace RuleSet

/-- The verdicts on a content do not depend on what its lines end in: for every rule set, every
file and every root on a path without line feeds. -/
theorem check_withReturns {root : Text} (hroot : '\n' ∉ root) (rules : RuleSet)
    (file content : Text) :
    (rules.check root file (withReturns content)).map Offense.verdict =
      (rules.check root file content).map Offense.verdict := by
  have hlibrary := Context.libraryRoot_no_feed hroot file
  have hsorted : ∀ content : Text, (rules.check root file content).map Offense.verdict =
      ((rules.flatMap fun rule => rule.offenses
        ⟨content, inclusionCalls content, .ofPaths root file⟩).map Offense.verdict).mergeSort
          Offense.Verdict.le := by
    intro content
    -- The sort compares offenses of one content, which their verdicts put in the same order.
    apply List.map_mergeSort
    intro a ha b hb
    obtain ⟨first, -, hfirst⟩ := List.mem_flatMap.mp ha
    obtain ⟨second, -, hsecond⟩ := List.mem_flatMap.mp hb
    exact Offense.le_eq_verdict_le (ActiveRule.placed_of_mem_offenses hfirst).1
      (ActiveRule.placed_of_mem_offenses hsecond).1
  rw [hsorted, hsorted, List.map_flatMap, List.map_flatMap]
  congr 2
  funext rule
  exact ActiveRule.verdicts_withReturns content hlibrary rule

/-- An argument that goes on over two lines. -/
theorem check_withReturns_argument_over_lines :
    let content : Text := "x = 1\nrequire File.expand_path(\n  '../lib/a', __dir__)\n"
    '\n' ∉ "/p".toList ∧
      (RuleSet.default.check "/p" "/p/spec/a_spec.rb" (withReturns content)).map Offense.verdict =
        [⟨.requireHardcodingLib, 2, 1, some .replace⟩] := by
  intro content
  have hroot : '\n' ∉ "/p".toList := by decide
  refine ⟨hroot, ?_⟩
  rw [check_withReturns hroot RuleSet.default "/p/spec/a_spec.rb" content]
  decide +kernel

end RuleSet

end RequireLint
