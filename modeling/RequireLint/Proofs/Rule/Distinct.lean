import Mathlib.Data.List.Nodup
import RequireLint.Proofs.Rule.WellFormed

/-!
# Offenses reported twice

An offense is told from the others by its rule and its span.  A rule on inclusion calls looks at
each call once, and no two calls start at one position, so it reports no offense twice.  The rule
on the manifest looks at each specification block on its own.  Where one block lies in another, a
call of git in the inner one belongs to both and is reported for both.

The offenses of a file are therefore distinct exactly when no call of git lies in two blocks of a
manifest.
-/

namespace RequireLint

/-- What an offense is told from the others by. -/
def Offense.key (offense : Offense) : RuleId × Span := (offense.rule, offense.span)

/-! ## Rule sets -/

/-- The rule sets that a program can run: the one of the defaults, and those of a configuration
under the overrides of a command line. -/
inductive RuleSet.Assembled : RuleSet → Prop
  | default : Assembled RuleSet.default
  | ofConfig {config : Config} {overrides : RuleOverrides} {rules : RuleSet}
      (h : RuleSet.ofConfig config overrides = .ok rules) : Assembled rules

/-- A rule runs at most once. -/
theorem RuleSet.Assembled.nodup_ids {rules : RuleSet} (h : rules.Assembled) : rules.ids.Nodup := by
  have hall : RuleId.all.Nodup := by decide
  cases h with
  | default => decide
  | @ofConfig config overrides _ h =>
      unfold RuleSet.ofConfig at h
      split at h
      · simp at h
      · obtain rfl := Except.ok.inj h
        simpa [ids, Function.comp_def] using hall.filter (overrides.isEnabled config)

/-! ## Inclusion calls -/

/-- Offenses that start one behind the other are told apart. -/
theorem nodup_map_key {offenses : List Offense}
    (h : offenses.Pairwise fun a b => a.span.start < b.span.start) :
    (offenses.map Offense.key).Nodup := by
  apply List.pairwise_map.mpr
  apply h.imp
  intro a b hlt hkey
  have hspan : a.span = b.span := (Prod.mk.inj hkey).2
  rw [hspan] at hlt
  omega

theorem Policy.pairwise_offenses (policy : Policy) (rule : RuleId) (ctx : Context)
    (content : Text) :
    (policy.offenses rule ⟨content, inclusionCalls content, ctx⟩).Pairwise
      fun a b => a.span.start < b.span.start := by
  apply List.pairwise_filterMap.mpr
  apply (pairwise_inclusionCalls content).imp
  intro first second hlt a ha b hb
  dsimp only at ha hb
  obtain ⟨-, ha⟩ := Option.ite_none_right_eq_some.mp ha
  obtain ⟨-, hb⟩ := Option.ite_none_right_eq_some.mp hb
  obtain rfl := Option.some.inj ha
  obtain rfl := Option.some.inj hb
  exact hlt

theorem pairwise_bundlerSetupOffenses (ctx : Context) (content : Text) :
    (bundlerSetupOffenses ⟨content, inclusionCalls content, ctx⟩).Pairwise
      fun a b => a.span.start < b.span.start := by
  rw [bundlerSetupOffenses]
  split
  · apply List.pairwise_map.mpr
    exact (pairwise_inclusionCalls content).filter _
  · exact .nil

/-! ## Calls of git -/

namespace Specification

/-- No call of git lies in two specification blocks of a content. -/
def BlocksApart (content : Text) : Prop :=
  (blocks content).Pairwise fun a b => (gitCommands content a).Disjoint (gitCommands content b)

/-- Blocks that do not overlap have no call of git in common. -/
theorem blocksApart_of_pairwise {content : Text}
    (h : (blocks content).Pairwise fun a b => a.stop ≤ b.start) : BlocksApart content := by
  apply h.imp_of_mem
  intro a b ha hb hle shell hfirst hsecond
  have hbefore := bounds_of_mem_gitCommands (liesIn_of_mem_blocks ha) hfirst
  have hbehind := bounds_of_mem_gitCommands (liesIn_of_mem_blocks hb) hsecond
  omega

/-- The calls of git are distinct exactly when no two blocks share one. -/
theorem nodup_gitCommands_iff (content : Text) :
    ((blocks content).flatMap (gitCommands content)).Nodup ↔ BlocksApart content := by
  rw [List.nodup_flatMap]
  apply and_iff_right
  intro block hblock
  apply (pairwise_gitCommands content block).imp_of_mem
  intro first second hfirst _ hle heq
  have hpos := (standsIn_of_mem_gitCommands (liesIn_of_mem_blocks hblock) hfirst).1
    |>.byteSize_literal_pos
  rw [heq] at hle hpos
  omega

/-- An offense tells which call of git it is about. -/
theorem eq_of_key_eq {content : Text} {first second : ShellCommand}
    (hfirst : first ∈ (blocks content).flatMap (gitCommands content))
    (hsecond : second ∈ (blocks content).flatMap (gitCommands content))
    (hkey : (first.offense content).key = (second.offense content).key) : first = second := by
  obtain ⟨a, ha, hfirst⟩ := List.mem_flatMap.mp hfirst
  obtain ⟨b, hb, hsecond⟩ := List.mem_flatMap.mp hsecond
  have hstands := standsIn_of_mem_gitCommands (liesIn_of_mem_blocks ha) hfirst
  apply hstands.eq_of_start_eq (standsIn_of_mem_gitCommands (liesIn_of_mem_blocks hb) hsecond)
  exact congrArg Span.start (congrArg Prod.snd hkey)

/-- The offenses of a manifest are distinct exactly when no two blocks share a call of git. -/
theorem nodup_offenses_iff (unit : SourceUnit) :
    ((offenses unit).map Offense.key).Nodup ↔
      (unit.context.isManifest = true → BlocksApart unit.content) := by
  rw [offenses_eq]
  split
  next hmanifest =>
    -- The offenses repeat what the calls of git do, since they are made from them one by one.
    rw [List.map_map, ← nodup_gitCommands_iff]
    constructor
    · intro hnodup _
      exact hnodup.of_map _
    · intro hnodup
      apply (hnodup hmanifest).map_on
      intro first hfirst second hsecond hkey
      exact eq_of_key_eq hfirst hsecond hkey
  next hmanifest =>
    apply iff_of_true
    · exact .nil
    · intro hmanifest'
      exact absurd hmanifest' hmanifest

end Specification

/-! ## All rules -/

theorem ActiveRule.nodup_offenses_iff (rule : ActiveRule) (ctx : Context) (content : Text) :
    ((rule.offenses ⟨content, inclusionCalls content, ctx⟩).map Offense.key).Nodup ↔
      (rule.id = .gemspecGit → ctx.isManifest = true → Specification.BlocksApart content) := by
  obtain ⟨id, allowInTests⟩ := rule
  cases id with
  | requireHardcodingLib | requireRelativeHardcodingLib | relativeRequireToLib
  | requireWithRelativePath =>
      exact iff_of_true (nodup_map_key (Policy.pairwise_offenses _ _ ctx content)) (by simp)
  | bundlerSetupInTests =>
      exact iff_of_true (nodup_map_key (pairwise_bundlerSetupOffenses ctx content)) (by simp)
  | gemspecGit =>
      rw [forall_prop_of_true rfl]
      exact Specification.nodup_offenses_iff ⟨content, inclusionCalls content, ctx⟩

namespace RuleSet

/-- The offenses of a file are distinct exactly when each rule reports each of its offenses
once. -/
theorem nodup_check_iff {rules : RuleSet} (h : rules.ids.Nodup) (root file content : Text) :
    ((rules.check root file content).map Offense.key).Nodup ↔
      ∀ rule ∈ rules, ((rule.offenses
        ⟨content, inclusionCalls content, .ofPaths root file⟩).map Offense.key).Nodup := by
  rw [check, offenses, ((List.mergeSort_perm _ _).map _).nodup_iff, List.map_flatMap,
    List.nodup_flatMap, and_iff_left]
  apply (List.pairwise_map.mp h).imp
  intro a b hne key ha hb
  obtain ⟨first, hfirst, rfl⟩ := List.mem_map.mp ha
  obtain ⟨second, hsecond, hkey⟩ := List.mem_map.mp hb
  apply hne
  rw [← (ActiveRule.placed_of_mem_offenses hfirst).2,
    ← (ActiveRule.placed_of_mem_offenses hsecond).2]
  exact (congrArg Prod.fst hkey).symm

/-- The offenses of a file are told apart by rule and span exactly when no call of git lies in two
specification blocks, if the rule on them runs and the file is a manifest.  Blocks that do not
overlap are enough. -/
theorem check_distinct_iff {rules : RuleSet} (hrules : rules.Assembled)
    (root file content : Text) :
    (((rules.check root file content).map Offense.key).Nodup ↔
        (.gemspecGit ∈ rules.ids → (Context.ofPaths root file).isManifest = true →
          Specification.BlocksApart content)) ∧
      ((Specification.blocks content).Pairwise (fun a b => a.stop ≤ b.start) →
        ((rules.check root file content).map Offense.key).Nodup) := by
  have hiff : ((rules.check root file content).map Offense.key).Nodup ↔
      (.gemspecGit ∈ rules.ids → (Context.ofPaths root file).isManifest = true →
        Specification.BlocksApart content) := by
    rw [nodup_check_iff hrules.nodup_ids]
    simp only [ActiveRule.nodup_offenses_iff]
    constructor
    · intro h hgit
      obtain ⟨rule, hmem, hid⟩ := List.mem_map.mp hgit
      exact h rule hmem hid
    · intro h rule hmem hid
      exact h (List.mem_map.mpr ⟨rule, hmem, hid⟩)
  refine ⟨hiff, ?_⟩
  intro hpairwise
  rw [hiff]
  intro _ _
  exact Specification.blocksApart_of_pairwise hpairwise

/-- Two blocks one after the other, with a call of git in each. -/
theorem check_distinct_two_blocks :
    let content : Text :=
      "Gem::Specification.new do |s|\n  s.files = `git ls-files`\nend\n" ++
        "Gem::Specification.new do |s|\n  s.files = `git ls-files`\nend\n"
    RuleSet.default.Assembled ∧
      (Specification.blocks content).Pairwise (fun a b => a.stop ≤ b.start) ∧
      ((RuleSet.default.check "/p" "/p/a.gemspec" content).map Offense.key).Nodup := by
  intro content
  have hblocks : (Specification.blocks content).Pairwise (fun a b => a.stop ≤ b.start) := by
    decide +kernel
  refine ⟨.default, hblocks, ?_⟩
  exact (check_distinct_iff .default "/p" "/p/a.gemspec" content).2 hblocks

/-- A block in a block: the call of git in the inner one is reported for both. -/
theorem check_nested_blocks :
    let content : Text :=
      "Gem::Specification.new do |s|\n  Gem::Specification.new do |t|\n" ++
        "    t.files = `git ls-files`\n  end\nend\n"
    ¬ ((RuleSet.default.check "/p" "/p/a.gemspec" content).map Offense.key).Nodup := by
  intro content hnodup
  have hdefault : RuleSet.default.ids.Nodup := Assembled.default.nodup_ids
  have hgit : ActiveRule.mk .gemspecGit false ∈ RuleSet.default := by decide
  have honce := (nodup_check_iff hdefault _ _ _).mp hnodup _ hgit
  have htwice : ¬ ((ActiveRule.offenses ⟨.gemspecGit, false⟩ ⟨content, inclusionCalls content,
      .ofPaths "/p" "/p/a.gemspec"⟩).map Offense.key).Nodup := by
    decide +kernel
  exact htwice honce

end RuleSet

end RequireLint
