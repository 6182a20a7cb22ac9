import RequireLint.Proofs.Rule.WellFormed

/-!
# Rules do not influence each other

All rules write to one list, which is then sorted by position and by rule.  The sort keeps the
order of offenses that it does not tell apart, so leaving out a rule leaves out its offenses and
changes nothing else.  A rule that is chosen is set as the configuration says, whatever else is
chosen.
-/

namespace RequireLint

/-! ## Sorting a part of a list -/

section MergeSort

variable {α : Type} {le : α → α → Bool}

/-- In a sorted list an element has one place where only larger ones come before it. -/
theorem append_inj_of_le {a : α} {before after before' after' : List α}
    (hsplit : before ++ after = before' ++ after')
    (hbefore : ∀ b ∈ before, le a b = false) (hbefore' : ∀ b ∈ before', le a b = false)
    (hafter : ∀ b ∈ after, le a b = true) (hafter' : ∀ b ∈ after', le a b = true) :
    before = before' ∧ after = after' := by
  rcases List.append_eq_append_iff.mp hsplit with
    ⟨between, rfl, rfl⟩ | ⟨between, rfl, rfl⟩
  · cases between with
    | nil => simp
    | cons b between =>
        have hfalse := hbefore' b (by simp)
        rw [hafter b (by simp)] at hfalse
        exact absurd hfalse (by decide)
  · cases between with
    | nil => simp
    | cons b between =>
        have hfalse := hbefore b (by simp)
        rw [hafter' b (by simp)] at hfalse
        exact absurd hfalse (by decide)

variable (htrans : ∀ a b c, le a b = true → le b c = true → le a c = true)
  (htotal : ∀ a b, (le a b || le b a) = true)
include htrans htotal

/-- Where the sort puts the head of a list, as seen from the sorted tail. -/
theorem exists_mergeSort_cons (a : α) (l : List α) :
    ∃ before after, (a :: l).mergeSort le = before ++ a :: after ∧
      l.mergeSort le = before ++ after ∧ (∀ b ∈ before, le a b = false) ∧
      ∀ b ∈ after, le a b = true := by
  obtain ⟨before, after, hcons, htail, hbefore⟩ := List.mergeSort_cons htrans htotal a l
  refine ⟨before, after, hcons, htail, ?_, ?_⟩
  · intro b hb
    simpa using hbefore b hb
  · have hsorted := List.pairwise_mergeSort htrans htotal (a :: l)
    rw [hcons] at hsorted
    intro b hb
    exact List.rel_of_pairwise_cons (List.pairwise_append.mp hsorted).2.1 hb

/-- The sort is stable, so it makes no difference whether elements are left out before it or
after it. -/
theorem filter_mergeSort (p : α → Bool) (l : List α) :
    (l.mergeSort le).filter p = (l.filter p).mergeSort le := by
  induction l with
  | nil => simp
  | cons a l ih =>
      obtain ⟨before, after, hcons, htail, hbefore, hafter⟩ :=
        exists_mergeSort_cons htrans htotal a l
      rw [htail, List.filter_append] at ih
      rw [hcons, List.filter_append]
      by_cases ha : p a = true
      · obtain ⟨before', after', hcons', htail', hbefore', hafter'⟩ :=
          exists_mergeSort_cons htrans htotal a (l.filter p)
        rw [htail'] at ih
        obtain ⟨rfl, rfl⟩ := append_inj_of_le ih
          (fun b hb => hbefore b (List.mem_of_mem_filter hb)) hbefore'
          (fun b hb => hafter b (List.mem_of_mem_filter hb)) hafter'
        rw [List.filter_cons_of_pos ha, List.filter_cons_of_pos ha, hcons']
      · rw [List.filter_cons_of_neg ha, List.filter_cons_of_neg ha, ih]

end MergeSort

/-! ## What one rule finds -/

theorem Policy.exists_call_of_mem_offenses {policy : Policy} {rule : RuleId} {unit : SourceUnit}
    {offense : Offense} (h : offense ∈ policy.offenses rule unit) :
    ∃ call ∈ unit.calls, offense.span = call.span ∧ offense.rule = rule ∧
      (policy.evaluate call.kind call.argument unit.context).offense = true := by
  obtain ⟨call, hcall, hoffense⟩ := List.mem_filterMap.mp h
  obtain ⟨hoffends, heq⟩ := Option.ite_none_right_eq_some.mp hoffense
  obtain rfl := Option.some.inj heq
  exact ⟨call, hcall, rfl, rfl, hoffends⟩

theorem exists_call_of_mem_bundlerSetupOffenses {unit : SourceUnit} {offense : Offense}
    (h : offense ∈ bundlerSetupOffenses unit) :
    ∃ call ∈ unit.calls, offense.span = call.span ∧ offense.rule = .bundlerSetupInTests := by
  rw [bundlerSetupOffenses, List.mem_ite_nil_right] at h
  obtain ⟨call, hcall, rfl⟩ := List.mem_map.mp h.2
  exact ⟨call, List.mem_of_mem_filter hcall, rfl, rfl⟩

/-- The offenses that a rule finds are its own, whatever calls it is shown. -/
theorem ActiveRule.rule_of_mem_offenses {rule : ActiveRule} {unit : SourceUnit}
    {offense : Offense} (h : offense ∈ rule.offenses unit) : offense.rule = rule.id := by
  obtain ⟨id, allowInTests⟩ := rule
  cases id with
  | requireHardcodingLib | requireRelativeHardcodingLib | relativeRequireToLib
  | requireWithRelativePath =>
      obtain ⟨call, -, -, hrule, -⟩ := Policy.exists_call_of_mem_offenses h
      exact hrule
  | bundlerSetupInTests =>
      obtain ⟨call, -, -, hrule⟩ := exists_call_of_mem_bundlerSetupOffenses h
      exact hrule
  | gemspecGit => exact (Specification.placed_of_mem_offenses h).2

/-- Of what a rule finds, a choice of rules keeps everything or nothing. -/
theorem ActiveRule.filter_offenses (rule : ActiveRule) (unit : SourceUnit)
    (chosen : RuleId → Bool) :
    (rule.offenses unit).filter (chosen ·.rule) =
      if chosen rule.id then rule.offenses unit else [] := by
  split
  next hchosen =>
    apply List.filter_eq_self.mpr
    intro offense hmem
    rw [rule_of_mem_offenses hmem]
    exact hchosen
  next hchosen =>
    apply List.filter_eq_nil_iff.mpr
    intro offense hmem
    rw [rule_of_mem_offenses hmem]
    exact hchosen

/-! ## What the chosen rules find -/

/-- The rule of an offense and where it starts. -/
def Offense.mark (offense : Offense) : RuleId × Nat := (offense.rule, offense.span.start)

/-- Whether an offense comes no later than another, by what is known of them. -/
def Offense.markLe (a b : RuleId × Nat) : Bool :=
  if a.2 = b.2 then a.1.index ≤ b.1.index else decide (a.2 < b.2)

/-- A command line that asks for every rule. -/
def RuleOverrides.everything : RuleOverrides := ⟨RuleId.all, []⟩

namespace RuleSet

/-- A rule set may be thinned out before it runs or after. -/
theorem offenses_filter (rules : RuleSet) (unit : SourceUnit) (chosen : RuleId → Bool) :
    offenses (rules.filter (chosen ·.id)) unit =
      (offenses rules unit).filter (chosen ·.rule) := by
  rw [offenses, offenses, filter_mergeSort Offense.le_trans Offense.le_total]
  congr 1
  induction rules with
  | nil => rfl
  | cons rule rules ih =>
      rw [List.flatMap_cons, List.filter_append, ← ih, rule.filter_offenses]
      by_cases hchosen : chosen rule.id = true
      · simp only [List.filter_cons, if_pos hchosen, List.flatMap_cons]
      · simp only [List.filter_cons, if_neg hchosen, List.nil_append]

variable {config : Config}

/-- A configuration that names known rules only gives a rule set under all overrides. -/
theorem ofConfig_eq_ok (hknown : ∀ entry ∈ config.rules, (RuleId.ofName? entry.1).isSome = true)
    (overrides : RuleOverrides) :
    ofConfig config overrides = .ok ((RuleId.all.filter (overrides.isEnabled config)).map fun id =>
      ⟨id, config.allowsInTests id⟩) := by
  have hnone : unknownName? config.rules = none := by
    apply List.find?_eq_none.mpr
    intro name hname
    obtain ⟨entry, hentry, rfl⟩ := List.mem_map.mp hname
    rw [Option.isNone_iff_eq_none, ← Option.not_isSome_iff_eq_none, not_not]
    exact hknown entry hentry
  rw [ofConfig, hnone]

/-- Every choice of rules finds what all rules together find, less the offenses against rules
that were not chosen. -/
theorem offenses_ofConfig
    (hknown : ∀ entry ∈ config.rules, (RuleId.ofName? entry.1).isSome = true)
    (overrides : RuleOverrides) (unit : SourceUnit) :
    ∃ rules full, ofConfig config overrides = .ok rules ∧
      ofConfig config .everything = .ok full ∧ full.ids = RuleId.all ∧
      rules.offenses unit =
        (full.offenses unit).filter fun offense => rules.ids.contains offense.rule := by
  have hall : RuleId.all.filter (RuleOverrides.everything.isEnabled config) = RuleId.all := by
    apply List.filter_eq_self.mpr
    intro id _
    cases id <;> rfl
  have hfull := ofConfig_eq_ok hknown .everything
  rw [hall] at hfull
  refine ⟨_, _, ofConfig_eq_ok hknown overrides, hfull, ?_, ?_⟩
  · simp [ids, Function.comp_def]
  · have hchosen : (ids ((RuleId.all.filter (overrides.isEnabled config)).map fun id =>
        ActiveRule.mk id (config.allowsInTests id))).contains = overrides.isEnabled config := by
      funext id
      have hmem : id ∈ RuleId.all := by cases id <;> decide
      simp [ids, Function.comp_def, hmem]
    rw [hchosen, ← offenses_filter, List.filter_map]
    rfl

/-- The rules that object and the positions where they do so, in the order of the offenses.  The
order looks at nothing else. -/
theorem map_mark_offenses (rules : RuleSet) (unit : SourceUnit) :
    (rules.offenses unit).map Offense.mark =
      ((rules.flatMap fun rule => rule.offenses unit).map Offense.mark).mergeSort
        Offense.markLe := by
  apply List.map_mergeSort
  intro offense _ other _
  rfl

/-- One rule is switched off by the configuration, one by the command line, and two of those
that run object to the same statement. -/
theorem offenses_ofConfig_without_gemspecGit :
    let config : Config :=
      ⟨none, .default, [("gemspec-git", ⟨some false, none⟩),
        ("relative-require-to-lib", ⟨some true, none⟩)]⟩
    let content : Text := "require 'bundler/setup'; require '../lib/a'\n"
    let unit : SourceUnit :=
      ⟨content, inclusionCalls content, .ofPaths "/p" "/p/spec/a_spec.rb"⟩
    (∀ entry ∈ config.rules, (RuleId.ofName? entry.1).isSome = true) ∧
      ∃ rules full, ofConfig config ⟨[], [.bundlerSetupInTests]⟩ = .ok rules ∧
        ofConfig config .everything = .ok full ∧ full.ids = RuleId.all ∧
        rules.ids =
          [.requireHardcodingLib, .requireRelativeHardcodingLib, .relativeRequireToLib] ∧
        (full.offenses unit).map Offense.mark =
          [(.bundlerSetupInTests, 0), (.requireHardcodingLib, 25), (.relativeRequireToLib, 25),
            (.requireWithRelativePath, 25)] ∧
        (rules.offenses unit).map Offense.mark =
          [(.requireHardcodingLib, 25), (.relativeRequireToLib, 25)] ∧
        rules.offenses unit =
          (full.offenses unit).filter fun offense => rules.ids.contains offense.rule := by
  intro config content unit
  have hknown : ∀ entry ∈ config.rules, (RuleId.ofName? entry.1).isSome = true := by
    decide
  obtain ⟨rules, full, hrules, hfull, hids, hoffenses⟩ :=
    offenses_ofConfig hknown ⟨[], [.bundlerSetupInTests]⟩ unit
  have hrules' : rules = [⟨.requireHardcodingLib, false⟩, ⟨.requireRelativeHardcodingLib, false⟩,
      ⟨.relativeRequireToLib, false⟩] := Except.ok.inj (hrules.symm.trans (by rfl))
  have hfull' : full = RuleId.all.map fun id => ⟨id, false⟩ :=
    Except.ok.inj (hfull.symm.trans (by rfl))
  have hchosen : rules.ids =
      [.requireHardcodingLib, .requireRelativeHardcodingLib, .relativeRequireToLib] := by
    rw [hrules']
    rfl
  have hall : (full.offenses unit).map Offense.mark =
      [(.bundlerSetupInTests, 0), (.requireHardcodingLib, 25), (.relativeRequireToLib, 25),
        (.requireWithRelativePath, 25)] := by
    have hfound : (full.flatMap fun rule => rule.offenses unit).map Offense.mark =
        [(.requireHardcodingLib, 25), (.relativeRequireToLib, 25), (.requireWithRelativePath, 25),
          (.bundlerSetupInTests, 0)] := by
      rw [hfull']
      decide +kernel
    rw [map_mark_offenses, hfound]
    simp [List.mergeSort, Offense.markLe, RuleId.index]
  refine ⟨hknown, rules, full, hrules, hfull, hids, hchosen, hall, ?_, hoffenses⟩
  calc (rules.offenses unit).map Offense.mark
      = ((full.offenses unit).map Offense.mark).filter fun mark => rules.ids.contains mark.1 := by
        rw [hoffenses, List.filter_map]
        rfl
    _ = [(.requireHardcodingLib, 25), (.relativeRequireToLib, 25)] := by
        rw [hall, hchosen]
        rfl

end RuleSet

end RequireLint
