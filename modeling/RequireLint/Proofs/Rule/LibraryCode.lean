import RequireLint.Proofs.Policy.TestCode
import RequireLint.Proofs.Rule.Commented

/-!
# Offenses in library code

Library code may refer to its own files as it likes.  The policies that resolve a reference exempt
the files of the library, no file of the library is test code, and what a manifest has to keep to
does not concern it.  So only the policies that look at the text of a reference can object to a file
of the library that is no manifest.

This holds for every text that is given for the project root and for the file, whether these have a
canonical form or not.
-/

namespace RequireLint

open RequireLint.Path

namespace Context

/-- The inspected file is the library directory, or lies below it. -/
def IsLibraryCode (ctx : Context) : Prop :=
  ∃ rest, ctx.filePath = join ctx.projectRoot "lib" ++ rest ∧ Opens rest

theorem inLibrary_iff_isLibraryCode {ctx : Context} :
    ctx.inLibrary = true ↔ ctx.IsLibraryCode :=
  isWithin_join_iff (by decide) (by decide) ctx.filePath ctx.projectRoot

/-- Library code is not test code: the directories of the two are told apart by their first
letters, whatever stands before them. -/
theorem IsLibraryCode.inTestDirectory_eq_false {ctx : Context} (h : ctx.IsLibraryCode) :
    ctx.inTestDirectory = false := by
  rw [← Bool.not_eq_true]
  intro htest
  obtain ⟨dir, hdir, hfile⟩ := List.any_eq_true.mp htest
  obtain ⟨hne, hslash, hhead⟩ := plain_of_mem_testDirectories hdir
  obtain ⟨rest, hlib, -⟩ := h
  obtain ⟨rest', hdir', -⟩ := (isWithin_join_iff hne hslash _ _).mp hfile
  obtain ⟨lead, hjoin⟩ := exists_join_eq ctx.projectRoot
  rw [hlib, hjoin, hjoin, List.append_assoc, List.append_assoc] at hdir'
  obtain ⟨c, dir, rfl⟩ := List.exists_cons_of_ne_nil hne
  have hnames := (List.cons.inj (List.append_cancel_left hdir')).2
  exact hhead (congrArg List.head? hnames).symm

end Context

namespace Policy

variable {policy : Policy} {ctx : Context}

/-- A policy does not object to a file that it exempts. -/
theorem evaluate_of_exempts (h : policy.exempts ctx = true) (kind : Directive) (argument : Expr) :
    policy.evaluate kind argument ctx = .pass := by
  rw [evaluate]
  cases Reference.ofExpr? argument with
  | none => rfl
  | some reference => simp [decide, h]

theorem offenses_of_exempts (h : policy.exempts ctx = true) (rule : RuleId) (content : Text)
    (calls : List InclusionCall) : policy.offenses rule ⟨content, calls, ctx⟩ = [] := by
  apply List.filterMap_eq_nil_iff.mpr
  intro call _
  simp [evaluate_of_exempts h, Decision.pass]

end Policy

/-- A rule that does not go by the text of a reference has nothing to say on library code. -/
theorem ActiveRule.offenses_of_isLibraryCode {rule : ActiveRule} {ctx : Context}
    (hrelative : rule.id ≠ .relativeRequireToLib) (hpath : rule.id ≠ .requireWithRelativePath)
    (hfile : ctx.IsLibraryCode) (hmanifest : ctx.isManifest = false) (content : Text)
    (calls : List InclusionCall) : rule.offenses ⟨content, calls, ctx⟩ = [] := by
  have hlibrary : ctx.inLibrary = true := Context.inLibrary_iff_isLibraryCode.mpr hfile
  obtain ⟨id, allowInTests⟩ := rule
  cases id with
  | requireHardcodingLib =>
      exact Policy.offenses_of_exempts (by simp [Policy.exempts, hlibrary]) _ content calls
  | requireRelativeHardcodingLib =>
      exact Policy.offenses_of_exempts (by simp [Policy.exempts, hlibrary]) _ content calls
  | relativeRequireToLib => exact absurd rfl hrelative
  | requireWithRelativePath => exact absurd rfl hpath
  | bundlerSetupInTests =>
      have htest := hfile.inTestDirectory_eq_false
      simp [offenses, policy?, bundlerSetupOffenses, htest]
  | gemspecGit => simp [offenses, policy?, Specification.offenses, hmanifest]

namespace RuleSet

/-- Library code other than a manifest is clean under every rule set without the two rules that go
by the text of a reference. -/
theorem check_libraryCode {rules : RuleSet} (hrelative : .relativeRequireToLib ∉ rules.ids)
    (hpath : .requireWithRelativePath ∉ rules.ids) {root file : Text}
    (hfile : (Context.ofPaths root file).IsLibraryCode)
    (hmanifest : ¬ ".gemspec".toList <:+ (Context.ofPaths root file).filePath) (content : Text) :
    rules.check root file content = [] := by
  have hplain : (Context.ofPaths root file).isManifest = false := by
    rw [← Bool.not_eq_true, Context.isManifest, Text.endsWith_iff]
    exact hmanifest
  rw [List.eq_nil_iff_forall_not_mem]
  intro offense hoffense
  obtain ⟨rule, hrule, hmem⟩ := mem_check_iff.mp hoffense
  have hid : rule.id ∈ rules.ids := List.mem_map.mpr ⟨rule, hrule, rfl⟩
  rw [ActiveRule.offenses_of_isLibraryCode (ne_of_mem_of_not_mem hid hrelative)
    (ne_of_mem_of_not_mem hid hpath) hfile hplain] at hmem
  exact absurd hmem List.not_mem_nil

/-- A library file below a directory named `test`.  What it requires offends in the tests of the
same project. -/
theorem check_libraryCode_named_test :
    let rules : RuleSet := [⟨.requireHardcodingLib, false⟩, ⟨.requireRelativeHardcodingLib, false⟩,
      ⟨.bundlerSetupInTests, false⟩, ⟨.gemspecGit, false⟩]
    let file : Text := "C:\\p\\x\\..\\lib\\test\\a.rb"
    let content : Text := "require 'bundler/setup'\n"
    .relativeRequireToLib ∉ rules.ids ∧ .requireWithRelativePath ∉ rules.ids ∧
      (Context.ofPaths "C:\\p" file).IsLibraryCode ∧
      ¬ ".gemspec".toList <:+ (Context.ofPaths "C:\\p" file).filePath ∧
      rules.check "C:\\p" file content = [] ∧
      rules.check "C:\\p" "C:\\p\\test\\a.rb" content ≠ [] := by
  intro rules file content
  have hrelative : .relativeRequireToLib ∉ rules.ids := by decide
  have hpath : .requireWithRelativePath ∉ rules.ids := by decide
  have hfile : (Context.ofPaths "C:\\p" file).IsLibraryCode :=
    ⟨"/test/a.rb".toList, by decide, .inr ⟨"test/a.rb".toList, rfl⟩⟩
  have hmanifest : ¬ ".gemspec".toList <:+ (Context.ofPaths "C:\\p" file).filePath := by decide
  refine ⟨hrelative, hpath, hfile, hmanifest, ?_, ?_⟩
  · exact check_libraryCode hrelative hpath hfile hmanifest content
  · decide +kernel

end RuleSet

end RequireLint
