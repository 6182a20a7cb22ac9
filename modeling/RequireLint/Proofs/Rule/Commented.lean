import RequireLint.Proofs.Rule.Selection
import RequireLint.Proofs.Source.Commented

/-!
# Offenses in comments

The rules on inclusion calls see what the reader has found, and the reader leaves out all that is
commented out.  The rule on calls of git searches the content itself.  It asks whether the line
of a command starts with a `#` and nothing more, so a command behind a trailing comment, in a
block comment or below the end marker is reported all the same.

Main statement: this is the only way in which commented-out code is reported.
-/

namespace RequireLint

open Text

/-! ## Calls of git -/

namespace Specification

theorem exists_cons_of_shellLiteral?_eq_some {t opening inner closing : Text}
    (h : shellLiteral? t = some (opening, inner, closing)) :
    ∃ c rest, t = c :: rest ∧ c ≠ '#' ∧ isBlank c = false := by
  obtain ⟨hliteral, more, rfl⟩ := shellLiteral?_eq_some_iff.mp h
  cases hliteral with
  | ticks hfree hline => exact ⟨backtick, _, rfl, by decide, by decide⟩
  | bracketed hbracket hfree => exact ⟨'%', _, rfl, by decide, by decide⟩

/-- A call of git never stands on a line that starts with a comment. -/
theorem not_isComment_of_mem_gitCommands {content : Text} {block : ByteRange}
    {shell : ShellCommand} (hblock : block.LiesIn content) (h : shell ∈ gitCommands content block)
    {above : List Line} {line : Line} (hline : OnLine content shell.start above line) :
    ¬ line.IsComment := by
  have hstands := standsIn_of_mem_gitCommands hblock h
  obtain ⟨⟨opening, closing, -, hread⟩, before, after, rfl, hstart⟩ := hstands
  have hbefore : (trimStart (lineBefore (before ++ shell.literal ++ after) shell.start)).startsWith
      "#" = false := by
    have hfilter := (List.mem_filter.mp h).2
    rw [Bool.and_eq_true, Bool.not_eq_true'] at hfilter
    exact hfilter.2
  obtain ⟨c, rest, hrest, hhash, hblank⟩ := exists_cons_of_shellLiteral?_eq_some (hread after)
  rw [Nat.zero_add] at hstart
  rw [List.append_assoc, hrest, hstart] at hline hbefore
  obtain ⟨behind, more, hne, hwhole, hsplit, hcut⟩ := hline.exists_split
  obtain ⟨d, behind, rfl⟩ := List.exists_cons_of_ne_nil hne
  obtain ⟨rfl, -⟩ := List.cons.inj hsplit
  rw [hcut, ← Bool.not_eq_true, startsWith_hash_iff] at hbefore
  rw [Line.IsComment, hwhole, head?_trimStart_cons hblank]
  cases hfirst : (trimStart (line.before (byteSize before))).head? with
  | none => simpa using hhash
  | some first =>
      rw [hfirst] at hbefore
      simpa using hbefore

theorem mem_offenses_iff {unit : SourceUnit} {offense : Offense} :
    offense ∈ offenses unit ↔ unit.context.isManifest = true ∧
      ∃ block ∈ blocks unit.content, ∃ shell ∈ gitCommands unit.content block,
        shell.offense unit.content = offense := by
  rw [offenses_eq, List.mem_ite_nil_right, List.mem_map]
  apply and_congr_right
  intro _
  constructor
  · rintro ⟨shell, hmem, heq⟩
    obtain ⟨block, hblock, hshell⟩ := List.mem_flatMap.mp hmem
    exact ⟨block, hblock, shell, hshell, heq⟩
  · rintro ⟨block, hblock, shell, hshell, heq⟩
    exact ⟨shell, List.mem_flatMap.mpr ⟨block, hblock, hshell⟩, heq⟩

end Specification

/-- The offenses that are not about calls of git stand at inclusion calls. -/
theorem ActiveRule.exists_call_of_mem_offenses {rule : ActiveRule} {unit : SourceUnit}
    {offense : Offense} (h : offense ∈ rule.offenses unit) (hrule : rule.id ≠ .gemspecGit) :
    ∃ call ∈ unit.calls, offense.span = call.span := by
  obtain ⟨id, allowInTests⟩ := rule
  cases id with
  | requireHardcodingLib | requireRelativeHardcodingLib | relativeRequireToLib
  | requireWithRelativePath =>
      obtain ⟨call, hcall, hspan, -⟩ := Policy.exists_call_of_mem_offenses h
      exact ⟨call, hcall, hspan⟩
  | bundlerSetupInTests =>
      obtain ⟨call, hcall, hspan, -⟩ := exists_call_of_mem_bundlerSetupOffenses h
      exact ⟨call, hcall, hspan⟩
  | gemspecGit => exact absurd rfl hrule

/-! ## All rules -/

namespace RuleSet

variable {rules : RuleSet} {root file content : Text}

theorem not_commentedOut_of_mem_check {offense : Offense}
    (h : offense ∈ rules.check root file content) (hrule : offense.rule ≠ .gemspecGit) :
    ¬ CommentedOut content offense.span.start := by
  obtain ⟨rule, -, hmem⟩ := mem_check_iff.mp h
  rw [ActiveRule.rule_of_mem_offenses hmem] at hrule
  obtain ⟨call, hcall, hspan⟩ := ActiveRule.exists_call_of_mem_offenses hmem hrule
  rw [hspan]
  exact not_commentedOut_of_mem_inclusionCalls hcall

/-- The offenses on calls of git, as one looks for them in a content. -/
theorem mem_check_gemspecGit_iff {offense : Offense} :
    offense ∈ rules.check root file content ∧ offense.rule = .gemspecGit ↔
      .gemspecGit ∈ rules.ids ∧ (Context.ofPaths root file).isManifest = true ∧
        ∃ block ∈ Specification.blocks content, ∃ shell ∈ Specification.gitCommands content block,
          shell.offense content = offense := by
  rw [mem_check_iff]
  constructor
  · rintro ⟨⟨rule, hrule, hmem⟩, hid⟩
    rw [ActiveRule.rule_of_mem_offenses hmem] at hid
    refine ⟨List.mem_map.mpr ⟨rule, hrule, hid⟩, ?_⟩
    obtain ⟨id, allowInTests⟩ := rule
    obtain rfl : id = .gemspecGit := hid
    exact Specification.mem_offenses_iff.mp hmem
  · rintro ⟨hid, hgit⟩
    obtain ⟨⟨id, allowInTests⟩, hrule, rfl⟩ := List.mem_map.mp hid
    have hmem : offense ∈ Specification.offenses
        ⟨content, inclusionCalls content, .ofPaths root file⟩ :=
      Specification.mem_offenses_iff.mpr hgit
    exact ⟨⟨_, hrule, hmem⟩, (Specification.placed_of_mem_offenses hmem).2⟩

/-- No offense starts on a line that starts with a comment. -/
theorem not_isComment_of_mem_check {offense : Offense}
    (h : offense ∈ rules.check root file content) {above : List Line} {line : Line}
    (hline : OnLine content offense.span.start above line) : ¬ line.IsComment := by
  by_cases hrule : offense.rule = .gemspecGit
  · obtain ⟨-, -, block, hblock, shell, hshell, rfl⟩ := mem_check_gemspecGit_iff.mp ⟨h, hrule⟩
    exact Specification.not_isComment_of_mem_gitCommands
      (Specification.liesIn_of_mem_blocks hblock) hshell hline
  · intro hcomment
    exact not_commentedOut_of_mem_check h hrule (.inl ⟨above, line, hline, hcomment⟩)

/-- No offense is commented out, unless it is about a call of git behind a trailing comment, in a
block comment or below the end marker. -/
theorem check_not_commentedOut_iff (rules : RuleSet) (root file content : Text) :
    (∀ offense ∈ rules.check root file content,
        (offense.rule ≠ .gemspecGit → ¬ CommentedOut content offense.span.start) ∧
        ∀ above line, OnLine content offense.span.start above line → ¬ line.IsComment) ∧
      ((∀ offense ∈ rules.check root file content,
          ¬ CommentedOut content offense.span.start) ↔
        (.gemspecGit ∈ rules.ids → (Context.ofPaths root file).isManifest = true →
          ∀ block ∈ Specification.blocks content,
          ∀ shell ∈ Specification.gitCommands content block,
            ¬ BeyondCode content shell.start)) := by
  refine ⟨?_, ?_, ?_⟩
  · intro offense hoffense
    exact ⟨not_commentedOut_of_mem_check hoffense,
      fun _ _ hline => not_isComment_of_mem_check hoffense hline⟩
  · intro hall hid hmanifest block hblock shell hshell hbeyond
    have hoffense : shell.offense content ∈ rules.check root file content :=
      (mem_check_gemspecGit_iff.mpr ⟨hid, hmanifest, block, hblock, shell, hshell, rfl⟩).1
    exact hall _ hoffense (.inr hbeyond)
  · intro hgit offense hoffense hcommented
    rcases hcommented with ⟨above, line, hline, hcomment⟩ | hbeyond
    · exact not_isComment_of_mem_check hoffense hline hcomment
    · by_cases hrule : offense.rule = .gemspecGit
      · obtain ⟨hid, hmanifest, block, hblock, shell, hshell, rfl⟩ :=
          mem_check_gemspecGit_iff.mp ⟨hoffense, hrule⟩
        exact hgit hid hmanifest block hblock shell hshell hbeyond
      · exact not_commentedOut_of_mem_check hoffense hrule (.inr hbeyond)

/-- A call of git behind a trailing comment is reported. -/
theorem check_reports_trailing_comment :
    let content : Text := "Gem::Specification.new do |s|\n  s.files = [] # `git ls-files`\nend\n"
    ∃ offense ∈ RuleSet.default.check "/p" "/p/a.gemspec" content,
      CommentedOut content offense.span.start := by
  intro content
  have hcheck : RuleSet.default.check "/p" "/p/a.gemspec" content =
      [⟨.gemspecGit, ⟨47, 61, 2, 18⟩, "`git ls-files`", none⟩] := by
    decide +kernel
  have hlines : lines content = [⟨0, "Gem::Specification.new do |s|\n",
        "  s.files = [] # `git ls-files`\nend\n"⟩] ++
      ⟨30, "  s.files = [] # `git ls-files`\n", "end\n"⟩ :: [⟨62, "end\n", []⟩] := by
    decide +kernel
  have hline : OnLine content 47 _ _ := ⟨⟨_, hlines⟩, by decide, by decide⟩
  rw [hcheck]
  refine ⟨_, List.mem_singleton_self _, .inr ⟨_, _, hline, .inl ?_⟩⟩
  exact ⟨"  s.files = [] ", " ", by decide, by decide⟩

end RuleSet

end RequireLint
