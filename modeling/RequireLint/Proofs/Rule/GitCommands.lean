import RequireLint.Proofs.Rule.Blocks
import RequireLint.Proofs.Rule.Commented

/-!
# Calls of git in specification blocks

The shell commands of a block are found in one pass from its start to its end, and behind each the
pass goes on after its literal.  The short form of a literal never reaches over the end of a line.
So in a block without the long form the pass enters every line outside of literals, and a literal
that is alone on its line is found.

Main statement: a manifest is reported for shell literals in its specification blocks only, and for
all that run git and that nothing else in the block can hide.
-/

namespace RequireLint

open Text

namespace Specification

/-! ## The pass over a block -/

/-- A literal of the short form is found where no literal of the long form opens and no other
literal opens before it on its line. -/
theorem mem_shellCommandsFrom {start : Nat} {lead command after : Text}
    (hlead : backtick ∉ lastLine lead) (hliteral : IsShellLiteral [backtick] command [backtick])
    (hlong : ¬ "%x".toList <:+: lead ++ ([backtick] ++ command ++ [backtick] ++ after)) :
    ⟨start + byteSize lead, [backtick] ++ command ++ [backtick], command⟩ ∈
      shellCommandsFrom start (lead ++ ([backtick] ++ command ++ [backtick] ++ after)) := by
  induction hlength : lead.length using Nat.strong_induction_on generalizing start lead with
  | h length ih =>
      -- What the pass takes in one step ends before the literal, so the step leaves the literal.
      have hstep : ∀ piece more : Text, lead = piece ++ more → piece ≠ [] →
          ⟨start + byteSize lead, [backtick] ++ command ++ [backtick], command⟩ ∈
            shellCommandsFrom (start + byteSize piece)
              (more ++ ([backtick] ++ command ++ [backtick] ++ after)) := by
        rintro piece more rfl hpiece
        have hpos := List.length_pos_iff.mpr hpiece
        rw [byteSize_append, ← Nat.add_assoc]
        apply ih more.length _ _ _ rfl
        · rw [← hlength, List.length_append]
          omega
        · exact fun hmem => hlead ((lastLine_suffix piece more).subset hmem)
        · rw [List.append_assoc] at hlong
          exact fun hlater => hlong (hlater.trans (List.suffix_append piece _).isInfix)
      cases lead with
      | nil =>
          rw [List.nil_append,
            shellCommandsFrom_of_eq_some start (hliteral.shellLiteral?_append after) rfl]
          exact List.mem_cons_self
      | cons c lead =>
          cases hread : shellLiteral? (c :: lead ++
              ([backtick] ++ command ++ [backtick] ++ after)) with
          | none =>
              rw [List.cons_append] at hread ⊢
              rw [shellCommandsFrom_of_eq_none start hread]
              exact hstep [c] lead rfl (List.cons_ne_nil c [])
          | some found =>
              obtain ⟨opening, inner, closing⟩ := found
              obtain ⟨hfound, hprefix⟩ := shellLiteral?_eq_some_iff.mp hread
              cases hfound with
              | @bracketed bracket _ hbracket hfree =>
                  have hopens : "%x".toList <+: ['%', 'x', bracket.1] ++ inner ++ [bracket.2] :=
                    ⟨[bracket.1] ++ inner ++ [bracket.2], by simp⟩
                  exact absurd (hopens.trans hprefix).isInfix hlong
              | ticks hfree hline =>
                  rcases List.prefix_or_prefix_of_prefix hprefix (List.prefix_append _ _) with
                    ⟨more, hmore⟩ | hshort
                  · have hlater := hstep _ more hmore.symm (by simp)
                    rw [← hmore, List.append_assoc] at hread hlater ⊢
                    rw [shellCommandsFrom_of_eq_some start hread rfl]
                    exact List.mem_cons_of_mem _ hlater
                  · -- The literal would open on the line of the one that is looked for.
                    have hfeed : '\n' ∉ c :: lead := by
                      intro hmem
                      have hfound := hshort.subset hmem
                      simp [hline, backtick] at hfound
                    obtain ⟨rfl, -⟩ := List.cons_prefix_cons.mp hshort
                    rw [lastLine_of_no_feed hfeed] at hlead
                    exact absurd List.mem_cons_self hlead

theorem mem_gitCommands_iff {lead inside rest : Text} {shell : ShellCommand} :
    shell ∈ gitCommands (lead ++ inside ++ rest) ⟨byteSize lead, byteSize (lead ++ inside)⟩ ↔
      shell ∈ shellCommandsFrom (byteSize lead) inside ∧ "git".toList <+: shell.command ∧
        onCommentLine (lead ++ inside ++ rest) shell.start = false := by
  rw [gitCommands, slice_append, List.mem_filter, Bool.and_eq_true, startsWith_iff,
    Bool.not_eq_true', onCommentLine]

end Specification

/-! ## Manifests -/

/-- An offense that reports a piece of a content as a call of git. -/
structure Offense.ReportsGit (offense : Offense) (lead source : Text) : Prop where
  rule_eq : offense.rule = .gemspecGit
  source_eq : offense.source = source
  start_eq : offense.span.start = byteSize lead
  stop_eq : offense.span.stop = byteSize (lead ++ source)

namespace RuleSet

open Specification

variable {rules : RuleSet} {root file content : Text}

/-- A reported call of git is a shell literal in a specification block. -/
theorem exists_isBlock_of_mem_check {offense : Offense}
    (h : offense ∈ rules.check root file content) (hrule : offense.rule = .gemspecGit) :
    ∃ lead inside rest before opening command closing after, IsBlock content lead inside rest ∧
      inside = before ++ (opening ++ command ++ closing) ++ after ∧
      IsShellLiteral opening command closing ∧ "git".toList <+: command ∧
      offense.ReportsGit (lead ++ before) (opening ++ command ++ closing) := by
  obtain ⟨-, -, block, hblock, shell, hshell, rfl⟩ := mem_check_gemspecGit_iff.mp ⟨h, hrule⟩
  obtain ⟨lead, inside, rest, hinside, rfl⟩ := mem_blocks_iff.mp hblock
  obtain rfl := hinside.split
  obtain ⟨hmem, hgit, -⟩ := mem_gitCommands_iff.mp hshell
  obtain ⟨⟨opening, closing, hliteral, hread⟩, before, after, hsplit, hstart⟩ :=
    standsIn_of_mem_shellCommandsFrom hmem
  rw [hliteral] at hsplit
  refine ⟨lead, inside, rest, before, opening, shell.command, closing, after, hinside, hsplit,
    (shellLiteral?_eq_some_iff.mp (hread [])).1, hgit, rfl, hliteral, ?_, ?_⟩
  · rw [byteSize_append, ← hstart]
    rfl
  · rw [byteSize_append, byteSize_append, ← hstart, ← hliteral]
    rfl

/-- A literal that is alone on its line is reported. -/
theorem exists_mem_check_of_isLine {lead inside rest above line below before command behind : Text}
    (hid : .gemspecGit ∈ rules.ids) (hmanifest : (Context.ofPaths root file).isManifest = true)
    (hblock : IsBlock content lead inside rest) (hlong : ¬ "%x".toList <:+: inside)
    (hinside : inside = above ++ line ++ below)
    (hline : IsLine content (lead ++ above) line (below ++ rest))
    (hticks : line.count backtick = 2) (hcode : ¬ StartsComment line)
    (hliteral : line = before ++ ([backtick] ++ command ++ [backtick]) ++ behind)
    (hgit : "git".toList <+: command) :
    ∃ offense ∈ rules.check root file content,
      offense.ReportsGit (lead ++ above ++ before) ([backtick] ++ command ++ [backtick]) := by
  subst hinside hliteral
  have hfree : backtick ∉ before ∧ backtick ∉ command := by
    rw [← List.count_eq_zero, ← List.count_eq_zero]
    simp only [List.count_append, List.count_singleton_self] at hticks
    omega
  have hfeed : '\n' ∉ before ∧ '\n' ∉ command := by
    have hnone := hline.no_feed
    simp only [List.mem_append, not_or] at hnone
    exact ⟨hnone.1.1, hnone.1.2.1.2⟩
  have hlast : lastLine (above ++ before) = before := hline.opens.of_append.lastLine_append hfeed.1
  have hsplit : above ++ (before ++ ([backtick] ++ command ++ [backtick]) ++ behind) ++ below =
      above ++ before ++ ([backtick] ++ command ++ [backtick] ++ (behind ++ below)) := by simp
  have hmem : ⟨byteSize lead + byteSize (above ++ before), [backtick] ++ command ++ [backtick],
      command⟩ ∈ shellCommandsFrom (byteSize lead)
        (above ++ (before ++ ([backtick] ++ command ++ [backtick]) ++ behind) ++ below) := by
    rw [hsplit] at hlong ⊢
    exact mem_shellCommandsFrom (by rw [hlast]; exact hfree.1) (.ticks hfree.2 hfeed.2) hlong
  rw [← byteSize_append, ← List.append_assoc lead] at hmem
  have hcomment : onCommentLine content (byteSize (lead ++ above ++ before)) = false := by
    rw [List.append_assoc before, List.append_assoc, List.append_assoc] at hline hcode
    rw [← Bool.not_eq_true, onCommentLine_iff hline (by decide) (by decide)]
    exact hcode
  obtain rfl := hblock.split
  have hfound := mem_gitCommands_iff.mpr ⟨hmem, hgit, hcomment⟩
  have hrange := mem_blocks_iff.mpr ⟨_, _, _, hblock, rfl⟩
  refine ⟨_, (mem_check_gemspecGit_iff.mpr ⟨hid, hmanifest, _, hrange, _, hfound, rfl⟩).1, rfl, rfl,
    rfl, ?_⟩
  rw [byteSize_append (lead ++ above ++ before)]
  rfl

/-- What is reported as a call of git in a manifest is a shell literal in a specification block, and
in a block without the long form every literal that is alone on its line is reported. -/
theorem check_git_inBlocks (hid : .gemspecGit ∈ rules.ids)
    (hmanifest : ".gemspec".toList <:+ (Context.ofPaths root file).filePath) (content : Text) :
    (∀ offense ∈ rules.check root file content, offense.rule = .gemspecGit →
      ∃ lead inside rest before opening command closing after, IsBlock content lead inside rest ∧
        inside = before ++ (opening ++ command ++ closing) ++ after ∧
        IsShellLiteral opening command closing ∧ "git".toList <+: command ∧
        offense.ReportsGit (lead ++ before) (opening ++ command ++ closing)) ∧
    ∀ lead inside rest, IsBlock content lead inside rest → ¬ "%x".toList <:+: inside →
      ∀ above line below, inside = above ++ line ++ below →
        IsLine content (lead ++ above) line (below ++ rest) →
        line.count backtick = 2 → ¬ StartsComment line →
        ∀ before command behind, line = before ++ ([backtick] ++ command ++ [backtick]) ++ behind →
          "git".toList <+: command →
          ∃ offense ∈ rules.check root file content,
            offense.ReportsGit (lead ++ above ++ before) ([backtick] ++ command ++ [backtick]) := by
  have hfile : (Context.ofPaths root file).isManifest = true := endsWith_iff.mpr hmanifest
  refine ⟨fun offense hoffense hrule => exists_isBlock_of_mem_check hoffense hrule, ?_⟩
  intro lead inside rest hblock hlong above line below hinside hline hticks hcode before command
    behind hliteral hgit
  exact exists_mem_check_of_isLine hid hfile hblock hlong hinside hline hticks hcode hliteral hgit

/-- A manifest that calls git in a block within its block.  The end of the inner block does not
close the outer one. -/
theorem check_git_inBlocks_of_nested :
    let behind : Text := " do |s|"
    let above : Text := "\n  s.files = Dir.chdir(d) do\n"
    let line : Text := "    `git ls-files`"
    let below : Text := "\n  end\n"
    let content := constructor ++ behind ++ above ++ line ++ below ++ "end\n".toList
    .gemspecGit ∈ default.ids ∧
      ".gemspec".toList <:+ (Context.ofPaths "/p" "/p/a.gemspec").filePath ∧
      ∃ offense ∈ default.check "/p" "/p/a.gemspec" content, offense.source = "`git ls-files`" := by
  intro behind above line below content
  have hid : .gemspecGit ∈ default.ids := by decide
  have hmanifest : ".gemspec".toList <:+ (Context.ofPaths "/p" "/p/a.gemspec").filePath := by decide
  let header : Header := ⟨[], [], behind, above ++ line ++ below ++ "end\n".toList⟩
  have hheader : header.StandsIn content := by
    refine ⟨⟨?_, .inl rfl, by decide, .inr ⟨_, rfl⟩⟩, continuesWord_eq_false_iff.mp (by decide), ?_⟩
    · simp [content, header, Header.line]
    · rw [StartsComment]
      decide
  have hopening : UpToBrace behind behind [] := ⟨(List.append_nil behind).symm, by decide, .inl rfl⟩
  have hclosing : closingStart (indentation header.line) 0 header.below =
      0 + byteSize (above ++ line ++ below) := by
    decide +kernel
  have hblock : IsBlock content header.lead (behind ++ (above ++ line ++ below)) "end\n" :=
    ⟨header, hheader, .lines hopening (holdsDo_iff.mpr (by decide)) rfl
      ((closesFirst_iff rfl).mpr hclosing)⟩
  have hlong : ¬ "%x".toList <:+: behind ++ (above ++ line ++ below) := by decide
  have hline : IsLine content (header.lead ++ (behind ++ above)) line
      (below ++ "end\n".toList) := by
    refine ⟨?_, ?_, by decide, .inr ⟨_, rfl⟩⟩
    · simp [content, header, Header.lead]
    · exact .inr ⟨header.lead ++ (behind ++ "\n  s.files = Dir.chdir(d) do".toList), rfl⟩
  have hcode : ¬ StartsComment line := by
    rw [StartsComment]
    decide
  have hinside : behind ++ (above ++ line ++ below) = behind ++ above ++ line ++ below := by simp
  obtain ⟨offense, hoffense, hreports⟩ := (check_git_inBlocks hid hmanifest content).2 _ _ _ hblock
    hlong _ _ _ hinside hline (by decide) hcode "    " "git ls-files" [] rfl (by decide)
  exact ⟨hid, hmanifest, offense, hoffense, hreports.source_eq⟩

end RuleSet

end RequireLint
