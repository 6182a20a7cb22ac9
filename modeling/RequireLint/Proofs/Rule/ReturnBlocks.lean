import RequireLint.Proofs.Rule.Specification
import RequireLint.Proofs.Text.Shift

/-!
# Specification blocks over lines with carriage returns

The header of a block, the word or the brace that opens it and the line that closes it are found at
the same places when the lines of a manifest end in carriage returns, and so are the calls of git in
the block.  All positions are shifted; a call of git may hold line ends itself.
-/

namespace RequireLint

open Text

/-- A range of a content when its lines end in carriage returns. -/
def ByteRange.shifted (content : Text) (range : ByteRange) : ByteRange :=
  ⟨Text.shifted content range.start, Text.shifted content range.stop⟩

namespace Specification

/-! ## Headers -/

theorem continuesWord_withReturns (t : Text) :
    continuesWord (withReturns t) = continuesWord t := by
  rw [continuesWord_eq, any_head?_withReturns (by decide) (by decide), continuesWord_eq]

theorem isHeader_withReturns (t : Text) : isHeader (withReturns t) = isHeader t := by
  rw [isHeader, dropPrefix?_withReturns (by decide), isHeader]
  cases dropPrefix? constructor t with
  | none => rfl
  | some after => simp only [Option.map_some, continuesWord_withReturns]

theorem onCommentLine_shifted {content : Text} {position : Nat} (h : IsBoundary content position) :
    onCommentLine (withReturns content) (shifted content position) =
      onCommentLine content position := by
  rw [onCommentLine, lineBefore_shifted h, onCommentLine]

/-- What follows a header starts at the shifted position. -/
theorem shifted_header {content : Text} {position : Nat}
    (h : position ∈ positionsFrom isHeader 0 content) :
    IsBoundary content position ∧ shifted content position + byteSize constructor =
      shifted content (position + byteSize constructor) := by
  obtain ⟨before, rest, rfl, rfl, hheader⟩ := exists_of_mem_positionsFrom h
  rw [Nat.zero_add]
  refine ⟨isBoundary_append before rest, ?_⟩
  cases hafter : dropPrefix? constructor rest with
  | none => simp [isHeader, hafter] at hheader
  | some after =>
      obtain rfl := dropPrefix?_eq_some.mp hafter
      rw [shifted_append, shifted_add, shifted_append]
      rfl

theorem headers_withReturns (content : Text) :
    headers (withReturns content) = (headers content).map (shifted content) := by
  have hpositions := positionsFrom_withReturns isHeader_withReturns (fun _ => rfl) [] content
  rw [withReturns_nil, byteSize_nil, List.nil_append] at hpositions
  rw [headers_eq, hpositions, headers_eq, List.filter_map, List.map_map, List.map_map]
  have hfilter : (positionsFrom isHeader 0 content).filter
      ((!onCommentLine (withReturns content) ·) ∘ shifted content) =
      (positionsFrom isHeader 0 content).filter (!onCommentLine content ·) := by
    apply List.filter_congr
    intro position hposition
    exact congrArg (!·) (onCommentLine_shifted (shifted_header hposition).1)
  rw [hfilter]
  apply List.map_congr_left
  intro position hposition
  exact (shifted_header (List.mem_of_mem_filter hposition)).2

/-! ## Openers -/

theorem doWord?_append_return (line : Text) (inWord : Bool) (offset : Nat) :
    doWord? inWord offset (line ++ ['\r']) = doWord? inWord offset line := by
  rw [doWord?_append (by decide), doWord?, Option.or_none]

theorem brace?_append_return (line : Text) (offset : Nat) :
    brace? offset (line ++ ['\r']) = brace? offset line := by
  induction line generalizing offset with
  | nil => simp [brace?]
  | cons c rest ih => rw [List.cons_append, brace?, ih, brace?]

theorem balancedSize_withReturns (depth : Nat) (t : Text) :
    balancedSize depth (withReturns t) = shifted t (balancedSize depth t) := by
  induction t generalizing depth with
  | nil => rfl
  | cons c t ih =>
      have hlater : ∀ n, shifted (c :: t) (c.utf8Size + n) =
          byteSize (withReturns [c]) + shifted t n := shifted_add [c] t
      have hend : shifted (c :: t) c.utf8Size = byteSize (withReturns [c]) := shifted_append [c] t
      by_cases hc : c = '\n'
      · -- Neither of the two characters of a line end is a brace.
        subst hc
        simp only [withReturns_feed, balancedSize, ih]
        rw [if_neg (by decide), if_neg (by decide), if_neg (by decide), if_neg (by decide),
          if_neg (by decide), if_neg (by decide), hlater, withReturns_feed]
        simp [Nat.add_assoc]
      · rw [withReturns_cons hc, withReturns_nil] at hlater hend
        rw [withReturns_cons hc, balancedSize, balancedSize]
        simp only [ih]
        split
        · exact (hlater _).symm
        · split
          · split
            · exact hend.symm
            · exact (hlater _).symm
          · exact (hlater _).symm

theorem closes_withReturns (indent : Nat) (line : Text) :
    closes indent (withReturns line) = closes indent line := by
  have hindentation : indentation (withReturns line) = indentation line := by
    rw [indentation, takeWhile_withReturns (by decide) (by decide), indentation]
  have hend : startsWithEnd (withReturns line) = startsWithEnd line := by
    rw [startsWithEnd, dropWhile_withReturns (by decide) (by decide),
      dropPrefix?_withReturns (by decide), startsWithEnd]
    cases dropPrefix? "end" (line.dropWhile isInlineBlank) with
    | none => rfl
    | some after =>
        cases after with
        | nil => rfl
        | cons c after =>
            by_cases hc : c = '\n'
            · rw [hc]
              rfl
            · rw [Option.map_some, withReturns_cons hc]
  rw [closes, hindentation, hend, closes]

/-! ## Shell commands -/

theorem until?_withReturns {close : Char} (hfeed : close ≠ '\n') (hreturn : close ≠ '\r')
    (t : Text) :
    until? close (withReturns t) =
      (until? close t).map fun (inner, after) => (withReturns inner, withReturns after) := by
  induction t with
  | nil => rfl
  | cons c t ih =>
      by_cases hc : c = '\n'
      · rw [hc, withReturns_feed, until?, until?, ih, until?, if_neg hreturn.symm,
          if_neg hfeed.symm, if_neg hfeed.symm, Option.map_map, Option.map_map, Option.map_map]
        rfl
      · rw [withReturns_cons hc, until?, ih, until?]
        split
        · rfl
        · rw [Option.map_map, Option.map_map]
          congr 1
          funext cut
          exact congrArg (·, withReturns cut.2) (withReturns_cons hc cut.1).symm

/-- The long form of a shell command stands in brackets. -/
def bracketed? : Text → Option (Text × Text × Text)
  | 'x' :: c :: rest =>
    match brackets.find? fun pair => pair.1 = c with
    | none => none
    | some (_, close) => (until? close rest).map fun (inner, _) => (['%', 'x', c], inner, [close])
  | _ => none

/-- The short form of a shell command stands on one line. -/
def quoted? (rest : Text) : Option (Text × Text × Text) :=
  match until? backtick rest with
  | some (inner, _) => if inner.any (· = '\n') then none else some ([backtick], inner, [backtick])
  | none => none

theorem shellLiteral?_cons (c : Char) (rest : Text) :
    shellLiteral? (c :: rest) =
      if c = '%' then bracketed? rest else if c = backtick then quoted? rest else none := by
  have hbacktick : '%' ≠ backtick := by decide
  unfold shellLiteral?
  split
  next d more heq =>
    obtain ⟨rfl, rfl⟩ := List.cons.inj heq
    rfl
  next d more hother heq =>
    obtain ⟨rfl, rfl⟩ := List.cons.inj heq
    by_cases hc : c = '%'
    · subst hc
      rw [if_neg hbacktick, if_pos rfl, bracketed?]
      intro d later hrest
      exact hother d later rfl hrest
    · rw [if_neg hc]
      split
      next hc =>
        rw [hc]
        rfl
      next => rfl
  next heq => simp at heq

theorem bracketed?_of_ne {c : Char} (hc : c ≠ 'x') (rest : Text) :
    bracketed? (c :: rest) = none := by
  rw [bracketed?]
  intro d more heq
  exact absurd (List.cons.inj heq).1 hc

theorem bracketed?_withReturns (t : Text) :
    bracketed? (withReturns t) = (bracketed? t).map fun (opening, inner, closing) =>
      (withReturns opening, withReturns inner, withReturns closing) := by
  cases t with
  | nil => rfl
  | cons c t =>
      by_cases hc : c = '\n'
      · rw [hc, withReturns_feed, bracketed?_of_ne (by decide), bracketed?_of_ne (by decide)]
        rfl
      by_cases hx : c = 'x'
      · subst hx
        rw [withReturns_cons hc]
        cases t with
        | nil => rfl
        | cons d rest =>
            by_cases hd : d = '\n'
            · rw [hd]
              rfl
            rw [withReturns_cons hd, bracketed?, bracketed?]
            cases hbracket : brackets.find? fun pair => pair.1 = d with
            | none => rfl
            | some pair =>
                have hclose : ∀ pair ∈ brackets, pair.2 ≠ '\n' ∧ pair.2 ≠ '\r' := by decide
                obtain ⟨hfeed, hreturn⟩ := hclose pair (List.mem_of_find?_eq_some hbracket)
                have hopening : withReturns ['%', 'x', d] = ['%', 'x', d] := by
                  rw [withReturns_cons (by decide), withReturns_cons (by decide),
                    withReturns_cons hd, withReturns_nil]
                have hclosing : withReturns [pair.2] = [pair.2] := withReturns_cons hfeed []
                simp only [until?_withReturns hfeed hreturn, Option.map_map, Function.comp_def,
                  hopening, hclosing]
      · rw [withReturns_cons hc, bracketed?_of_ne hx, bracketed?_of_ne hx]
        rfl

theorem quoted?_withReturns (t : Text) :
    quoted? (withReturns t) = (quoted? t).map fun (opening, inner, closing) =>
      (withReturns opening, withReturns inner, withReturns closing) := by
  have hany : ∀ inner : Text, (withReturns inner).any (· = '\n') = inner.any (· = '\n') := by
    intro inner
    rw [Bool.eq_iff_iff]
    simpa using feed_mem_withReturns
  rw [quoted?, until?_withReturns (by decide) (by decide), quoted?]
  cases until? backtick t with
  | none => rfl
  | some cut =>
      simp only [Option.map_some, hany]
      split <;> rfl

theorem shellLiteral?_withReturns (t : Text) :
    shellLiteral? (withReturns t) = (shellLiteral? t).map fun (opening, inner, closing) =>
      (withReturns opening, withReturns inner, withReturns closing) := by
  cases t with
  | nil => rfl
  | cons c t =>
      by_cases hc : c = '\n'
      · subst hc
        rw [withReturns_feed, shellLiteral?_cons, shellLiteral?_cons, if_neg (by decide),
          if_neg (by decide), if_neg (by decide), if_neg (by decide), Option.map_none]
      · rw [withReturns_cons hc, shellLiteral?_cons, shellLiteral?_cons, bracketed?_withReturns,
          quoted?_withReturns]
        split
        · rfl
        · split <;> rfl

/-- A shell command of a content when its lines end in carriage returns. -/
def ShellCommand.withReturns (content : Text) (shell : ShellCommand) : ShellCommand :=
  ⟨shifted content shell.start, Text.withReturns shell.literal, Text.withReturns shell.command⟩

/-- The scan finds the same shell commands. -/
theorem shellCommandsFrom_withReturns (lead t more : Text) :
    shellCommandsFrom (byteSize (withReturns lead)) (withReturns t) =
      (shellCommandsFrom (byteSize lead) t).map
        (ShellCommand.withReturns (lead ++ t ++ more)) := by
  induction hlength : t.length using Nat.strong_induction_on generalizing lead t with
  | h length ih =>
      cases t with
      | nil => rw [withReturns_nil, shellCommandsFrom, shellCommandsFrom, List.map_nil]
      | cons c rest =>
          have hreturns := shellLiteral?_withReturns (c :: rest)
          cases hliteral : shellLiteral? (c :: rest) with
          | none =>
              have hlater := ih rest.length (by simp [← hlength]) (lead ++ [c]) rest rfl
              rw [List.append_assoc lead, List.singleton_append, withReturns_append,
                byteSize_append, byteSize_append, byteSize_cons c, byteSize_nil,
                Nat.add_zero] at hlater
              rw [hliteral, Option.map_none] at hreturns
              rw [shellCommandsFrom_of_eq_none _ hliteral, ← hlater]
              by_cases hc : c = '\n'
              · -- The scan passes the carriage return and the line feed one by one.
                subst hc
                have hfeed : shellLiteral? ('\n' :: Text.withReturns rest) = none := by
                  rw [shellLiteral?_cons, if_neg (by decide), if_neg (by decide)]
                rw [withReturns_feed] at hreturns
                rw [withReturns_feed, shellCommandsFrom_of_eq_none _ hreturns,
                  shellCommandsFrom_of_eq_none _ hfeed, Nat.add_assoc]
                rfl
              · rw [withReturns_cons hc] at hreturns
                rw [withReturns_cons hc, shellCommandsFrom_of_eq_none _ hreturns,
                  withReturns_cons hc]
                rfl
          | some literal =>
              obtain ⟨opening, inner, closing⟩ := literal
              obtain ⟨hread, after, hsplit, -⟩ := exists_of_shellLiteral?_cons 0 hliteral
              have hlt : after.length < length := by
                have hpos := List.length_pos_iff.mpr hread.literal_ne_nil
                have hsum := congrArg List.length hsplit
                rw [List.length_append] at hsum
                dsimp only at hpos
                omega
              have hlater := ih _ hlt (lead ++ (opening ++ inner ++ closing)) after rfl
              have hsplit' := congrArg Text.withReturns hsplit
              rw [withReturns_append, withReturns_append, withReturns_append] at hsplit'
              rw [hliteral, Option.map_some] at hreturns
              rw [shellCommandsFrom_of_eq_some _ hreturns hsplit',
                shellCommandsFrom_of_eq_some _ hliteral hsplit, List.map_cons]
              simp only [← withReturns_append, ← byteSize_append, hlater, hsplit]
              rw [List.append_assoc lead _ after]
              have hposition : shifted (lead ++ (opening ++ inner ++ closing ++ after) ++ more)
                  (byteSize lead) = byteSize (Text.withReturns lead) := by
                rw [List.append_assoc, shifted_append]
              exact congrArg (ShellCommand.mk · _ _ :: _) hposition.symm

theorem gitCommands_withReturns {content : Text} {block : ByteRange} (h : block.LiesIn content) :
    gitCommands (withReturns content) (block.shifted content) =
      (gitCommands content block).map (ShellCommand.withReturns content) := by
  obtain ⟨start, stop⟩ := block
  obtain ⟨lead, old, rest, rfl, hstart, hstop⟩ := h
  dsimp only at hstart hstop
  subst hstart hstop
  have hblock : ByteRange.shifted (lead ++ old ++ rest) ⟨byteSize lead, byteSize (lead ++ old)⟩ =
      ⟨byteSize (withReturns lead), byteSize (withReturns lead ++ withReturns old)⟩ := by
    rw [ByteRange.shifted, shifted_append, List.append_assoc, shifted_append, withReturns_append]
  rw [hblock, gitCommands, withReturns_append, withReturns_append]
  dsimp only
  rw [slice_append, shellCommandsFrom_withReturns lead old rest, List.filter_map, gitCommands]
  dsimp only
  rw [slice_append]
  congr 1
  apply List.filter_congr
  intro shell hshell
  obtain ⟨-, before, after, rfl, hposition⟩ := standsIn_of_mem_shellCommandsFrom hshell
  have hboundary : IsBoundary (lead ++ (before ++ shell.literal ++ after) ++ rest) shell.start :=
    ⟨lead ++ before, shell.literal ++ after ++ rest, by simp, by rw [hposition, byteSize_append]⟩
  have hcomment := onCommentLine_shifted hboundary
  rw [onCommentLine, onCommentLine, withReturns_append, withReturns_append] at hcomment
  rw [Function.comp, ShellCommand.withReturns, startsWith_withReturns (by decide), hcomment]

/-! ## Blocks -/

theorem opener?_append_return (line : Text) : opener? (line ++ ['\r']) = opener? line := by
  rw [opener?, doWord?_append_return, brace?_append_return, opener?]

theorem indentation_append_return (line : Text) :
    indentation (line ++ ['\r']) = indentation line := by
  have hblank : ['\r'].takeWhile isInlineBlank = [] := rfl
  rw [indentation, List.takeWhile_append, hblank, indentation]
  split <;> simp_all

/-- The line feed behind a header counts as a line of its own, which closes no block. -/
theorem find?_closes_feed (indent start : Nat) (t : Text) :
    ((linesFrom start ('\n' :: t)).find? fun l => closes indent l.whole) =
      (linesFrom (start + 1) t).find? fun l => closes indent l.whole := by
  rw [linesFrom_feed, List.find?_cons]
  rfl

/-- The line that closes a word block stays the same line. -/
theorem find?_closes_withReturns (lead : Text) (indent : Nat) (later : Text) :
    ((linesFrom (byteSize (withReturns lead ++ ['\r'])) ('\n' :: withReturns later)).find?
        fun l => closes indent l.whole).map (·.start) =
      (((linesFrom (byteSize lead) ('\n' :: later)).find? fun l => closes indent l.whole).map
        (·.start)).map (shifted (lead ++ '\n' :: later)) := by
  have hlater := linesFrom_withReturns (lead ++ ['\n']) later
  rw [List.append_assoc, List.singleton_append, withReturns_append, byteSize_append lead] at hlater
  have hbehind : byteSize (withReturns lead ++ ['\r']) + 1 =
      byteSize (withReturns lead ++ withReturns ['\n']) := by
    rw [byteSize_append, byteSize_append]
    rfl
  rw [find?_closes_feed, find?_closes_feed, hbehind, hlater, List.find?_map, Option.map_map,
    Option.map_map]
  simp only [Function.comp_def, Line.withReturns, closes_withReturns]
  rfl

theorem Opener.block_brace_withReturns {lead line below line' below' : Text} {offset : Nat}
    (hbrace : brace? 0 line = some offset) (hline : '\n' ∉ line)
    (hsplit : line' ++ below' = withReturns (line ++ below)) :
    (brace offset).block (withReturns lead) line' below' =
      ((brace offset).block lead line below).shifted (lead ++ (line ++ below)) := by
  obtain ⟨before, rest, rfl, rfl⟩ := exists_of_brace?_eq_some hbrace
  have hfree : '\n' ∉ before := fun hmem => hline (List.mem_append_left _ hmem)
  rw [List.append_assoc, withReturns_append, withReturns_of_no_feed hfree] at hsplit
  simp only [block, ByteRange.shifted, Nat.zero_add, hsplit, List.append_assoc, dropBytes_append,
    balancedSize_withReturns, Nat.add_assoc, shifted_add, shifted_append,
    withReturns_of_no_feed hfree]

theorem Opener.block_word_withReturns {lead line later : Text} (hline : '\n' ∉ line) :
    word.block (withReturns lead) (line ++ ['\r']) ('\n' :: withReturns later) =
      (word.block lead line ('\n' :: later)).shifted (lead ++ (line ++ '\n' :: later)) := by
  have hlead : withReturns lead ++ (line ++ ['\r']) = withReturns (lead ++ line) ++ ['\r'] := by
    rw [withReturns_append, withReturns_of_no_feed hline, List.append_assoc]
  have hindent : indentation (lastLine (withReturns lead) ++ (line ++ ['\r'])) =
      indentation (lastLine lead ++ line) := by
    rw [lastLine_withReturns, ← List.append_assoc, indentation_append_return]
  have hwhole : withReturns lead ++ (line ++ ['\r'] ++ '\n' :: withReturns later) =
      withReturns (lead ++ (line ++ '\n' :: later)) := by
    rw [withReturns_append, withReturns_append, withReturns_of_no_feed hline]
    simp
  rw [block, hlead, hindent, hwhole, find?_closes_withReturns, List.append_assoc,
    ← shifted_byteSize (lead ++ (line ++ '\n' :: later)), Option.getD_map, block,
    ByteRange.shifted, shifted_append]

theorem Opener.block_last_withReturns {lead line : Text} (hline : '\n' ∉ line) :
    word.block (withReturns lead) line [] =
      (word.block lead line []).shifted (lead ++ (line ++ [])) := by
  have hwhole : withReturns lead ++ (line ++ []) = withReturns (lead ++ (line ++ [])) := by
    rw [List.append_nil, withReturns_append, withReturns_of_no_feed hline]
  rw [block, block, linesFrom, linesFrom, ByteRange.shifted, shifted_append, hwhole,
    ← shifted_byteSize (lead ++ (line ++ []))]
  rfl

theorem block?_withReturns {content : Text} {header : Nat} (h : IsBoundary content header) :
    block? (withReturns content) (shifted content header) =
      (block? content header).map (ByteRange.shifted content) := by
  obtain ⟨lead, rest, rfl, rfl⟩ := h
  obtain ⟨line, below, rfl, hline, hbelow⟩ := exists_firstLine rest
  rw [block?_append hline hbelow, shifted_append, withReturns_append lead, Option.map_map]
  -- The carriage return of a line end belongs to the line of the header, unless it is the last.
  rcases hbelow with rfl | ⟨later, rfl⟩
  · have hsplit : line ++ [] = withReturns (line ++ []) := by
      rw [List.append_nil, withReturns_of_no_feed hline]
    rw [← hsplit, block?_append hline (.inl rfl)]
    apply Option.map_congr
    intro opener hopener
    cases opener with
    | word => exact Opener.block_last_withReturns hline
    | brace offset =>
        exact Opener.block_brace_withReturns (brace?_of_opener?_eq_brace hopener) hline hsplit
  · have hsplit : line ++ ['\r'] ++ '\n' :: withReturns later =
        withReturns (line ++ '\n' :: later) := by
      rw [withReturns_append, withReturns_of_no_feed hline, List.append_assoc]
      rfl
    have hreturn : '\n' ∉ line ++ ['\r'] := by
      simpa using hline
    rw [← hsplit, block?_append hreturn (.inr ⟨_, rfl⟩), opener?_append_return]
    apply Option.map_congr
    intro opener hopener
    cases opener with
    | word => exact Opener.block_word_withReturns hline
    | brace offset =>
        exact Opener.block_brace_withReturns (brace?_of_opener?_eq_brace hopener) hline hsplit

theorem blocks_withReturns (content : Text) :
    blocks (withReturns content) = (blocks content).map (ByteRange.shifted content) := by
  rw [blocks, headers_withReturns, List.filterMap_map, blocks, List.map_filterMap]
  apply List.filterMap_congr
  intro header hheader
  exact block?_withReturns (isBoundary_of_mem_headers hheader)

/-- The calls of git in the blocks of a manifest stay the same calls. -/
theorem flatMap_gitCommands_withReturns (content : Text) :
    (blocks (withReturns content)).flatMap (gitCommands (withReturns content)) =
      ((blocks content).flatMap (gitCommands content)).map (ShellCommand.withReturns content) := by
  rw [blocks_withReturns, List.flatMap_map, List.map_flatMap]
  apply List.flatMap_congr
  intro block hblock
  exact gitCommands_withReturns (liesIn_of_mem_blocks hblock)

end Specification

end RequireLint
