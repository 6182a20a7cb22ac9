import RequireLint.Proofs.Correction.Splice
import RequireLint.Proofs.Text.Position
import RequireLint.Rule.Specification

/-!
# Where specification blocks and shell commands lie

A specification block is found by its header and measured in bytes, and the shell commands in it
are found in what the two positions cut out of the content.  Every position computed on the way
lies between two characters, and a shell command is the piece of the content that starts where it
says.  The scan for shell commands goes on behind the literal it has found, so the commands of one
block do not overlap.
-/

namespace RequireLint.Specification

open Text

/-! ## Shell commands -/

/-- What stands before a character is looked for up to its first occurrence. -/
theorem until?_eq_some_iff {close : Char} {t inner after : Text} :
    until? close t = some (inner, after) ↔ t = inner ++ close :: after ∧ close ∉ inner := by
  induction t generalizing inner with
  | nil => simp [until?]
  | cons c rest ih =>
      rw [until?]
      by_cases hc : c = close
      · rw [if_pos hc, hc]
        cases inner with
        | nil => simp
        | cons d inner =>
            simp only [Option.some.injEq, Prod.mk.injEq, List.cons_append, List.cons.injEq,
              List.mem_cons, not_or]
            constructor
            · rintro ⟨hnil, -⟩
              exact absurd hnil.symm (List.cons_ne_nil d inner)
            · rintro ⟨⟨rfl, -⟩, hne, -⟩
              exact absurd rfl hne
      · rw [if_neg hc]
        cases inner with
        | nil => simp [hc]
        | cons d inner =>
            simp only [Option.map_eq_some_iff, Prod.exists, Prod.mk.injEq, List.cons_append,
              List.cons.injEq, List.mem_cons, not_or]
            constructor
            · rintro ⟨inner', after', hlater, ⟨rfl, rfl⟩, rfl⟩
              obtain ⟨hsplit, hfree⟩ := ih.mp hlater
              exact ⟨⟨rfl, hsplit⟩, Ne.symm hc, hfree⟩
            · rintro ⟨⟨rfl, hsplit⟩, -, hfree⟩
              exact ⟨inner, after, ih.mpr ⟨hsplit, hfree⟩, ⟨rfl, rfl⟩, rfl⟩

/-- What opens a shell literal, the command in it and what closes it.  The short form stands on one
line. -/
inductive IsShellLiteral : (opening command closing : Text) → Prop
  | ticks {command : Text} (hfree : backtick ∉ command) (hline : '\n' ∉ command) :
      IsShellLiteral [backtick] command [backtick]
  | bracketed {bracket : Char × Char} {command : Text} (hbracket : bracket ∈ brackets)
      (hfree : bracket.2 ∉ command) :
      IsShellLiteral ['%', 'x', bracket.1] command [bracket.2]

/-- A bracket opens one form only. -/
theorem find?_brackets_eq_some_iff {c : Char} {bracket : Char × Char} :
    brackets.find? (fun pair => pair.1 = c) = some bracket ↔
      bracket ∈ brackets ∧ bracket.1 = c := by
  have hkeys : ∀ pair ∈ brackets, brackets.find? (fun other => other.1 = pair.1) = some pair := by
    decide
  constructor
  · intro h
    exact ⟨List.mem_of_find?_eq_some h, by simpa using List.find?_some h⟩
  · rintro ⟨hmem, rfl⟩
    exact hkeys bracket hmem

/-- The shell literal that a text starts with is read from it. -/
theorem shellLiteral?_eq_some_iff {t opening command closing : Text} :
    shellLiteral? t = some (opening, command, closing) ↔
      IsShellLiteral opening command closing ∧ opening ++ command ++ closing <+: t := by
  have hbacktick : backtick ≠ '%' := by decide
  constructor
  · intro h
    unfold shellLiteral? at h
    split at h
    next c rest =>
      split at h
      · simp at h
      next first close hfind =>
        obtain ⟨⟨inner, after⟩, huntil, heq⟩ := Option.map_eq_some_iff.mp h
        simp only [Prod.mk.injEq] at heq
        obtain ⟨rfl, rfl, rfl⟩ := heq
        obtain ⟨hbracket, rfl⟩ := find?_brackets_eq_some_iff.mp hfind
        obtain ⟨rfl, hfree⟩ := until?_eq_some_iff.mp huntil
        exact ⟨.bracketed hbracket hfree, after, by simp⟩
    next c rest _ =>
      obtain ⟨rfl, h⟩ := Option.ite_none_right_eq_some.mp h
      split at h
      next inner after huntil =>
        obtain ⟨hline, heq⟩ := Option.ite_none_left_eq_some.mp h
        simp only [Option.some.injEq, Prod.mk.injEq] at heq
        obtain ⟨rfl, rfl, rfl⟩ := heq
        obtain ⟨rfl, hfree⟩ := until?_eq_some_iff.mp huntil
        exact ⟨.ticks hfree (by simpa using hline), after, by simp⟩
      · simp at h
    · simp at h
  · rintro ⟨hliteral, after, rfl⟩
    cases hliteral with
    | ticks hfree hline =>
        have huntil : until? backtick (command ++ backtick :: after) = some (command, after) :=
          until?_eq_some_iff.mpr ⟨rfl, hfree⟩
        simp [shellLiteral?, huntil, hline, hbacktick]
    | @bracketed bracket _ hbracket hfree =>
        have huntil : until? bracket.2 (command ++ bracket.2 :: after) = some (command, after) :=
          until?_eq_some_iff.mpr ⟨rfl, hfree⟩
        have hfind := find?_brackets_eq_some_iff.mpr ⟨hbracket, rfl⟩
        simp [shellLiteral?, hfind, huntil]

theorem IsShellLiteral.shellLiteral?_append {opening command closing : Text}
    (h : IsShellLiteral opening command closing) (more : Text) :
    shellLiteral? (opening ++ command ++ closing ++ more) = some (opening, command, closing) :=
  shellLiteral?_eq_some_iff.mpr ⟨h, List.prefix_append _ more⟩

namespace ShellCommand

/-- A shell command is what its literal is read as. -/
def ReadsBack (shell : ShellCommand) : Prop :=
  ∃ opening closing, shell.literal = opening ++ shell.command ++ closing ∧
    ∀ more, shellLiteral? (shell.literal ++ more) = some (opening, shell.command, closing)

theorem ReadsBack.literal_ne_nil {shell : ShellCommand} (h : shell.ReadsBack) :
    shell.literal ≠ [] := by
  obtain ⟨opening, closing, -, hread⟩ := h
  intro hnil
  have hempty := hread []
  rw [hnil] at hempty
  simp [shellLiteral?] at hempty

theorem ReadsBack.byteSize_literal_pos {shell : ShellCommand} (h : shell.ReadsBack) :
    0 < byteSize shell.literal := by
  rw [Nat.pos_iff_ne_zero, ne_eq, byteSize_eq_zero]
  exact h.literal_ne_nil

/-- A shell command is a piece of a text that begins `start` bytes into its content. -/
def StandsIn (shell : ShellCommand) (start : Nat) (t : Text) : Prop :=
  shell.ReadsBack ∧ ∃ before after, t = before ++ shell.literal ++ after ∧
    shell.start = start + byteSize before

namespace StandsIn

variable {shell other : ShellCommand} {start : Nat} {t : Text}

theorem append_left (lead : Text) (h : shell.StandsIn (start + byteSize lead) t) :
    shell.StandsIn start (lead ++ t) := by
  obtain ⟨hread, before, after, rfl, hstart⟩ := h
  refine ⟨hread, lead ++ before, after, by simp, ?_⟩
  rw [hstart, byteSize_append, Nat.add_assoc]

theorem append_right (h : shell.StandsIn start t) (rest : Text) :
    shell.StandsIn start (t ++ rest) := by
  obtain ⟨hread, before, after, rfl, hstart⟩ := h
  exact ⟨hread, before, after ++ rest, by simp, hstart⟩

/-- At one position stands one shell command. -/
theorem eq_of_start_eq (h : shell.StandsIn start t) (hother : other.StandsIn start t)
    (hstart : shell.start = other.start) : shell = other := by
  obtain ⟨⟨opening, closing, hliteral, hread⟩, before, after, rfl, hbefore⟩ := h
  obtain ⟨⟨opening', closing', hliteral', hread'⟩, before', after', hsplit, hbefore'⟩ := hother
  rw [List.append_assoc, List.append_assoc] at hsplit
  obtain ⟨-, hrest⟩ := append_inj_of_byteSize_eq hsplit (by omega)
  have hsame := (hread after).symm.trans ((congrArg shellLiteral? hrest).trans (hread' after'))
  simp only [Option.some.injEq, Prod.mk.injEq] at hsame
  obtain ⟨rfl, hcommand, rfl⟩ := hsame
  rw [← hcommand, ← hliteral] at hliteral'
  cases shell
  cases other
  rw [mk.injEq]
  exact ⟨hstart, hliteral'.symm, hcommand⟩

end StandsIn

end ShellCommand

/-- Behind a shell literal the scan goes on with what follows it. -/
theorem exists_of_shellLiteral?_cons (start : Nat) {c : Char} {rest opening inner closing : Text}
    (h : shellLiteral? (c :: rest) = some (opening, inner, closing)) :
    (ShellCommand.mk start (opening ++ inner ++ closing) inner).ReadsBack ∧
      ∃ after, c :: rest = opening ++ inner ++ closing ++ after ∧
        rest.drop ((opening ++ inner ++ closing).length - 1) = after := by
  obtain ⟨hliteral, after, hsplit⟩ := shellLiteral?_eq_some_iff.mp h
  have hreads : (ShellCommand.mk start (opening ++ inner ++ closing) inner).ReadsBack :=
    ⟨opening, closing, rfl, hliteral.shellLiteral?_append⟩
  refine ⟨hreads, after, hsplit.symm, ?_⟩
  obtain ⟨d, literal, hcons⟩ := List.exists_cons_of_ne_nil hreads.literal_ne_nil
  dsimp only at hcons
  rw [hcons] at hsplit ⊢
  obtain ⟨-, rfl⟩ := List.cons.inj hsplit
  rw [List.length_cons, Nat.add_sub_cancel]
  exact List.drop_left

theorem shellCommandsFrom_of_eq_some {t opening inner closing after : Text} (start : Nat)
    (h : shellLiteral? t = some (opening, inner, closing))
    (hsplit : t = opening ++ inner ++ closing ++ after) :
    shellCommandsFrom start t = ⟨start, opening ++ inner ++ closing, inner⟩ ::
      shellCommandsFrom (start + byteSize (opening ++ inner ++ closing)) after := by
  cases t with
  | nil => simp [shellLiteral?] at h
  | cons c rest =>
      obtain ⟨-, after', hsplit', hdrop⟩ := exists_of_shellLiteral?_cons start h
      obtain rfl : after' = after := List.append_cancel_left (hsplit'.symm.trans hsplit)
      rw [shellCommandsFrom, h]
      dsimp only
      rw [hdrop]

theorem shellCommandsFrom_of_eq_none {c : Char} {rest : Text} (start : Nat)
    (h : shellLiteral? (c :: rest) = none) :
    shellCommandsFrom start (c :: rest) = shellCommandsFrom (start + c.utf8Size) rest := by
  rw [shellCommandsFrom, h]

theorem standsIn_of_mem_shellCommandsFrom {start : Nat} {t : Text} {shell : ShellCommand}
    (h : shell ∈ shellCommandsFrom start t) : shell.StandsIn start t := by
  fun_induction shellCommandsFrom start t with
  | case1 => simp at h
  | case2 start c rest opening inner closing hshell literal ih =>
      -- The literal is passed as a whole, so the position stays the size of what was passed.
      obtain ⟨hread, after, hsplit, hdrop⟩ := exists_of_shellLiteral?_cons start hshell
      rw [hdrop] at h ih
      rcases List.mem_cons.mp h with rfl | hlater
      · exact ⟨hread, [], after, hsplit, rfl⟩
      · rw [hsplit]
        exact (ih hlater).append_left literal
  | case3 start c rest hnone ih => exact (ih h).append_left [c]

/-- The shell commands of a text do not overlap. -/
theorem pairwise_shellCommandsFrom (start : Nat) (t : Text) :
    (shellCommandsFrom start t).Pairwise fun earlier later =>
      earlier.start + byteSize earlier.literal ≤ later.start := by
  fun_induction shellCommandsFrom start t with
  | case1 => exact .nil
  | case2 start c rest opening inner closing hshell literal ih =>
      apply List.pairwise_cons.mpr
      refine ⟨?_, ih⟩
      intro later hlater
      obtain ⟨-, before, -, -, hstart⟩ := standsIn_of_mem_shellCommandsFrom hlater
      dsimp only
      omega
  | case3 start c rest hnone ih => exact ih

/-! ## Blocks -/

/-- Whether a text starts with the constructor of a block. -/
def isHeader (t : Text) : Bool :=
  match dropPrefix? constructor t with
  | some after => !continuesWord after
  | none => false

/-- Whether a position stands on a comment line. -/
def onCommentLine (content : Text) (position : Nat) : Bool :=
  (trimStart (lineBefore content position)).startsWith "#"

theorem headers_eq (content : Text) :
    headers content = ((positionsFrom isHeader 0 content).filter (!onCommentLine content ·)).map
      (· + byteSize constructor) :=
  rfl

/-- A header ends between two characters. -/
theorem isBoundary_of_mem_headers {content : Text} {header : Nat} (h : header ∈ headers content) :
    IsBoundary content header := by
  obtain ⟨position, hposition, rfl⟩ := List.mem_map.mp h
  obtain ⟨before, rest, rfl, rfl, hheader⟩ :=
    exists_of_mem_positionsFrom (List.mem_filter.mp hposition).1
  cases hafter : dropPrefix? constructor rest with
  | none => simp [hafter] at hheader
  | some after =>
      obtain rfl := dropPrefix?_eq_some.mp hafter
      rw [Nat.zero_add, ← byteSize_append, ← List.append_assoc]
      exact isBoundary_append (before ++ constructor) after

theorem continuesWord_eq (t : Text) : continuesWord t = t.head?.any isWord := by
  cases t <;> rfl

/-- The word `do` does not reach over a character that belongs to no word. -/
theorem doWord?_append {c : Char} (hc : isWord c = false) (line more : Text) (inWord : Bool)
    (offset : Nat) :
    doWord? inWord offset (line ++ c :: more) = (doWord? inWord offset line).or
      (doWord? false (offset + byteSize line + c.utf8Size) more) := by
  have hne : ∀ d : Char, isWord d = true → c ≠ d := by
    rintro d hd rfl
    rw [hd] at hc
    exact absurd hc (by decide)
  induction line generalizing inWord offset with
  | nil => simp [doWord?, hc, hne 'd' (by decide)]
  | cons d rest ih =>
      have hword : (!inWord && d == 'd' && (rest ++ c :: more).head? == some 'o' &&
          !continuesWord (rest ++ c :: more).tail) =
          (!inWord && d == 'd' && rest.head? == some 'o' && !continuesWord rest.tail) := by
        cases rest with
        | nil => simp [hne 'o' (by decide)]
        | cons e rest => cases rest <;> simp [continuesWord, hc]
      rw [List.cons_append, doWord?, hword, ih, doWord?, byteSize_cons, Nat.add_assoc offset]
      split <;> rfl

theorem exists_of_brace?_eq_some {offset position : Nat} {t : Text}
    (h : brace? offset t = some position) :
    ∃ before rest, t = before ++ rest ∧ position = offset + byteSize before := by
  induction t generalizing offset with
  | nil => simp [brace?] at h
  | cons c rest ih =>
      rw [brace?] at h
      split at h
      · exact ⟨[], c :: rest, rfl, (Option.some.inj h).symm⟩
      · obtain ⟨before, rest, rfl, rfl⟩ := ih h
        exact ⟨c :: before, rest, rfl, by rw [byteSize_cons, Nat.add_assoc]⟩

/-- The braces of a text balance between two characters, or at its end. -/
theorem isBoundary_balancedSize (depth : Nat) (t : Text) :
    IsBoundary t (balancedSize depth t) := by
  induction t generalizing depth with
  | nil => exact ⟨[], [], rfl, rfl⟩
  | cons c t ih =>
      have hlater : ∀ deeper, IsBoundary (c :: t) (c.utf8Size + balancedSize deeper t) := by
        intro deeper
        obtain ⟨lead, rest, hsplit, hsize⟩ := ih deeper
        exact ⟨c :: lead, rest, by rw [hsplit, List.cons_append], by rw [hsize, byteSize_cons]⟩
      rw [balancedSize]
      split
      · exact hlater (depth + 1)
      · split
        · split
          · exact isBoundary_append [c] t
          · exact hlater (depth - 1)
        · exact hlater depth

/-- A brace block is a piece of the content. -/
theorem liesIn_braces {lead line below : Text} {offset : Nat}
    (h : brace? 0 line = some offset) :
    ByteRange.LiesIn ⟨byteSize lead + offset, byteSize lead + offset +
      balancedSize 0 ((line ++ below).dropBytes offset)⟩ (lead ++ (line ++ below)) := by
  obtain ⟨before, rest, rfl, rfl⟩ := exists_of_brace?_eq_some h
  rw [Nat.zero_add, List.append_assoc, dropBytes_append]
  obtain ⟨old, after, hsplit, hsize⟩ := isBoundary_balancedSize 0 (rest ++ below)
  refine ⟨lead ++ before, old, after, ?_, ?_, ?_⟩
  · rw [hsplit]
    simp
  · rw [byteSize_append]
  · rw [hsize, byteSize_append, byteSize_append]

/-- Where the first line starts that closes a block, in a text that begins at byte `start`, or where
the text ends. -/
def closingStart (indent start : Nat) (t : Text) : Nat :=
  (((linesFrom start t).find? fun line => closes indent line.whole).map (·.start)).getD
    (start + byteSize t)

theorem exists_closingStart_eq (indent start : Nat) (t : Text) :
    ∃ within rest, t = within ++ rest ∧
      closingStart indent start t = start + byteSize within := by
  rw [closingStart]
  cases hfind : (linesFrom start t).find? fun line => closes indent line.whole with
  | none => exact ⟨t, [], (List.append_nil t).symm, rfl⟩
  | some line =>
      obtain ⟨within, hsplit, hstart, -⟩ :=
        exists_of_mem_linesFrom (List.mem_of_find?_eq_some hfind)
      exact ⟨within, line.onwards, hsplit, hstart⟩

/-- What opens a block. -/
inductive Opener where
  /-- A word. -/
  | word
  /-- A brace, some bytes behind the header. -/
  | brace (offset : Nat)

/-- The opener on what is left of the line of a header. -/
def opener? (line : Text) : Option Opener :=
  match doWord? false 0 line, brace? 0 line with
  | none, none => none
  | none, some offset => some (.brace offset)
  | some word, found =>
    match found.filter (· < word) with
    | some offset => some (.brace offset)
    | none => some .word

theorem brace?_of_opener?_eq_brace {line : Text} {offset : Nat}
    (h : opener? line = some (.brace offset)) : brace? 0 line = some offset := by
  unfold opener? at h
  split at h
  · simp at h
  next hbrace => simpa [hbrace] using h
  next =>
    split at h
    next hfound =>
      obtain ⟨hbrace, -⟩ := Option.filter_eq_some_iff.mp hfound
      simpa [hbrace] using h
    · simp at h

/-- The block of a header that `lead` ends with.  The opener stands on `line`, and `below` holds the
lines below it. -/
def Opener.block (lead line below : Text) : Opener → ByteRange
  | word =>
    ⟨byteSize lead, (((linesFrom (byteSize (lead ++ line)) below).find? fun later =>
      closes (indentation (lastLine lead ++ line)) later.whole).map (·.start)).getD
        (byteSize (lead ++ (line ++ below)))⟩
  | brace offset =>
    ⟨byteSize lead + offset,
      byteSize lead + offset + balancedSize 0 ((line ++ below).dropBytes offset)⟩

theorem Opener.block_word (lead line below : Text) :
    Opener.word.block lead line below = ⟨byteSize lead,
      closingStart (indentation (lastLine lead ++ line)) (byteSize (lead ++ line)) below⟩ := by
  rw [Opener.block, closingStart, ← byteSize_append, List.append_assoc]

/-- The opener is looked for on the line of the header, the end of the block in all that
follows. -/
theorem block?_append {lead line below : Text} (hline : '\n' ∉ line)
    (hbelow : below = [] ∨ ∃ later, below = '\n' :: later) :
    block? (lead ++ (line ++ below)) (byteSize lead) =
      (opener? line).map (Opener.block lead line below) := by
  have htake : (line ++ below).takeWhile (· ≠ '\n') = line := by
    rw [List.takeWhile_append_of_pos (by simpa using fun c hc => ne_of_mem_of_not_mem hc hline)]
    rcases hbelow with rfl | ⟨later, rfl⟩ <;> simp
  have hdrop : (lead ++ (line ++ below)).dropBytes (byteSize (lead ++ line)) = below := by
    rw [← List.append_assoc, dropBytes_append]
  simp only [block?, dropBytes_append, htake, ← byteSize_append, hdrop, lineBefore_append, opener?]
  cases doWord? false 0 line with
  | none => cases brace? 0 line <;> rfl
  | some word =>
      dsimp only
      cases (brace? 0 line).filter (· < word) <;> rfl

/-- A block is a piece of the content. -/
theorem liesIn_of_block?_eq_some {content : Text} {header : Nat} {block : ByteRange}
    (hheader : IsBoundary content header) (h : block? content header = some block) :
    block.LiesIn content := by
  obtain ⟨lead, rest, rfl, rfl⟩ := hheader
  obtain ⟨line, below, rfl, hline, hbelow⟩ := exists_firstLine rest
  rw [block?_append hline hbelow] at h
  obtain ⟨opener, hopener, rfl⟩ := Option.map_eq_some_iff.mp h
  cases opener with
  | word =>
      obtain ⟨within, rest, rfl, hclosing⟩ := exists_closingStart_eq
        (indentation (lastLine lead ++ line)) (byteSize (lead ++ line)) below
      refine ⟨lead, line ++ within, rest, by simp, rfl, ?_⟩
      rw [Opener.block_word, hclosing, ← byteSize_append, List.append_assoc]
  | brace offset => exact liesIn_braces (brace?_of_opener?_eq_brace hopener)

/-- The specification blocks of a content. -/
def blocks (content : Text) : List ByteRange := (headers content).filterMap (block? content)

theorem liesIn_of_mem_blocks {content : Text} {block : ByteRange} (h : block ∈ blocks content) :
    block.LiesIn content := by
  obtain ⟨header, hheader, hblock⟩ := List.mem_filterMap.mp h
  exact liesIn_of_block?_eq_some (isBoundary_of_mem_headers hheader) hblock

/-! ## Calls of git -/

/-- A call of git is a piece of the content. -/
theorem standsIn_of_mem_gitCommands {content : Text} {block : ByteRange} {shell : ShellCommand}
    (hblock : block.LiesIn content) (h : shell ∈ gitCommands content block) :
    shell.StandsIn 0 content := by
  obtain ⟨lead, old, rest, rfl, hstart, hstop⟩ := hblock
  have hmem := (List.mem_filter.mp h).1
  rw [hstart, hstop, slice_append, ← Nat.zero_add (byteSize lead)] at hmem
  exact ((standsIn_of_mem_shellCommandsFrom hmem).append_left lead).append_right rest

/-- A call of git starts in its block. -/
theorem bounds_of_mem_gitCommands {content : Text} {block : ByteRange} {shell : ShellCommand}
    (hblock : block.LiesIn content) (h : shell ∈ gitCommands content block) :
    block.start ≤ shell.start ∧ shell.start < block.stop := by
  obtain ⟨lead, old, rest, rfl, hstart, hstop⟩ := hblock
  have hmem := (List.mem_filter.mp h).1
  rw [hstart, hstop, slice_append] at hmem
  obtain ⟨hread, before, after, rfl, hposition⟩ := standsIn_of_mem_shellCommandsFrom hmem
  have hpos := hread.byteSize_literal_pos
  rw [hstart, hstop, hposition]
  simp only [byteSize_append]
  omega

/-- The calls of git in one block do not overlap. -/
theorem pairwise_gitCommands (content : Text) (block : ByteRange) :
    (gitCommands content block).Pairwise fun earlier later =>
      earlier.start + byteSize earlier.literal ≤ later.start :=
  (pairwise_shellCommandsFrom _ _).filter _

/-- The offenses are those of the calls of git in the blocks, block by block. -/
theorem offenses_eq (unit : SourceUnit) :
    offenses unit = if unit.context.isManifest then
      ((blocks unit.content).flatMap (gitCommands unit.content)).map (·.offense unit.content)
      else [] := by
  rw [offenses, blocks, List.filterMap_eq_flatMap_toList, List.flatMap_assoc, List.map_flatMap]
  congr 2
  funext header
  cases block? unit.content header <;> simp

end RequireLint.Specification
