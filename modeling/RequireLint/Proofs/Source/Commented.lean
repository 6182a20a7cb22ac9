import RequireLint.Proofs.Source.Placement

/-!
# Commented-out code

Text is commented out on a line that starts with a `#`, behind a `#` that no string literal on its
line holds, in a block comment, and below the end marker.  Which lines a block comment takes up is
said here by the lines alone: one of them opens it, and none after that one closes it.  The reader
keeps a flag from line to line instead.

Main statement: an inclusion call never starts where text is commented out.
-/

namespace RequireLint

open Text

/-! ## The line of a position -/

/-- A position lies on a line of a content, with some lines above it. -/
structure Text.OnLine (content : Text) (position : Nat) (above : List Line) (line : Line) :
    Prop where
  exists_lines : ∃ below, lines content = above ++ line :: below
  start_le : line.start ≤ position
  lt_stop : position < line.start + byteSize line.whole

theorem pairwise_linesFrom (start : Nat) (t : Text) :
    (linesFrom start t).Pairwise fun first second =>
      first.start + byteSize first.whole ≤ second.start := by
  fun_induction linesFrom start t with
  | case1 => exact .nil
  | case2 start c rest parts ih =>
      apply List.pairwise_cons.mpr
      refine ⟨?_, ih⟩
      intro later hmem
      obtain ⟨before, -, hstart, -⟩ := exists_of_mem_linesFrom hmem
      dsimp only
      omega

namespace Text.OnLine

variable {content : Text} {position : Nat} {above above' : List Line} {line line' : Line}

/-- The line that comes first of two ends before the other starts. -/
theorem eq_of_append (h : OnLine content position above line)
    (h' : OnLine content position above' line') {between : List Line}
    (habove : above' = above ++ between) : above = above' ∧ line = line' := by
  obtain ⟨below, hlines⟩ := h.exists_lines
  obtain ⟨below', hlines'⟩ := h'.exists_lines
  rw [habove, List.append_assoc] at hlines'
  have hrest : line :: below = between ++ line' :: below' :=
    List.append_cancel_left (hlines.symm.trans hlines')
  cases between with
  | nil =>
      obtain ⟨hline, -⟩ := List.cons.inj hrest
      exact ⟨by simpa using habove.symm, hline⟩
  | cons first between =>
      obtain ⟨rfl, rfl⟩ := List.cons.inj hrest
      have hpairs := pairwise_linesFrom 0 content
      rw [← lines, hlines] at hpairs
      have hle := List.rel_of_pairwise_cons (List.pairwise_append.mp hpairs).2.1
        (List.mem_append_right between (List.mem_cons_self (a := line') (l := below')))
      have hstart := h'.start_le
      have hstop := h.lt_stop
      omega

/-- A position lies on one line. -/
theorem unique (h : OnLine content position above line)
    (h' : OnLine content position above' line') : above = above' ∧ line = line' := by
  obtain ⟨below, hlines⟩ := h.exists_lines
  obtain ⟨below', hlines'⟩ := h'.exists_lines
  rcases List.append_eq_append_iff.mp (hlines.symm.trans hlines') with
    ⟨between, habove, -⟩ | ⟨between, habove, -⟩
  · exact h.eq_of_append h' habove
  · obtain ⟨rfl, rfl⟩ := h'.eq_of_append h habove
    exact ⟨rfl, rfl⟩

end Text.OnLine

/-- The part of a line that stands before a position. -/
def Text.Line.before (line : Line) (position : Nat) : Text :=
  line.whole.takeBytes (position - line.start)

/-- A line is a body and the end of the line, and it starts where a line may start. -/
theorem exists_body_of_mem_linesFrom {start : Nat} {t : Text} {line : Line}
    (h : line ∈ linesFrom start t) :
    ∃ above body ends after, t = above ++ (body ++ ends ++ after) ∧
      line = ⟨start + byteSize above, body ++ ends, after⟩ ∧ OpensLine above ∧
      '\n' ∉ body ∧ Ends ends after := by
  induction t using lineInduction generalizing start with
  | nil =>
      rw [linesFrom] at h
      simp at h
  | line body ends after hbody hends hne ih =>
      rw [linesFrom_of_ends hbody.1 hends hne] at h
      rcases List.mem_cons.mp h with rfl | hlater
      · exact ⟨[], body, ends, after, rfl, rfl, .inl rfl, hbody.1, hends⟩
      · have hafter : after ≠ [] := by
          rintro rfl
          rw [linesFrom] at hlater
          simp at hlater
        obtain ⟨above, body', ends', after', rfl, rfl, habove, hbody', hends'⟩ := ih hlater
        refine ⟨body ++ ends ++ above, body', ends', after', by simp, ?_,
          hends.opensLine_append hafter habove body, hbody', hends'⟩
        rw [byteSize_append (body ++ ends), Nat.add_assoc start]

/-- A line has its line feed at its end only. -/
theorem Ends.no_feed_of_append {body ends after before behind : Text} (h : Ends ends after)
    (hbody : '\n' ∉ body) (hsplit : body ++ ends = before ++ behind) (hbehind : behind ≠ []) :
    '\n' ∉ before := by
  have hreturn : ∀ returns : Text, (∀ c ∈ returns, c = '\r') → '\n' ∉ body ++ returns := by
    intro returns hall hmem
    rcases List.mem_append.mp hmem with hmem | hmem
    · exact hbody hmem
    · exact absurd (hall _ hmem) (by decide)
  intro hfeed
  rcases h with ⟨returns, rfl, hall⟩ | ⟨hall, -⟩
  · obtain ⟨behind, last, rfl⟩ := List.eq_nil_or_concat behind |>.resolve_left hbehind
    rw [List.concat_eq_append, ← List.append_assoc, ← List.append_assoc] at hsplit
    obtain ⟨hsplit, -⟩ := List.append_inj' hsplit rfl
    exact hreturn returns hall (hsplit ▸ List.mem_append_left behind hfeed)
  · exact hreturn ends hall (hsplit ▸ List.mem_append_left behind hfeed)

/-- The line of a position is cut there, and its first part is what precedes the position on
it. -/
theorem Text.OnLine.exists_split {lead rest : Text} {above : List Line} {line : Line}
    (h : OnLine (lead ++ rest) (byteSize lead) above line) :
    ∃ behind more, behind ≠ [] ∧ line.whole = line.before (byteSize lead) ++ behind ∧
      rest = behind ++ more ∧ lineBefore (lead ++ rest) (byteSize lead) =
        line.before (byteSize lead) := by
  obtain ⟨⟨below, hlines⟩, hstart, hstop⟩ := h
  have hmem : line ∈ linesFrom 0 (lead ++ rest) := by
    rw [← lines, hlines]
    simp
  obtain ⟨upper, body, ends, after, hcontent, rfl, hupper, hbody, hends⟩ :=
    exists_body_of_mem_linesFrom hmem
  dsimp only at hstart hstop
  rw [Nat.zero_add] at hstart hstop
  obtain ⟨before, rfl, hbefore⟩ := exists_append_of_byteSize_le hcontent.symm hstart
  rw [byteSize_append] at hstop
  obtain ⟨behind, hline, hrest⟩ := exists_append_of_byteSize_le hbefore.symm (by omega)
  have hbehind : behind ≠ [] := by
    rintro rfl
    rw [hline, List.append_nil] at hstop
    omega
  have hcut : Line.before ⟨0 + byteSize upper, body ++ ends, after⟩ (byteSize (upper ++ before)) =
      before := by
    have hsize : byteSize (upper ++ before) - (0 + byteSize upper) = byteSize before := by
      rw [byteSize_append]
      omega
    rw [Line.before, hsize, hline, takeBytes_append]
  refine ⟨behind, after, hbehind, by rw [hcut, hline], hrest, ?_⟩
  rw [hcut, lineBefore_append, hupper.lastLine_append (hends.no_feed_of_append hbody hline hbehind)]

/-! ## What is commented out -/

/-- Some lines open a block comment and do not close it. -/
def BlockOpen (above : List Line) : Prop :=
  ∃ earlier opening between, above = earlier ++ opening :: between ∧
    opening.body.startsWith "=begin" = true ∧
    ∀ line ∈ between, line.body.startsWith "=end" = false

/-- A line belongs to a block comment, as do the lines that open and close one. -/
def InBlock (above : List Line) (line : Line) : Prop :=
  line.body.startsWith "=begin" = true ∨ BlockOpen above

/-- Among some lines is an end marker that belongs to no block comment. -/
def EndPassed (above : List Line) : Prop :=
  ∃ (earlier : List Line) (marker : Line) (between : List Line),
    above = earlier ++ marker :: between ∧ marker.body = "__END__" ∧ ¬ InBlock earlier marker

/-- Where a reader of a line is after one more character. -/
def Quoting.next : Quoting → Char → Quoting
  | .outside, c => if c = '\x27' ∨ c = '"' then .inside c false else .outside
  | .inside quote escaped, c =>
    if escaped then .inside quote false
    else if c = '\\' then .inside quote true
    else if c = quote then .outside
    else .inside quote false

/-- A text that leaves the reader of a line outside string literals before a `#` in it. -/
def HoldsComment (before : Text) : Prop :=
  ∃ lead rest, before = lead ++ '#' :: rest ∧ lead.foldl Quoting.next .outside = .outside

/-- A line whose first character that is no blank is a `#`. -/
def Text.Line.IsComment (line : Line) : Prop := (trimStart line.whole).head? = some '#'

/-- A position that a trailing comment, a block comment or the end marker takes out of the
code. -/
def BeyondCode (content : Text) (position : Nat) : Prop :=
  ∃ above line, OnLine content position above line ∧
    (HoldsComment (line.before position) ∨ InBlock above line ∨ EndPassed above)

/-- A position of a content that is no code. -/
def CommentedOut (content : Text) (position : Nat) : Prop :=
  (∃ above line, OnLine content position above line ∧ line.IsComment) ∨
    BeyondCode content position

/-! ## Lines that hold code -/

/-- A line that holds code below some lines. -/
structure HoldsCode (above : List Line) (line : Line) : Prop where
  not_endPassed : ¬ EndPassed above
  not_inBlock : ¬ InBlock above line
  body_ne : line.body ≠ "__END__"
  not_comment : (trimStart line.body).startsWith "#" = false

theorem startsWith_end_eq_false {t : Text} (h : t.startsWith "=begin" = true) :
    t.startsWith "=end" = false := by
  rw [← Bool.not_eq_true]
  intro hend
  have hshort := List.prefix_of_prefix_length_le (startsWith_iff.mp hend) (startsWith_iff.mp h)
    (by decide)
  exact absurd hshort (by decide)

/-- Whether a block comment is open behind a line depends on that line and on whether one was
open before it. -/
theorem blockOpen_concat {above : List Line} {line : Line} :
    BlockOpen (above ++ [line]) ↔ line.body.startsWith "=begin" = true ∨
      BlockOpen above ∧ line.body.startsWith "=end" = false := by
  constructor
  · rintro ⟨earlier, opening, between, hsplit, hopens, hbetween⟩
    rcases List.eq_nil_or_concat between with rfl | ⟨between, last, rfl⟩
    · obtain ⟨-, hlast⟩ := List.append_inj' hsplit rfl
      obtain rfl : line = opening := by simpa using hlast
      exact .inl hopens
    · rw [List.concat_eq_append, ← List.cons_append, ← List.append_assoc] at hsplit
      obtain ⟨rfl, hlast⟩ := List.append_inj' hsplit rfl
      obtain rfl : line = last := by simpa using hlast
      refine .inr ⟨⟨earlier, opening, between, rfl, hopens, ?_⟩, ?_⟩
      · intro inner hinner
        exact hbetween inner (by simp [hinner])
      · exact hbetween line (by simp)
  · rintro (hopens | ⟨⟨earlier, opening, between, rfl, hopens, hbetween⟩, hline⟩)
    · exact ⟨above, line, [], rfl, hopens, by simp⟩
    · refine ⟨earlier, opening, between ++ [line], by simp, hopens, ?_⟩
      intro inner hinner
      rcases List.mem_append.mp hinner with hinner | hinner
      · exact hbetween inner hinner
      · rw [List.mem_singleton.mp hinner]
        exact hline

theorem endPassed_concat {above : List Line} {line : Line} :
    EndPassed (above ++ [line]) ↔
      EndPassed above ∨ line.body = "__END__" ∧ ¬ InBlock above line := by
  constructor
  · rintro ⟨earlier, marker, between, hsplit, hmarker, houtside⟩
    rcases List.eq_nil_or_concat between with rfl | ⟨between, last, rfl⟩
    · obtain ⟨rfl, hlast⟩ := List.append_inj' hsplit rfl
      obtain rfl : line = marker := by simpa using hlast
      exact .inr ⟨hmarker, houtside⟩
    · rw [List.concat_eq_append, ← List.cons_append, ← List.append_assoc] at hsplit
      obtain ⟨rfl, -⟩ := List.append_inj' hsplit rfl
      exact .inl ⟨earlier, marker, between, rfl, hmarker, houtside⟩
  · rintro (⟨earlier, marker, between, rfl, hmarker, houtside⟩ | ⟨hmarker, houtside⟩)
    · exact ⟨earlier, marker, between ++ [line], by simp, hmarker, houtside⟩
    · exact ⟨above, line, [], rfl, hmarker, houtside⟩

theorem EndPassed.append {above : List Line} (h : EndPassed above) (more : List Line) :
    EndPassed (above ++ more) := by
  obtain ⟨earlier, marker, between, rfl, hmarker, houtside⟩ := h
  exact ⟨earlier, marker, between ++ more, by simp, hmarker, houtside⟩

section Flag

variable {above : List Line} {comment : Bool} (hcomment : comment = true ↔ BlockOpen above)
include hcomment

theorem isCode_iff_holdsCode (hend : ¬ EndPassed above) (line : Line) :
    isCode comment line.body = true ↔ HoldsCode above line := by
  have hflag : comment = false ↔ ¬ BlockOpen above := by
    rw [← hcomment, Bool.not_eq_true]
  rw [isCode_iff, hflag]
  constructor
  · rintro ⟨hclosed, hbegin, hmarker, hhash⟩
    refine ⟨hend, ?_, hmarker, hhash⟩
    rintro (hopens | hopen)
    · rw [hbegin] at hopens
      exact absurd hopens (by decide)
    · exact hclosed hopen
  · rintro ⟨-, hblock, hmarker, hhash⟩
    refine ⟨fun hopen => hblock (.inr hopen), ?_, hmarker, hhash⟩
    rw [← Bool.not_eq_true]
    exact fun hopens => hblock (.inl hopens)

/-- The flag that the reader keeps says whether a block comment is open. -/
theorem nextComment?_eq_some {line : Line} {later : Bool}
    (h : nextComment? comment line.body = some later) :
    (later = true ↔ BlockOpen (above ++ [line])) ∧
      ¬ (line.body = "__END__" ∧ ¬ InBlock above line) := by
  rw [blockOpen_concat, ← hcomment, InBlock, ← hcomment]
  rw [nextComment?] at h
  split at h
  next htrue =>
    obtain rfl := Option.some.inj h
    refine ⟨?_, fun hmarker => hmarker.2 (.inr htrue)⟩
    rw [Bool.not_eq_true', and_iff_right htrue, or_iff_right_of_imp startsWith_end_eq_false]
  next hfalse =>
    split at h
    next hbegin =>
      obtain rfl := Option.some.inj h
      exact ⟨iff_of_true rfl (.inl hbegin), fun hmarker => hmarker.2 (.inl hbegin)⟩
    next hbegin =>
      split at h
      · simp at h
      next hmarker =>
        obtain rfl := Option.some.inj h
        refine ⟨iff_of_false (by decide) ?_, fun hend => hmarker hend.1⟩
        rintro (hopens | ⟨htrue, -⟩)
        · exact hbegin hopens
        · exact hfalse htrue

/-- The reader stops at an end marker that belongs to no block comment. -/
theorem nextComment?_eq_none {line : Line} (h : nextComment? comment line.body = none) :
    EndPassed (above ++ [line]) := by
  rw [endPassed_concat, InBlock, ← hcomment]
  rw [nextComment?] at h
  split at h
  · simp at h
  next hfalse =>
    split at h
    · simp at h
    next hbegin =>
      split at h
      next hmarker =>
        refine .inr ⟨hmarker, ?_⟩
        rintro (hopens | htrue)
        · exact hbegin hopens
        · exact hfalse htrue
      · simp at h

end Flag

/-- The reader numbers the lines and passes over those that hold no code. -/
theorem mem_codeLines_iff {earlier : List Line} {comment : Bool} {number : Nat} {ls : List Line}
    {found : Nat × Line} (hcomment : comment = true ↔ BlockOpen earlier)
    (hend : ¬ EndPassed earlier) :
    found ∈ codeLines comment number ls ↔ ∃ above below, ls = above ++ found.2 :: below ∧
      found.1 = number + above.length ∧ HoldsCode (earlier ++ above) found.2 := by
  induction ls generalizing earlier comment number with
  | nil => simp [codeLines]
  | cons line ls ih =>
      have hfirst := isCode_iff_holdsCode hcomment hend line
      -- Either the line is the one that was found, or it is one of those above it.
      have hsplit : (∃ above below, line :: ls = above ++ found.2 :: below ∧
            found.1 = number + above.length ∧ HoldsCode (earlier ++ above) found.2) ↔
          (isCode comment line.body = true ∧ found = (number, line)) ∨
            ∃ above below, ls = above ++ found.2 :: below ∧
              found.1 = number + 1 + above.length ∧
              HoldsCode (earlier ++ [line] ++ above) found.2 := by
        constructor
        · rintro ⟨above, below, hls, hnumber, hcode⟩
          cases above with
          | nil =>
              obtain ⟨rfl, rfl⟩ := List.cons.inj hls
              rw [List.append_nil] at hcode
              exact .inl ⟨hfirst.mpr hcode, Prod.ext hnumber rfl⟩
          | cons first above =>
              obtain ⟨rfl, rfl⟩ := List.cons.inj hls
              refine .inr ⟨above, below, rfl, ?_, by simpa using hcode⟩
              rw [hnumber, List.length_cons]
              omega
        · rintro (⟨hcode, rfl⟩ | ⟨above, below, rfl, hnumber, hcode⟩)
          · exact ⟨[], ls, rfl, rfl, by simpa using hfirst.mp hcode⟩
          · refine ⟨line :: above, below, rfl, ?_, by simpa using hcode⟩
            rw [hnumber, List.length_cons]
            omega
      rw [hsplit, codeLines_cons, List.mem_append, List.mem_ite_nil_right, List.mem_singleton]
      apply or_congr Iff.rfl
      cases hnext : nextComment? comment line.body with
      | none =>
          have hpassed := nextComment?_eq_none hcomment hnext
          rw [Option.elim_none]
          constructor
          · simp
          · rintro ⟨above, below, -, -, hcode⟩
            exact absurd (hpassed.append above) hcode.not_endPassed
      | some later =>
          obtain ⟨hlater, hmarker⟩ := nextComment?_eq_some hcomment hnext
          rw [Option.elim_some]
          apply ih hlater
          rw [endPassed_concat, not_or]
          exact ⟨hend, hmarker⟩

/-! ## Lines that start with a comment -/

theorem startsWith_hash_iff {t : Text} : t.startsWith "#" = true ↔ t.head? = some '#' := by
  rw [startsWith_iff]
  cases t with
  | nil => simp
  | cons c t => simp [List.cons_prefix_cons, eq_comm]

/-- Blanks at the end of a text do not change how it starts. -/
theorem head?_trimStart_append {blanks : Text} (hblanks : ∀ c ∈ blanks, isBlank c = true)
    (t : Text) : (trimStart (t ++ blanks)).head? = (trimStart t).head? := by
  have hnone : blanks.dropWhile isBlank = [] := List.dropWhile_eq_nil_iff.mpr hblanks
  rw [trimStart, trimStart, List.dropWhile_append, hnone]
  cases t.dropWhile isBlank <;> rfl

/-- The first character of a line that is no blank stands before a given one or is that one. -/
theorem head?_trimStart_cons {c : Char} (hc : isBlank c = false) (before rest : Text) :
    (trimStart (before ++ c :: rest)).head? = (trimStart before).head?.or (some c) := by
  induction before with
  | nil => simp [trimStart, hc]
  | cons d before ih =>
      by_cases hd : isBlank d = true
      · simpa [trimStart, hd] using ih
      · simp [trimStart, hd]

theorem Text.Line.isComment_iff {line : Line} :
    line.IsComment ↔ (trimStart line.body).startsWith "#" = true := by
  obtain ⟨ends, hends, hall⟩ :=
    dropEndWhile_append_dropped (fun c => c = '\n' || c = '\r') line.whole
  have hblank : ∀ c ∈ ends, isBlank c = true := by
    intro c hc
    have hend : c = '\n' ∨ c = '\r' := by simpa using hall c hc
    rcases hend with rfl | rfl <;> decide
  rw [startsWith_hash_iff, IsComment, body]
  conv_lhs => rw [hends, head?_trimStart_append hblank]

/-! ## Inclusion calls -/

/-- The reader of a line goes on one character at a time and stops at a comment. -/
theorem afterSemicolons_cons (quoting : Quoting) (offset : Nat) (c : Char) (rest : Text) :
    Statement.afterSemicolons quoting offset (c :: rest) =
      (if quoting = .outside ∧ c = ';' then [⟨offset + c.utf8Size, rest⟩] else []) ++
        if quoting = .outside ∧ c = '#' then []
        else Statement.afterSemicolons (quoting.next c) (offset + c.utf8Size) rest := by
  cases quoting with
  | inside quote escaped => simp [Statement.afterSemicolons, Quoting.next]
  | outside =>
      by_cases hquote : c = '\x27' ∨ c = '"'
      · rcases hquote with rfl | rfl <;> simp [Statement.afterSemicolons, Quoting.next]
      · by_cases hhash : c = '#'
        · simp [Statement.afterSemicolons, hhash]
        · by_cases hsemicolon : c = ';'
          · simp [Statement.afterSemicolons, Quoting.next, hsemicolon]
          · simp [Statement.afterSemicolons, Quoting.next, hquote, hhash, hsemicolon]

/-- No statement starts behind a comment. -/
theorem offset_le_of_comment {quoting : Quoting} {offset : Nat} {lead rest : Text}
    {statement : Statement}
    (h : statement ∈ Statement.afterSemicolons quoting offset (lead ++ '#' :: rest))
    (hlead : lead.foldl Quoting.next quoting = .outside) :
    statement.offset ≤ offset + byteSize lead := by
  induction lead generalizing quoting offset with
  | nil =>
      obtain rfl : quoting = .outside := hlead
      rw [List.nil_append, afterSemicolons_cons] at h
      simp at h
  | cons c lead ih =>
      rw [List.cons_append, afterSemicolons_cons, List.mem_append, List.mem_ite_nil_right,
        List.mem_ite_nil_left, List.mem_singleton] at h
      rw [byteSize_cons]
      rcases h with ⟨-, rfl⟩ | ⟨-, hlater⟩
      · dsimp only
        omega
      · have hle := ih hlater hlead
        omega

/-- A call starts on a line that holds code, and no comment stands before it. -/
theorem holdsCode_of_mem_inclusionCalls {content : Text} {call : InclusionCall}
    (h : call ∈ inclusionCalls content) :
    ∃ above line, OnLine content call.span.start above line ∧ HoldsCode above line ∧
      ¬ HoldsComment (line.before call.span.start) := by
  obtain ⟨reading, hreading, rfl⟩ := List.mem_map.mp h
  obtain ⟨⟨number, line⟩, hcode, hstatement⟩ := List.mem_flatMap.mp hreading
  obtain ⟨statement, hmem, hread⟩ := List.mem_filterMap.mp hstatement
  have hclosed : false = true ↔ BlockOpen [] := by
    simp [BlockOpen]
  have hend : ¬ EndPassed [] := by
    simp [EndPassed]
  obtain ⟨above, below, hlines, -, hholds⟩ := (mem_codeLines_iff hclosed hend).mp hcode
  rw [List.nil_append] at hholds
  obtain ⟨ends, hends, -⟩ :=
    dropEndWhile_append_dropped (fun c => c = '\n' || c = '\r') line.whole
  obtain ⟨before, hbody, hoffset, -⟩ := exists_of_mem_ofLine hmem
  obtain ⟨blanks, tail, hrest, hblanks, hstart⟩ := Statement.exists_rest_of_reading? hread
  have hlt := Statement.start_lt_of_mem_ofLine hmem hread
  have hwhole : line.whole = line.body ++ ends := hends
  refine ⟨above, line, ⟨⟨below, hlines⟩, by omega, ?_⟩, hholds, ?_⟩
  · rw [hwhole, byteSize_append]
    omega
  · -- The line up to the call is what precedes its statement, and blanks.
    have hbefore : line.before reading.call.span.start = before ++ blanks := by
      have hsize : line.start + (statement.offset + byteSize blanks) - line.start =
          byteSize (before ++ blanks) := by
        rw [hoffset, byteSize_append]
        omega
      have htext : line.whole =
          before ++ blanks ++ (reading.call.kind.keyword ++ tail ++ ends) := by
        rw [hwhole, hbody, hrest]
        simp
      rw [Line.before, hstart, hsize, htext, takeBytes_append]
    rintro ⟨lead, rest, hsplit, hlead⟩
    rw [hbefore] at hsplit
    have hcomment : line.body = lead ++ '#' :: (rest ++ (reading.call.kind.keyword ++ tail)) := by
      rw [hbody, hrest, ← List.append_assoc, hsplit]
      simp
    have hle : byteSize before ≤ byteSize lead := by
      rcases List.mem_cons.mp hmem with rfl | hlater
      · rw [← hoffset]
        exact Nat.zero_le _
      · rw [hcomment] at hlater
        have hle := offset_le_of_comment hlater hlead
        omega
    obtain ⟨between, -, hbetween⟩ := exists_append_of_byteSize_le hsplit hle
    have hhash : isInlineBlank '#' = true := hblanks '#' (by simp [hbetween])
    exact absurd hhash (by decide)

/-- No inclusion call is commented out. -/
theorem not_commentedOut_of_mem_inclusionCalls {content : Text} {call : InclusionCall}
    (h : call ∈ inclusionCalls content) : ¬ CommentedOut content call.span.start := by
  obtain ⟨above, line, hline, hcode, hbefore⟩ := holdsCode_of_mem_inclusionCalls h
  rintro (⟨above', line', hline', hcomment⟩ | ⟨above', line', hline', hbeyond⟩)
  · obtain ⟨rfl, rfl⟩ := hline.unique hline'
    rw [Line.isComment_iff, hcode.not_comment] at hcomment
    exact absurd hcomment (by decide)
  · obtain ⟨rfl, rfl⟩ := hline.unique hline'
    rcases hbeyond with hhash | hblock | hend
    · exact hbefore hhash
    · exact hcode.not_inBlock hblock
    · exact hcode.not_endPassed hend

end RequireLint
