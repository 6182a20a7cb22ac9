import RequireLint.Proofs.Source.Commented
import RequireLint.Text.Word

/-!
# The statements that are read

Where an inclusion statement stands is said here without the reader: on a line that holds code,
behind the start of the line or a `;` that no string literal and no comment holds, a keyword and
what can begin its argument.

Main statement: at such a position the reader finds one call, with the argument that the content
holds there, and at any other position it finds none.
-/

namespace RequireLint

open Text

/-! ## The grammar -/

/-- A keyword at the start of a text, the longer one if both fit, and no word goes on behind it. -/
structure Directive.Opens (kind : Directive) (t after : Text) : Prop where
  eq_append : t = kind.keyword ++ after
  longest : ∀ other : Directive, other.keyword <+: t →
    other.keyword.length ≤ kind.keyword.length
  boundary : after.head?.all (!isWord ·) = true

/-- The part of a line in front of a statement: nothing, or code up to a `;` that stands outside
string literals and comments. -/
def StartsStatement (lead : Text) : Prop :=
  lead = [] ∨ ∃ before, lead = before ++ [';'] ∧
    before.foldl Quoting.next .outside = .outside ∧ ¬ HoldsComment before

/-- The rest of a line with an argument: it is set off from the keyword, and neither assigns nor
goes on with another expression. -/
def HoldsArgument (after : Text) : Prop :=
  (∃ c rest, after = c :: rest ∧ (c = ' ' ∨ c = '\t' ∨ c = '(')) ∧
    ∃ c rest, trim after = c :: rest ∧ c ≠ '=' ∧ c ≠ '.' ∧ c ≠ ',' ∧ c ≠ ')' ∧ c ≠ '?'

/-- An inclusion statement that starts at a position of a content. -/
structure StatementAt (content : Text) (position : Nat) (above : List Line) (line : Line)
    (kind : Directive) (after : Text) : Prop where
  exists_lines : ∃ below, lines content = above ++ line :: below
  holdsCode : HoldsCode above line
  exists_body : ∃ lead blanks statement, line.body = lead ++ (blanks ++ statement) ∧
    StartsStatement lead ∧ (∀ c ∈ blanks, isInlineBlank c = true) ∧
    position = line.start + byteSize (lead ++ blanks) ∧ kind.Opens statement after
  holdsArgument : HoldsArgument after

/-- The call of a statement.  Its argument is read behind the blanks after the keyword, from the
whole content; one that cannot be delimited takes the rest of the line up to its blanks. -/
def statementCall (content : Text) (position number : Nat) (line : Line) (kind : Directive)
    (after : Text) : InclusionCall :=
  let argumentStart :=
    position + byteSize kind.keyword + byteSize (after.takeWhile isInlineBlank)
  let span (stop : Nat) : Span := ⟨position, stop, number, position - line.start + 1⟩
  match Expr.parseSpan? (content.dropBytes argumentStart) with
  | some (argument, size) => ⟨kind, argument, span (argumentStart + size)⟩
  | none => ⟨kind, .other, span (line.start + byteSize (trimEnd line.body))⟩

/-! ## Keywords and arguments -/

theorem holdsArgument_iff {after : Text} : HoldsArgument after ↔ startsArgument after = true := by
  rw [HoldsArgument, startsArgument.eq_def, Bool.and_eq_true]
  apply and_congr
  · cases after with
    | nil => simp
    | cons c after => simp [isInlineBlank, or_assoc]
  · cases trim after with
    | nil => simp
    | cons c rest => simp [and_assoc]

theorem HoldsArgument.boundary {after : Text} (h : HoldsArgument after) :
    after.head?.all (!isWord ·) = true := by
  obtain ⟨⟨c, rest, rfl, hc⟩, -⟩ := h
  have hword : isWord c = false := by rcases hc with rfl | rfl | rfl <;> decide
  rw [List.head?_cons, Option.all_some, hword]
  rfl

/-- The reader takes the longer keyword, which is the only one in front of a word boundary. -/
theorem Directive.read?_eq_some_iff {kind : Directive} {t after : Text}
    (hboundary : after.head?.all (!isWord ·) = true) :
    Directive.read? t = some (kind, after) ↔ kind.Opens t after := by
  have hlonger : Directive.require.keyword <+: Directive.requireRelative.keyword := by decide
  constructor
  · intro h
    obtain rfl := Directive.read?_eq_some h
    refine ⟨rfl, fun other hother => ?_, hboundary⟩
    cases kind with
    | requireRelative => cases other <;> decide
    | require =>
        cases other with
        | require => exact Nat.le_refl _
        | requireRelative =>
            -- The longer keyword would have been read.
            obtain ⟨rest, hrest⟩ := hother
            rw [Directive.read?, dropPrefix?_eq_some.mpr hrest.symm] at h
            simp at h
  · rintro ⟨rfl, hlongest, -⟩
    cases kind with
    | requireRelative => rw [Directive.read?, dropPrefix?_eq_some.mpr rfl]
    | require =>
        have hnone : dropPrefix? Directive.requireRelative.keyword
            (Directive.require.keyword ++ after) = none := by
          rw [dropPrefix?_eq_none]
          intro hother
          exact absurd (hlongest .requireRelative hother) (by decide)
        rw [Directive.read?, hnone, dropPrefix?_eq_some.mpr rfl, Option.map_some]

/-! ## Statements of a line -/

/-- A `#` after which a reader of a line that is at `quoting` finds no more code. -/
def HashFrom (quoting : Quoting) (before : Text) : Prop :=
  ∃ lead rest, before = lead ++ '#' :: rest ∧ lead.foldl Quoting.next quoting = .outside

theorem not_hashFrom_nil (quoting : Quoting) : ¬ HashFrom quoting [] := by
  rintro ⟨lead, rest, hsplit, -⟩
  simp at hsplit

theorem hashFrom_cons {quoting : Quoting} {c : Char} {before : Text} :
    HashFrom quoting (c :: before) ↔
      quoting = .outside ∧ c = '#' ∨ HashFrom (quoting.next c) before := by
  constructor
  · rintro ⟨lead, rest, hsplit, hlead⟩
    cases lead with
    | nil =>
        obtain ⟨rfl, -⟩ := List.cons.inj hsplit
        exact .inl ⟨hlead, rfl⟩
    | cons d lead =>
        obtain ⟨rfl, rfl⟩ := List.cons.inj hsplit
        exact .inr ⟨lead, rest, rfl, hlead⟩
  · rintro (⟨rfl, rfl⟩ | ⟨lead, rest, rfl, hlead⟩)
    · exact ⟨[], before, rfl, rfl⟩
    · exact ⟨c :: lead, rest, rfl, hlead⟩

/-- The statements behind a `;` are all those that no string literal and no comment holds. -/
theorem mem_afterSemicolons_iff {quoting : Quoting} {offset : Nat} {t : Text}
    {statement : Statement} :
    statement ∈ Statement.afterSemicolons quoting offset t ↔
      ∃ before, t = before ++ ';' :: statement.rest ∧
        statement.offset = offset + byteSize (before ++ [';']) ∧
        before.foldl Quoting.next quoting = .outside ∧ ¬ HashFrom quoting before := by
  induction t generalizing quoting offset with
  | nil => simp [Statement.afterSemicolons]
  | cons c t ih =>
      rw [afterSemicolons_cons, List.mem_append, List.mem_ite_nil_right, List.mem_ite_nil_left,
        List.mem_singleton, ih]
      constructor
      · rintro (⟨⟨rfl, rfl⟩, rfl⟩ | ⟨hcode, before, rfl, hoffset, houtside, hhash⟩)
        · exact ⟨[], rfl, rfl, rfl, not_hashFrom_nil .outside⟩
        · refine ⟨c :: before, rfl, ?_, houtside, ?_⟩
          · rw [hoffset, List.cons_append, byteSize_cons, Nat.add_assoc]
          · rw [hashFrom_cons]
            exact not_or.mpr ⟨hcode, hhash⟩
      · rintro ⟨before, hsplit, hoffset, houtside, hhash⟩
        cases before with
        | nil =>
            obtain ⟨rfl, rfl⟩ := List.cons.inj hsplit
            obtain rfl : quoting = .outside := houtside
            refine .inl ⟨⟨rfl, rfl⟩, ?_⟩
            cases statement
            simp only [Statement.mk.injEq, and_true]
            exact hoffset
        | cons d before =>
            obtain ⟨rfl, rfl⟩ := List.cons.inj hsplit
            obtain ⟨hcode, hlater⟩ := not_or.mp (hashFrom_cons.not.mp hhash)
            refine .inr ⟨hcode, before, rfl, ?_, houtside, hlater⟩
            rw [hoffset, List.cons_append, byteSize_cons, Nat.add_assoc]

theorem mem_ofLine_iff {body : Text} {statement : Statement} :
    statement ∈ Statement.ofLine body ↔ ∃ lead, body = lead ++ statement.rest ∧
      StartsStatement lead ∧ statement.offset = byteSize lead := by
  rw [Statement.ofLine, List.mem_cons, mem_afterSemicolons_iff]
  constructor
  · rintro (rfl | ⟨before, rfl, hoffset, houtside, hhash⟩)
    · exact ⟨[], rfl, .inl rfl, rfl⟩
    · refine ⟨before ++ [';'], by simp, .inr ⟨before, rfl, houtside, hhash⟩, ?_⟩
      rw [hoffset, Nat.zero_add]
  · rintro ⟨lead, rfl, rfl | ⟨before, rfl, houtside, hhash⟩, hoffset⟩
    · refine .inl ?_
      cases statement
      simp only [List.nil_append, Statement.mk.injEq, and_true]
      exact hoffset
    · refine .inr ⟨before, by simp, ?_, houtside, hhash⟩
      rw [hoffset, Nat.zero_add]

/-! ## Calls -/

/-- The blanks in front of a keyword are all the blanks there. -/
theorem Directive.Opens.takeWhile_append {kind : Directive} {t after : Text}
    (h : kind.Opens t after) {blanks : Text} (hblanks : ∀ c ∈ blanks, isInlineBlank c = true) :
    (blanks ++ t).takeWhile isInlineBlank = blanks ∧ (blanks ++ t).dropWhile isInlineBlank = t := by
  have hkeyword : t.takeWhile isInlineBlank = [] ∧ t.dropWhile isInlineBlank = t := by
    rw [h.eq_append]
    cases kind <;> exact ⟨rfl, rfl⟩
  rw [List.takeWhile_append_of_pos hblanks, List.dropWhile_append_of_pos hblanks, hkeyword.1,
    hkeyword.2, List.append_nil]
  exact ⟨rfl, rfl⟩

/-- A statement with a keyword and an argument is read as the call of that statement. -/
theorem exists_reading?_eq_statementCall {content upper blanks t after : Text} {line : Line}
    {kind : Directive} (hcontent : content = upper ++ line.onwards)
    (hstart : line.start = byteSize upper) (hblanks : ∀ c ∈ blanks, isInlineBlank c = true)
    (hopens : kind.Opens t after) (hargument : HoldsArgument after) (number offset : Nat) :
    ∃ understood, (Statement.mk offset (blanks ++ t)).reading? number line =
      some ⟨statementCall content (line.start + (offset + byteSize blanks)) number line kind after,
        understood⟩ := by
  obtain ⟨htake, hdrop⟩ := hopens.takeWhile_append hblanks
  have hread : Directive.read? t = some (kind, after) :=
    (Directive.read?_eq_some_iff hargument.boundary).mpr hopens
  have hargument := holdsArgument_iff.mp hargument
  generalize hgap : byteSize (after.takeWhile isInlineBlank) = gap
  have htext : content.dropBytes
      (line.start + (offset + byteSize blanks) + byteSize kind.keyword + gap) =
        line.onwards.dropBytes (offset + byteSize blanks + byteSize kind.keyword + gap) := by
    rw [hcontent, hstart, Nat.add_assoc, Nat.add_assoc, ← Nat.add_assoc (offset + byteSize blanks),
      dropBytes_add]
  have hcolumn : line.start + (offset + byteSize blanks) - line.start + 1 =
      offset + byteSize blanks + 1 := by
    rw [Nat.add_sub_cancel_left]
  simp only [Statement.reading?, htake, hdrop, hread, hargument, if_true, statementCall, hgap,
    htext, hcolumn]
  cases Expr.parseSpan? (line.onwards.dropBytes
      (offset + byteSize blanks + byteSize kind.keyword + gap)) with
  | none => exact ⟨false, rfl⟩
  | some found =>
      refine ⟨true, ?_⟩
      simp only [Nat.add_assoc]

/-- What is read at a place of a line is a statement with a keyword and an argument. -/
theorem exists_opens_of_reading? {statement : Statement} {number : Nat} {line : Line}
    {reading : Reading} (h : statement.reading? number line = some reading) :
    ∃ blanks t after, statement.rest = blanks ++ t ∧ (∀ c ∈ blanks, isInlineBlank c = true) ∧
      reading.call.kind.Opens t after ∧ HoldsArgument after := by
  have hsplit : statement.rest.takeWhile isInlineBlank ++ statement.rest.dropWhile isInlineBlank =
      statement.rest := List.takeWhile_append_dropWhile
  obtain ⟨column, argumentOffset, hopening, -⟩ := Statement.exists_of_reading?_eq_some h
  simp only [Statement.opening?] at hopening
  split at hopening
  · simp at hopening
  next kind after hread =>
    split at hopening
    next hargument =>
      obtain ⟨rfl, -⟩ := by simpa using hopening
      have hargument := holdsArgument_iff.mpr hargument
      exact ⟨_, _, after, hsplit.symm, fun c => List.mem_takeWhile_imp,
        (Directive.read?_eq_some_iff hargument.boundary).mp hread, hargument⟩
    · simp at hopening

theorem exists_onwards_of_lines_eq {content : Text} {above below : List Line} {line : Line}
    (h : lines content = above ++ line :: below) :
    ∃ upper, content = upper ++ line.onwards ∧ line.start = byteSize upper := by
  have hmem : line ∈ lines content := by
    rw [h]
    exact List.mem_append_right above List.mem_cons_self
  obtain ⟨upper, hcontent, hstart, -⟩ := exists_of_mem_linesFrom hmem
  exact ⟨upper, hcontent, by rw [hstart, Nat.zero_add]⟩

theorem mem_codeLines_lines_iff {content : Text} {number : Nat} {line : Line} :
    (number, line) ∈ codeLines false 1 (lines content) ↔
      ∃ above below, lines content = above ++ line :: below ∧ number = above.length + 1 ∧
        HoldsCode above line := by
  have hclosed : false = true ↔ BlockOpen [] := by simp [BlockOpen]
  have hend : ¬ EndPassed [] := by simp [EndPassed]
  rw [mem_codeLines_iff hclosed hend]
  simp only [List.nil_append, Nat.add_comm 1]

/-- The call of every statement is read. -/
theorem StatementAt.mem_inclusionCalls {content : Text} {position : Nat} {above : List Line}
    {line : Line} {kind : Directive} {after : Text}
    (h : StatementAt content position above line kind after) :
    statementCall content position (above.length + 1) line kind after ∈ inclusionCalls content := by
  obtain ⟨below, hlines⟩ := h.exists_lines
  obtain ⟨lead, blanks, t, hbody, hlead, hblanks, rfl, hopens⟩ := h.exists_body
  obtain ⟨upper, hcontent, hstart⟩ := exists_onwards_of_lines_eq hlines
  have hcode := mem_codeLines_lines_iff.mpr ⟨above, below, hlines, rfl, h.holdsCode⟩
  have hmem : Statement.mk (byteSize lead) (blanks ++ t) ∈ Statement.ofLine line.body :=
    mem_ofLine_iff.mpr ⟨lead, hbody, hlead, rfl⟩
  obtain ⟨understood, hread⟩ := exists_reading?_eq_statementCall hcontent hstart hblanks hopens
    h.holdsArgument (above.length + 1) (byteSize lead)
  rw [← byteSize_append] at hread
  have hreading := List.mem_filterMap.mpr ⟨_, hmem, hread⟩
  exact List.mem_map.mpr ⟨_, List.mem_flatMap.mpr ⟨_, hcode, hreading⟩, rfl⟩

/-- Only the calls of statements are read. -/
theorem exists_statementAt_of_mem_inclusionCalls {content : Text} {call : InclusionCall}
    (h : call ∈ inclusionCalls content) : ∃ position above line kind after,
      StatementAt content position above line kind after ∧
        call = statementCall content position (above.length + 1) line kind after := by
  obtain ⟨reading, hreading, rfl⟩ := List.mem_map.mp h
  obtain ⟨⟨number, line⟩, hcode, hstatement⟩ := List.mem_flatMap.mp hreading
  obtain ⟨statement, hmem, hread⟩ := List.mem_filterMap.mp hstatement
  obtain ⟨above, below, hlines, rfl, hholds⟩ := mem_codeLines_lines_iff.mp hcode
  obtain ⟨lead, hbody, hlead, hoffset⟩ := mem_ofLine_iff.mp hmem
  obtain ⟨blanks, t, after, hrest, hblanks, hopens, hargument⟩ := exists_opens_of_reading? hread
  obtain ⟨upper, hcontent, hstart⟩ := exists_onwards_of_lines_eq hlines
  obtain ⟨understood, hagain⟩ := exists_reading?_eq_statementCall hcontent hstart hblanks hopens
    hargument (above.length + 1) statement.offset
  rw [← hrest, hread] at hagain
  refine ⟨_, above, line, reading.call.kind, after, ⟨⟨below, hlines⟩, hholds,
    ⟨lead, blanks, t, ?_, hlead, hblanks, ?_, hopens⟩, hargument⟩,
    congrArg Reading.call (Option.some.inj hagain)⟩
  · rw [hbody, hrest]
  · rw [hoffset, byteSize_append]

theorem start_statementCall (content : Text) (position number : Nat) (line : Line)
    (kind : Directive) (after : Text) :
    (statementCall content position number line kind after).span.start = position := by
  simp only [statementCall]
  split <;> rfl

/-- Of calls in order only one starts where a given one does. -/
theorem filter_start_of_pairwise {calls : List InclusionCall} {call : InclusionCall}
    (h : calls.Pairwise fun first second => first.span.start < second.span.start)
    (hmem : call ∈ calls) : calls.filter (·.span.start = call.span.start) = [call] := by
  induction calls with
  | nil => simp at hmem
  | cons first calls ih =>
      obtain ⟨hfirst, hlater⟩ := List.pairwise_cons.mp h
      rcases List.mem_cons.mp hmem with rfl | hmem
      · have hnone : calls.filter (·.span.start = call.span.start) = [] := by
          rw [List.filter_eq_nil_iff]
          intro later hlater hstart
          exact absurd (of_decide_eq_true hstart) (Nat.ne_of_gt (hfirst later hlater))
        simp only [List.filter_cons, decide_true, if_true, hnone]
      · have hstart : first.span.start ≠ call.span.start := Nat.ne_of_lt (hfirst call hmem)
        simp only [List.filter_cons, hstart, decide_false, Bool.false_eq_true, if_false,
          ih hlater hmem]

/-- Where a statement starts the content has one call, the call of that statement, and elsewhere
it has none. -/
theorem inclusionCalls_filter_start (content : Text) (position : Nat) :
    (∀ above line kind after, StatementAt content position above line kind after →
      (inclusionCalls content).filter (·.span.start = position) =
        [statementCall content position (above.length + 1) line kind after]) ∧
    ((∀ above line kind after, ¬ StatementAt content position above line kind after) →
      (inclusionCalls content).filter (·.span.start = position) = []) := by
  constructor
  · intro above line kind after hstatement
    have hone :=
      filter_start_of_pairwise (pairwise_inclusionCalls content) hstatement.mem_inclusionCalls
    rwa [start_statementCall] at hone
  · intro hnone
    rw [List.filter_eq_nil_iff]
    intro call hmem hstart
    obtain ⟨found, above, line, kind, after, hstatement, rfl⟩ :=
      exists_statementAt_of_mem_inclusionCalls hmem
    rw [start_statementCall, decide_eq_true_eq] at hstart
    exact hnone above line kind after (hstart ▸ hstatement)

/-- A statement behind a `;` that is read, below a block comment with one that is not. -/
theorem inclusionCalls_filter_start_behind_semicolon :
    let content : Text :=
      "=begin\nrequire 'a'\n=end\nx = ';'; require_relative('b') # c\r\n__END__\n"
    let line : Line := ⟨24, "x = ';'; require_relative('b') # c\r\n", "__END__\n"⟩
    (∃ above, StatementAt content 33 above line .requireRelative "('b') # c") ∧
      (inclusionCalls content).filter (·.span.start = 33) =
        [⟨.requireRelative, .str "b", ⟨33, 54, 4, 10⟩⟩] ∧
      (∀ above line kind after, ¬ StatementAt content 7 above line kind after) ∧
      (inclusionCalls content).filter (·.span.start = 7) = [] := by
  intro content line
  have hcode : (4, line) ∈ codeLines false 1 (lines content) := by decide +kernel
  obtain ⟨above, below, hlines, hnumber, hholds⟩ := mem_codeLines_lines_iff.mp hcode
  have hlead : StartsStatement "x = ';';" := by
    refine .inr ⟨"x = ';'", rfl, by decide, ?_⟩
    rintro ⟨lead, rest, hsplit, -⟩
    have hmem : '#' ∈ ("x = ';'" : Text) := by
      rw [hsplit]
      simp
    exact absurd hmem (by decide)
  have hopens : Directive.requireRelative.Opens "require_relative('b') # c" "('b') # c" :=
    ⟨rfl, fun other _ => by cases other <;> decide, by decide⟩
  have hstatement : StatementAt content 33 above line .requireRelative "('b') # c" :=
    ⟨⟨below, hlines⟩, hholds, ⟨"x = ';';", " ", "require_relative('b') # c", by decide +kernel,
      hlead, List.all_eq_true.mp rfl, by decide, hopens⟩, holdsArgument_iff.mpr (by decide)⟩
  have hcall : statementCall content 33 (above.length + 1) line .requireRelative "('b') # c" =
      ⟨.requireRelative, .str "b", ⟨33, 54, 4, 10⟩⟩ := by
    rw [← hnumber]
    decide +kernel
  have hone := (inclusionCalls_filter_start content 33).1 _ _ _ _ hstatement
  rw [hcall] at hone
  have hnone : ∀ above line kind after, ¬ StatementAt content 7 above line kind after := by
    intro above line kind after h
    have hmem := h.mem_inclusionCalls
    have hcalls : inclusionCalls content = [⟨.requireRelative, .str "b", ⟨33, 54, 4, 10⟩⟩] := by
      decide +kernel
    rw [hcalls, List.mem_singleton] at hmem
    have hstart := congrArg (·.span.start) hmem
    dsimp only at hstart
    rw [start_statementCall] at hstart
    exact absurd hstart (by decide)
  exact ⟨⟨above, hstatement⟩, hone, hnone, (inclusionCalls_filter_start content 7).2 hnone⟩

end RequireLint
