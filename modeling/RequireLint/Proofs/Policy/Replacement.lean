import RequireLint.Policy.Decision
import RequireLint.Proofs.Source.Literal
import RequireLint.Proofs.Source.Statements

/-!
# Reading a replacement back

A call that hardcodes the library directory is replaced by a `require` of its load name.  The
name is written between double quotes as it is, so the new statement names the same file exactly
when the name is plain.  Load names come from paths, and a path may hold any character.
-/

namespace RequireLint

open Text

/-- Characters that do not end a line keep what stands before them. -/
theorem Text.dropEndWhile_append_cons {p : Char → Bool} {c : Char} (hc : p c = false)
    (lead rest : Text) :
    ∃ kept, dropEndWhile p (lead ++ c :: rest) = lead ++ c :: kept := by
  induction lead with
  | nil =>
      rw [List.nil_append, dropEndWhile]
      split
      · exact ⟨[], by simp [hc]⟩
      · exact ⟨_, rfl⟩
  | cons d lead ih =>
      obtain ⟨kept, hkept⟩ := ih
      refine ⟨kept, ?_⟩
      rw [List.cons_append, dropEndWhile, hkept]
      cases lead <;> rfl

/-- The first line of a text goes on after characters that do not end it. -/
theorem Text.splitLine_append {lead : Text} (hlead : '\n' ∉ lead) (t : Text) :
    (splitLine (lead ++ t)).1 = lead ++ (splitLine t).1 := by
  induction lead with
  | nil => rfl
  | cons c lead ih =>
      obtain ⟨hc, hlead⟩ := List.ne_and_not_mem_of_not_mem_cons hlead
      simp only [List.cons_append, splitLine, if_neg (Ne.symm hc), ih hlead]

/-- The first line of a content that begins with a statement of the form `require "…`. -/
def requireLine (rest : Text) : Line :=
  ⟨0, (splitLine (("require \"" : Text) ++ rest)).1, (splitLine (("require \"" : Text) ++ rest)).2⟩

theorem onwards_requireLine (rest : Text) :
    (requireLine rest).onwards = ("require \"" : Text) ++ rest :=
  splitLine_join _

theorem exists_body_requireLine (rest : Text) :
    ∃ kept, (requireLine rest).body = ("require \"" : Text) ++ kept := by
  have hwhole : (requireLine rest).whole = ("require \"" : Text) ++ (splitLine rest).1 :=
    splitLine_append (by decide) rest
  rw [Line.body, hwhole]
  exact dropEndWhile_append_cons (c := '"') (by decide) ("require " : Text) _

/-- A statement of the form `require "…` opens with its keyword, after blanks. -/
theorem opening?_require (blanks : Text) (hblanks : ∀ c ∈ blanks, isInlineBlank c = true)
    (offset : Nat) (rest : Text) :
    (Statement.mk offset (blanks ++ (("require \"" : Text) ++ rest))).opening? =
      some (.require, offset + byteSize blanks, offset + byteSize blanks + 8) := by
  have htake : (blanks ++ (("require \"" : Text) ++ rest)).takeWhile isInlineBlank = blanks := by
    rw [List.takeWhile_append_of_pos hblanks]
    exact List.append_nil blanks
  have hdrop : (blanks ++ (("require \"" : Text) ++ rest)).dropWhile isInlineBlank =
      ("require \"" : Text) ++ rest := by
    rw [List.dropWhile_append_of_pos hblanks]
    rfl
  have hread : Directive.read? (("require \"" : Text) ++ rest) =
      some (.require, ' ' :: '"' :: rest) := rfl
  have hargument : startsArgument (' ' :: '"' :: rest) = true := by
    obtain ⟨shown, hshown⟩ :=
      dropEndWhile_append_cons (p := isBlank) (c := '"') (by decide) [] rest
    have htrim : trim (' ' :: '"' :: rest) = '"' :: shown := hshown
    rw [startsArgument, htrim]
    rfl
  have hgap : byteSize ((' ' :: '"' :: rest).takeWhile isInlineBlank) = 1 := rfl
  have hkeyword : byteSize Directive.require.keyword = 7 := by decide
  simp only [Statement.opening?, htake, hdrop, hread, hargument, if_true, hgap, hkeyword]

theorem codeLines_requireLine (rest : Text) (later : List Line) :
    codeLines false 1 (requireLine rest :: later) =
      (1, requireLine rest) :: codeLines false 2 later := by
  obtain ⟨kept, hbody⟩ := exists_body_requireLine rest
  have hcomment : (requireLine rest).body.startsWith "=begin" = false := by
    rw [hbody]
    rfl
  have hend : (requireLine rest).body ≠ "__END__" := by
    rw [hbody]
    intro h
    simpa using congrArg List.head? h
  have hhash : (trimStart (requireLine rest).body).startsWith "#" = false := by
    rw [hbody]
    rfl
  simp only [codeLines, hcomment, hend, hhash, if_false, Bool.false_eq_true]

/-- A first line of this form opens with a `require` whose argument is a literal. -/
theorem opening?_requireLine (rest : Text) :
    (Statement.mk 0 (requireLine rest).body).opening? = some (.require, 0, 8) ∧
      (requireLine rest).onwards.dropBytes 8 = '"' :: rest := by
  obtain ⟨kept, hbody⟩ := exists_body_requireLine rest
  constructor
  · rw [hbody]
    exact opening?_require [] (by simp) 0 kept
  · rw [onwards_requireLine]
    exact dropBytes_append ("require " : Text) ('"' :: rest)

theorem lines_requireLine (rest : Text) :
    lines (("require \"" : Text) ++ rest) =
      requireLine rest ::
        linesFrom (0 + byteSize (requireLine rest).whole) (requireLine rest).after := by
  have hcons : ("require \"" : Text) ++ rest = 'r' :: (("equire \"" : Text) ++ rest) := rfl
  rw [requireLine, hcons, lines, linesFrom]

/-- The calls of a content that begins with such a statement: the one that the statement makes,
and others that start later. -/
theorem exists_readings_requireLine (rest : Text) :
    ∃ first more, readings (("require \"" : Text) ++ rest) = first :: more ∧
      (Statement.mk 0 (requireLine rest).body).reading? 1 (requireLine rest) = some first ∧
      ∀ reading ∈ more, 0 < reading.call.span.start := by
  obtain ⟨first, hfirst⟩ : ∃ first,
      (Statement.mk 0 (requireLine rest).body).reading? 1 (requireLine rest) = some first :=
    Statement.exists_reading?_of_opening? 1 _ (opening?_requireLine rest).1
  refine ⟨first, (Statement.afterSemicolons .outside 0 (requireLine rest).body).filterMap
      (Statement.reading? 1 (requireLine rest)) ++
    (codeLines false 2 (linesFrom (0 + byteSize (requireLine rest).whole)
      (requireLine rest).after)).flatMap fun found =>
        (Statement.ofLine found.2.body).filterMap (Statement.reading? found.1 found.2), ?_, hfirst,
    ?_⟩
  · rw [readings, lines_requireLine, codeLines_requireLine, List.flatMap_cons]
    dsimp only
    rw [Statement.ofLine, List.filterMap_cons, hfirst]
    rfl
  · intro reading hreading
    rcases List.mem_append.mp hreading with hsame | hlater
    · obtain ⟨statement, hstatement, hread⟩ := List.mem_filterMap.mp hsame
      obtain ⟨before, -, hoffset⟩ := exists_of_mem_afterSemicolons hstatement
      have hle := Statement.start_le_of_reading? hread
      have hsemicolon : byteSize [';'] = 1 := rfl
      rw [hoffset, byteSize_append, hsemicolon] at hle
      omega
    · obtain ⟨⟨number, line⟩, hcode, hread⟩ := List.mem_flatMap.mp hlater
      obtain ⟨statement, -, hread⟩ := List.mem_filterMap.mp hread
      obtain ⟨before, -, hstart, -⟩ := exists_of_mem_linesFrom (mem_of_mem_codeLines hcode)
      have hle := Statement.start_le_of_reading? hread
      have hwhole : (requireLine rest).whole = ("require \"" : Text) ++ (splitLine rest).1 :=
        splitLine_append (by decide) rest
      have hsize : byteSize ("require \"" : Text) = 9 := rfl
      rw [hstart, hwhole, byteSize_append, hsize] at hle
      omega

/-! ## The load name of a replacement -/

/-- The statement for a load name reads back as a `require` of that name, from its first byte to
its last, exactly when the name is plain. -/
theorem requireStatement_reads_back_iff (name : Text) :
    (∃ call ∈ inclusionCalls (Reference.requireStatement name), call.kind = .require ∧
        call.argument = .str name ∧ call.span.start = 0 ∧
        call.span.stop = byteSize (Reference.requireStatement name)) ↔
      Expr.Plain name := by
  have hstatement : Reference.requireStatement name =
      ("require \"" : Text) ++ (name ++ ['"']) := List.append_assoc _ _ _
  have hsize : byteSize (Reference.requireStatement name) =
      8 + byteSize ('"' :: (name ++ ['"'])) := by
    rw [hstatement]
    exact byteSize_append ("require " : Text) ('"' :: (name ++ ['"']))
  obtain ⟨first, more, hreadings, hfirst, hmore⟩ := exists_readings_requireLine (name ++ ['"'])
  rw [inclusionCalls, hsize, hstatement, hreadings, ← Expr.parse?_quoted_iff]
  obtain ⟨hopening, hargument⟩ := opening?_requireLine (name ++ ['"'])
  constructor
  · rintro ⟨call, hcall, -, hname, hstart, hstop⟩
    obtain ⟨reading, hmem, rfl⟩ := List.mem_map.mp hcall
    rcases List.mem_cons.mp hmem with rfl | hlater
    · obtain ⟨column, argumentOffset, hopening', -, ⟨hother, -⟩ | ⟨rest, hparse, hend⟩⟩ :=
        Statement.exists_of_reading?_eq_some hfirst
      · rw [hother] at hname
        simp at hname
      · rw [hopening] at hopening'
        obtain ⟨-, rfl, rfl⟩ := by simpa using hopening'
        rw [hargument] at hparse hend
        have hnil : byteSize rest = 0 := by
          have hpos := '"'.utf8Size_pos
          have hline : (requireLine (name ++ ['"'])).start = 0 := rfl
          rw [hend, hline] at hstop
          simp only [byteSize_cons] at hstop
          omega
        rw [hparse, hname, byteSize_eq_zero.mp hnil]
    · have hpos := hmore reading hlater
      omega
  · intro hparse
    rw [Statement.reading?_of_parse? hopening hargument hparse] at hfirst
    obtain rfl := Option.some.inj hfirst
    refine ⟨_, List.mem_map_of_mem List.mem_cons_self, rfl, rfl, rfl, ?_⟩
    exact Nat.zero_add _

/-- A replacement reads back as a `require` of the load name that it was made from, from its
first byte to its last, exactly when the name is plain. -/
theorem canonicalReplacement_reads_back_iff {reference : Reference} {ctx : Context}
    {name text : Text} (hname : reference.loadName? ctx = some name)
    (htext : reference.canonicalReplacement ctx = some text) :
    (∃ call ∈ inclusionCalls text, call.kind = .require ∧ call.argument = .str name ∧
        call.span.start = 0 ∧ call.span.stop = byteSize text) ↔
      Expr.Plain name := by
  rw [Reference.canonicalReplacement, hname] at htext
  obtain rfl := Option.some.inj htext
  exact requireStatement_reads_back_iff name

/-- A name with a number sign and a character of two bytes reads back. -/
theorem accented_replacement_reads_back :
    let reference : Reference := ⟨"../lib/é#1", .fileDirectory, .plainLiteral⟩
    let ctx : Context := .ofTexts "/p" "/p/spec/a_spec.rb"
    reference.canonicalReplacement ctx = some "require \"é#1\"".toList ∧
      ∃ call ∈ inclusionCalls "require \"é#1\"", call.kind = .require ∧
        call.argument = .str "é#1" ∧ call.span.start = 0 ∧
        call.span.stop = byteSize "require \"é#1\"" := by
  intro reference ctx
  have hname : reference.loadName? ctx = some "é#1".toList := by decide
  have htext : reference.canonicalReplacement ctx = some "require \"é#1\"".toList := by decide
  exact ⟨htext, (canonicalReplacement_reads_back_iff hname htext).mpr (by decide)⟩

/-- A quote in a path ends the literal of its replacement early. -/
theorem quoted_replacement_not_reads_back :
    let reference : Reference := ⟨"../lib/a\"b", .fileDirectory, .plainLiteral⟩
    let ctx : Context := .ofTexts "/p" "/p/spec/a_spec.rb"
    reference.loadName? ctx = some "a\"b".toList ∧
      reference.canonicalReplacement ctx = some "require \"a\"b\"".toList ∧
      ¬ ∃ call ∈ inclusionCalls "require \"a\"b\"", call.kind = .require ∧
        call.argument = .str "a\"b" ∧ call.span.start = 0 ∧
        call.span.stop = byteSize "require \"a\"b\"" := by
  intro reference ctx
  refine ⟨by decide, by decide, ?_⟩
  have hname : ¬ Expr.Plain "a\"b" := by decide
  exact fun h => hname ((requireStatement_reads_back_iff "a\"b").mp h)

end RequireLint
