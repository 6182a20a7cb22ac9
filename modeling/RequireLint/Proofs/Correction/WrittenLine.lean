import RequireLint.Proofs.Policy.Replacement
import RequireLint.Proofs.Source.Lines

/-!
# Lines that a correction leaves behind

Where a call stands alone on its line, a correction puts another statement in its place or takes
it out.  The line that is left is read in one way wherever it stands: as a `require` of the load
name that was written, or as a comment.
-/

namespace RequireLint

open Text

theorem Trailing.cases {t : Text} (h : Trailing t) :
    (∀ c ∈ t, isInlineBlank c = true) ∨
      ∃ spaces comment, t = spaces ++ '#' :: comment ∧ ∀ c ∈ spaces, isInlineBlank c = true := by
  have hsplit : t.takeWhile isInlineBlank ++ Expr.skipInline t = t :=
    List.takeWhile_append_dropWhile
  have hspaces : ∀ c ∈ t.takeWhile isInlineBlank, isInlineBlank c = true := fun c =>
    List.mem_takeWhile_imp
  cases hrest : Expr.skipInline t with
  | nil =>
      rw [hrest, List.append_nil] at hsplit
      exact .inl (hsplit ▸ hspaces)
  | cons c comment =>
      rw [Trailing, hrest] at h
      obtain rfl : c = '#' := by simpa using h
      exact .inr ⟨_, comment, by rw [← hrest, hsplit], hspaces⟩

/-- The end of a line stays its end when what precedes it changes. -/
theorem IsBody.append {lead lead' trailing : Text} (h : IsBody (lead ++ trailing))
    (hfeed : '\n' ∉ lead') (hnil : trailing = [] → IsBody lead') : IsBody (lead' ++ trailing) := by
  rcases List.eq_nil_or_concat trailing with rfl | ⟨inner, c, rfl⟩
  · simpa using hnil rfl
  rw [List.concat_eq_append] at h ⊢
  obtain ⟨hbody, hlast⟩ := h
  have hc : (c = '\n' || c = '\r') = false := by
    by_contra hc
    rw [Bool.not_eq_false] at hc
    obtain ⟨dropped, hdropped, -⟩ :=
      dropEndWhile_append_dropped (fun c => c = '\n' || c = '\r') (lead ++ inner)
    rw [← List.append_assoc, dropEndWhile_append_of_all (by simpa using hc)] at hlast
    have hlength := congrArg List.length hdropped
    rw [hlast] at hlength
    simp at hlength
  refine ⟨?_, ?_⟩
  · intro hmem
    rcases List.mem_append.mp hmem with hmem | hmem
    · exact hfeed hmem
    · exact hbody (List.mem_append_right lead hmem)
  · rw [← List.append_assoc]
    exact dropEndWhile_concat hc _

theorem no_feed_of_blanks {blanks : Text} (h : ∀ c ∈ blanks, isInlineBlank c = true) :
    '\n' ∉ blanks :=
  fun hmem => absurd (h _ hmem) (by decide)

theorem isBody_requireStatement {blanks name : Text}
    (hblanks : ∀ c ∈ blanks, isInlineBlank c = true) (hname : '\n' ∉ name) :
    IsBody (blanks ++ Reference.requireStatement name) := by
  have hkeyword : '\n' ∉ ("require \"" : Text) := by decide
  generalize hlead : ("require \"" : Text) = lead at hkeyword
  have hstatement :
      blanks ++ Reference.requireStatement name = blanks ++ (lead ++ name) ++ ['"'] := by
    rw [List.append_assoc, ← hlead]
    rfl
  rw [hstatement]
  refine ⟨?_, dropEndWhile_concat (by decide) _⟩
  simp only [List.mem_append, List.mem_singleton, not_or]
  exact ⟨⟨no_feed_of_blanks hblanks, hkeyword, hname⟩, by decide⟩

theorem isBlank_of_isInlineBlank {c : Char} (h : isInlineBlank c = true) : isBlank c = true := by
  simp only [isInlineBlank, Bool.or_eq_true, decide_eq_true_eq] at h
  rcases h with rfl | rfl <;> decide

theorem startsWith_cons_eq_false {t word : Text} {c : Char} (h : t.head? ≠ some c) :
    startsWith t (c :: word) = false := by
  cases t with
  | nil => rfl
  | cons d t =>
      have hne : c ≠ d := fun heq => h (by rw [heq]; rfl)
      simp [startsWith, dropPrefix?, hne]

/-- What stands first on a line, after blanks, decides whether the line is code. -/
theorem isCode_of_blanks {blanks : Text} (hblanks : ∀ c ∈ blanks, isInlineBlank c = true)
    {c : Char} (hc : isBlank c = false) (hequals : c ≠ '=') (hunderscore : c ≠ '_')
    (rest : Text) :
    isCode false (blanks ++ c :: rest) = decide (c ≠ '#') ∧
      nextComment? false (blanks ++ c :: rest) = some false := by
  have hhead : ∀ d, c ≠ d → isInlineBlank d = false →
      (blanks ++ c :: rest).head? ≠ some d := by
    intro d hne hd heq
    cases blanks with
    | nil => exact hne (Option.some.inj heq)
    | cons b blanks =>
        obtain rfl : b = d := Option.some.inj heq
        rw [hblanks b List.mem_cons_self] at hd
        exact absurd hd (by decide)
  have hbegin : startsWith (blanks ++ c :: rest) "=begin" = false :=
    startsWith_cons_eq_false (hhead '=' hequals rfl)
  have hend : blanks ++ c :: rest ≠ "__END__" := by
    intro heq
    have hunder := congrArg List.head? heq
    exact hhead '_' hunderscore rfl hunder
  have htrim : trimStart (blanks ++ c :: rest) = c :: rest := by
    have hall : ∀ d ∈ blanks, isBlank d = true := fun d hd =>
      isBlank_of_isInlineBlank (hblanks d hd)
    rw [trimStart, List.dropWhile_append_of_pos hall]
    simp [hc]
  have hhash : startsWith (c :: rest) "#" = decide (c = '#') := by
    by_cases heq : c = '#'
    · subst heq
      rfl
    · have hne : (c :: rest).head? ≠ some '#' := by simpa using heq
      rw [decide_eq_false heq]
      exact startsWith_cons_eq_false hne
  constructor
  · simp only [isCode, hbegin, htrim, hhash, decide_eq_true hend]
    simp
  · simp only [nextComment?, hbegin, if_neg hend, Bool.false_eq_true, if_false]

/-- No statement follows a plain literal and a comment. -/
theorem afterSemicolons_skip {lead : Text}
    (hlead : ∀ c ∈ lead, c ≠ '\x27' ∧ c ≠ '"' ∧ c ≠ '#' ∧ c ≠ ';') (offset : Nat) (rest : Text) :
    ∃ later, Statement.afterSemicolons .outside offset (lead ++ rest) =
      Statement.afterSemicolons .outside later rest := by
  induction lead generalizing offset with
  | nil => exact ⟨offset, rfl⟩
  | cons c lead ih =>
      obtain ⟨hsingle, hdouble, hhash, hsemicolon⟩ := hlead c List.mem_cons_self
      obtain ⟨later, hlater⟩ := ih (fun d hd => hlead d (List.mem_cons_of_mem c hd))
        (offset + c.utf8Size)
      refine ⟨later, ?_⟩
      simp only [List.cons_append, Statement.afterSemicolons, hsingle, hdouble, hhash, hsemicolon,
        or_self, if_false, hlater]

theorem afterSemicolons_plain {name : Text} (hname : Expr.Plain name) (offset : Nat)
    (rest : Text) :
    ∃ later, Statement.afterSemicolons (.inside '"' false) offset (name ++ rest) =
      Statement.afterSemicolons (.inside '"' false) later rest := by
  induction name generalizing offset with
  | nil => exact ⟨offset, rfl⟩
  | cons c name ih =>
      obtain ⟨hquote, hescape, -, hplain⟩ := Expr.plain_cons.mp hname
      obtain ⟨later, hlater⟩ := ih hplain (offset + c.utf8Size)
      refine ⟨later, ?_⟩
      simp only [List.cons_append, Statement.afterSemicolons, hquote, hescape, if_false,
        Bool.false_eq_true, hlater]

theorem not_special_of_blank {c : Char} (h : isInlineBlank c = true) :
    c ≠ '\x27' ∧ c ≠ '"' ∧ c ≠ '#' ∧ c ≠ ';' := by
  simp only [isInlineBlank, Bool.or_eq_true, decide_eq_true_eq] at h
  rcases h with rfl | rfl <;> decide

theorem afterSemicolons_trailing {trailing : Text} (h : Trailing trailing) (offset : Nat) :
    Statement.afterSemicolons .outside offset trailing = [] := by
  rcases h.cases with hspaces | ⟨spaces, comment, rfl, hspaces⟩
  · obtain ⟨later, hlater⟩ :=
      afterSemicolons_skip (fun c hc => not_special_of_blank (hspaces c hc)) offset []
    rw [List.append_nil] at hlater
    rw [hlater, Statement.afterSemicolons]
  · obtain ⟨later, hlater⟩ :=
      afterSemicolons_skip (fun c hc => not_special_of_blank (hspaces c hc)) offset ('#' :: comment)
    rw [hlater]
    rfl

section Written

variable {blanks trailing name : Text}

theorem requireStatement_append (name more : Text) :
    Reference.requireStatement name ++ more = ("require \"" : Text) ++ (name ++ '"' :: more) := by
  have hstatement : Reference.requireStatement name = ("require \"" : Text) ++ (name ++ ['"']) :=
    List.append_assoc _ _ _
  rw [hstatement, List.append_assoc, List.append_assoc, List.singleton_append]

theorem afterSemicolons_written (hblanks : ∀ c ∈ blanks, isInlineBlank c = true)
    (hname : Expr.Plain name) (htrailing : Trailing trailing) :
    Statement.afterSemicolons .outside 0 (blanks ++ (Reference.requireStatement name ++ trailing)) =
      [] := by
  have hlead : ∀ c ∈ blanks ++ ("require " : Text),
      c ≠ '\x27' ∧ c ≠ '"' ∧ c ≠ '#' ∧ c ≠ ';' := by
    intro c hc
    rcases List.mem_append.mp hc with hc | hc
    · exact not_special_of_blank (hblanks c hc)
    · have hall : ("require " : Text).all
          (fun d => d ≠ '\x27' ∧ d ≠ '"' ∧ d ≠ '#' ∧ d ≠ ';') = true := by
        decide
      exact of_decide_eq_true (List.all_eq_true.mp hall c hc)
  have hquote : ("require \"" : Text) ++ (name ++ '"' :: trailing) =
      ("require " : Text) ++ '"' :: (name ++ '"' :: trailing) := rfl
  rw [requireStatement_append, hquote, ← List.append_assoc]
  obtain ⟨inside, hinside⟩ := afterSemicolons_skip hlead 0 ('"' :: (name ++ '"' :: trailing))
  obtain ⟨closing, hclosing⟩ := afterSemicolons_plain hname (inside + 1) ('"' :: trailing)
  calc
    Statement.afterSemicolons .outside 0
        (blanks ++ ("require " : Text) ++ '"' :: (name ++ '"' :: trailing)) =
        Statement.afterSemicolons .outside inside ('"' :: (name ++ '"' :: trailing)) := hinside
    _ = Statement.afterSemicolons (.inside '"' false) (inside + 1) (name ++ '"' :: trailing) := rfl
    _ = Statement.afterSemicolons (.inside '"' false) closing ('"' :: trailing) := hclosing
    _ = Statement.afterSemicolons .outside (closing + 1) trailing := rfl
    _ = [] := afterSemicolons_trailing htrailing _

/-- A written statement is read as a `require` of its load name, whatever follows its line. -/
theorem said_written (hblanks : ∀ c ∈ blanks, isInlineBlank c = true) (hname : Expr.Plain name)
    (htrailing : Trailing trailing)
    (hbody : IsBody (blanks ++ (Reference.requireStatement name ++ trailing))) {ends after : Text}
    (hends : Ends ends after) (number start : Nat) :
    (lineReadings number
        ⟨start, blanks ++ (Reference.requireStatement name ++ trailing) ++ ends, after⟩).map
        Reading.said = [(.require, .str name)] := by
  have hline := body_append_ends hbody hends start after
  have hopening := opening?_require blanks hblanks 0 (name ++ '"' :: trailing)
  rw [← requireStatement_append] at hopening
  have hdrop : (Line.mk start (blanks ++ (Reference.requireStatement name ++ trailing) ++ ends)
      after).onwards.dropBytes (0 + byteSize blanks + 8) =
        '"' :: (name ++ '"' :: (trailing ++ (ends ++ after))) := by
    have hlead : 0 + byteSize blanks + 8 = byteSize (blanks ++ ("require " : Text)) := by
      rw [byteSize_append, Nat.zero_add]
      rfl
    have hquote : blanks ++ (Reference.requireStatement name ++ trailing) ++ ends ++ after =
        blanks ++ ("require " : Text) ++ '"' :: (name ++ '"' :: (trailing ++ (ends ++ after))) := by
      rw [requireStatement_append]
      simp
    rw [Line.onwards, hquote, hlead, dropBytes_append]
  have hparse := Expr.parse?_quoted_append hname (htrailing.stops hends)
  rw [lineReadings_eq_toList, hline, Statement.reading?_of_parse? hopening hdrop hparse]
  · rfl
  · rw [hline, afterSemicolons_written hblanks hname htrailing]
    simp

/-- The line of a written statement holds a `require` of its load name and nothing else. -/
theorem said_readingsFrom_written {lead : Text} (hblanks : ∀ c ∈ blanks, isInlineBlank c = true)
    (hname : Expr.Plain name) (hfeed : '\n' ∉ name) (htrailing : Trailing trailing)
    (hlead : IsBody (lead ++ trailing)) {ends after : Text} (hends : Ends ends after)
    (number start : Nat) :
    ∃ later, (readingsFrom false number start
        (blanks ++ Reference.requireStatement name ++ trailing ++ ends ++ after)).map Reading.said =
      (.require, .str name) ::
        (readingsFrom false (number + 1) later after).map Reading.said := by
  have hstatement := isBody_requireStatement hblanks hfeed
  have hbody := hlead.append hstatement.1 fun _ => hstatement
  rw [List.append_assoc blanks] at hbody ⊢
  have hfirst : blanks ++ (Reference.requireStatement name ++ trailing) =
      blanks ++ 'r' :: (("equire \"" : Text) ++ (name ++ '"' :: trailing)) := by
    rw [requireStatement_append]
    rfl
  obtain ⟨hcode, hnext⟩ := isCode_of_blanks hblanks (c := 'r') (by decide) (by decide) (by decide)
    (("equire \"" : Text) ++ (name ++ '"' :: trailing))
  rw [← hfirst] at hcode hnext
  have hne : blanks ++ (Reference.requireStatement name ++ trailing) ++ ends ≠ [] := by
    rw [hfirst]
    simp
  refine ⟨start + byteSize (blanks ++ (Reference.requireStatement name ++ trailing) ++ ends), ?_⟩
  rw [readingsFrom_line hbody hends hne, hcode, hnext, List.map_append]
  rw [if_pos (by decide), said_written hblanks hname htrailing hbody hends]
  rfl

/-- Nothing is read on a line that keeps its comment only. -/
theorem readingsFrom_comment {lead spaces comment : Text}
    (hblanks : ∀ c ∈ blanks, isInlineBlank c = true)
    (hspaces : ∀ c ∈ spaces, isInlineBlank c = true)
    (hlead : IsBody (lead ++ (spaces ++ '#' :: comment))) {ends after : Text}
    (hends : Ends ends after) (number start : Nat) :
    ∃ later, readingsFrom false number start
        (blanks ++ (spaces ++ '#' :: comment) ++ ends ++ after) =
      readingsFrom false (number + 1) later after := by
  have hbody : IsBody (blanks ++ (spaces ++ '#' :: comment)) :=
    hlead.append (no_feed_of_blanks hblanks) (by simp)
  have hall : ∀ c ∈ blanks ++ spaces, isInlineBlank c = true := by
    intro c hc
    rcases List.mem_append.mp hc with hc | hc
    · exact hblanks c hc
    · exact hspaces c hc
  obtain ⟨hcode, hnext⟩ := isCode_of_blanks hall (c := '#') (by decide) (by decide) (by decide)
    comment
  rw [List.append_assoc blanks] at hcode hnext
  refine ⟨start + byteSize (blanks ++ (spaces ++ '#' :: comment) ++ ends), ?_⟩
  rw [readingsFrom_line hbody hends (by simp), hcode, hnext]
  rfl

end Written

end RequireLint
