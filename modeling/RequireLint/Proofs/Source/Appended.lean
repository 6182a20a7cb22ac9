import RequireLint.Proofs.Source.Returns

/-!
# Expressions in a text that goes on

Appending to a text does not change an expression that is read from it, as long as a line feed is
left of the text.  A name, a method and a sum are only recognized by a look at what follows, and
no such look goes beyond a line feed.

As for texts with carriage returns, a nested expression is read from what is left of its text, so
that two parsers for nested expressions are compared.
-/

namespace RequireLint.Expr

/-- A piece of the grammar leaves a remainder of its text, and if a line feed is left, then its
counterpart reads the same from a text that goes on with `more`. -/
def Extends {α : Type} (more : Text) (p p' : Parser α) : Prop :=
  ∀ ⦃s value rest⦄, p s = some (value, rest) → rest <:+ s ∧
    ('\n' ∈ rest → p' (s ++ more) = some (value, rest ++ more))

/-! ## Blanks and names -/

theorem dropWhile_append_of_mem {p : Char → Bool} {s : Text} {c : Char}
    (h : c ∈ s.dropWhile p) (more : Text) :
    (s ++ more).dropWhile p = s.dropWhile p ++ more ∧
      (s ++ more).takeWhile p = s.takeWhile p := by
  have hne : s.dropWhile p ≠ [] := List.ne_nil_of_mem h
  have hlength : (s.takeWhile p).length ≠ s.length := by
    intro heq
    have hsplit := congrArg List.length (List.takeWhile_append_dropWhile (p := p) (l := s))
    rw [List.length_append, heq] at hsplit
    exact hne (List.length_eq_zero_iff.mp (by omega))
  rw [List.dropWhile_append, List.takeWhile_append, if_neg hlength, if_neg (by simpa using hne)]
  exact ⟨rfl, rfl⟩

theorem skipSpace_append_of_eq_cons {s rest : Text} {c : Char} (h : skipSpace s = c :: rest)
    (more : Text) : skipSpace (s ++ more) = c :: (rest ++ more) := by
  have hmem : c ∈ skipSpace s := by simp [h]
  rw [skipSpace, (dropWhile_append_of_mem hmem more).1]
  exact congrArg (· ++ more) h

theorem extends_name? (more : Text) : Extends more name? name? := by
  intro s name rest h
  have hdropped : s.dropWhile isNameChar <:+ s := List.dropWhile_suffix _
  simp only [name?] at h ⊢
  split at h
  next c after hdrop =>
    obtain ⟨hdrop', htake'⟩ := dropWhile_append_of_mem (p := isNameChar) (s := s) (c := c)
      (by simp [hdrop]) more
    rw [hdrop', htake', hdrop, List.cons_append]
    rw [hdrop] at hdropped
    dsimp only
    split at h
    next hmark =>
      obtain ⟨rfl, rfl⟩ := Prod.mk.inj (Option.some.inj h)
      refine ⟨(List.suffix_cons c _).trans hdropped, fun hfeed => ?_⟩
      rw [List.head?_append_of_ne_nil _ (List.ne_nil_of_mem hfeed), if_pos hmark]
    next hmark =>
      split at h
      · simp at h
      next hword =>
        obtain ⟨rfl, rfl⟩ := Prod.mk.inj (Option.some.inj h)
        refine ⟨hdropped, fun hfeed => ?_⟩
        have hmark' : ¬ ((c = '?' ∨ c = '!') ∧ (after ++ more).head? ≠ some '=') := by
          rintro ⟨hc, hhead⟩
          have hafter : '\n' ∈ after := by
            rcases List.mem_cons.mp hfeed with rfl | hafter
            · exact absurd hc (by decide)
            · exact hafter
          rw [List.head?_append_of_ne_nil _ (List.ne_nil_of_mem hafter)] at hhead
          exact hmark ⟨hc, hhead⟩
        rw [if_neg hmark', if_neg hword, List.cons_append]
  next hdrop =>
    split at h
    · simp at h
    · obtain ⟨rfl, rfl⟩ := Prod.mk.inj (Option.some.inj h)
      exact ⟨List.nil_suffix, fun hfeed => absurd hfeed (by simp)⟩

/-- Two characters in front of a text are in front of its beginning, since a line feed comes
first otherwise. -/
theorem exists_of_append_eq_cons_cons {s more after : Text} {c d : Char} (hfeed : '\n' ∈ s)
    (hc : c ≠ '\n') (h : s ++ more = c :: d :: after) :
    ∃ rest, s = c :: d :: rest ∧ after = rest ++ more := by
  match s with
  | [] => simp at hfeed
  | [e] =>
      obtain ⟨rfl, -⟩ := List.cons.inj h
      exact absurd (List.mem_singleton.mp hfeed).symm hc
  | e :: f :: rest =>
      obtain ⟨rfl, htail⟩ := List.cons.inj h
      obtain ⟨rfl, hafter⟩ := List.cons.inj htail
      exact ⟨rest, rfl, hafter.symm⟩

theorem startsMethod_append {s : Text} (hfeed : '\n' ∈ s) (more : Text) :
    startsMethod (s ++ more) = startsMethod s := by
  match s with
  | [] => simp at hfeed
  | [c] =>
      obtain rfl := List.mem_singleton.mp hfeed
      rfl
  | c :: d :: rest =>
      by_cases hdot : c = '.'
      · rw [hdot]
        rfl
      · rw [startsMethod_of_head?_ne (by simpa using hdot),
          startsMethod_of_head?_ne (by simpa using hdot)]

theorem extends_scopes (more : Text) : Extends more scopes scopes := by
  intro s depth rest h
  fun_induction scopes s generalizing depth rest with
  | case1 => simp at h
  | case2 after name afterName hname hlength ih =>
      obtain ⟨found, hread, rfl⟩ := exists_of_map_eq_some h fun _ => rfl
      obtain ⟨hrest, hagain⟩ := ih hread
      obtain ⟨hsuffix, hname'⟩ := extends_name? more hname
      refine ⟨(hrest.trans hsuffix).trans (suffix_cons_cons _ _ after), fun hfeed => ?_⟩
      rw [List.cons_append, List.cons_append, scopes, hname' (hrest.mem hfeed)]
      simp only [List.length_append, Nat.add_le_add_iff_right, if_pos hlength, hagain hfeed,
        Option.map_some]
  | case3 => simp at h
  | case4 s hnone =>
      obtain ⟨rfl, rfl⟩ := Prod.mk.inj (Option.some.inj h)
      refine ⟨List.suffix_rfl, fun hfeed => scopes_of_ne ?_⟩
      intro after' heq
      obtain ⟨after, hafter, -⟩ := exists_of_append_eq_cons_cons hfeed (by decide) heq
      exact hnone after hafter

/-! ## Literals -/

theorem extends_singleQuoted (more : Text) : Extends more singleQuoted singleQuoted := by
  intro s text rest h
  obtain ⟨used, rfl, -, hagain⟩ := delimits_singleQuoted h
  refine ⟨List.suffix_append used rest, fun _ => ?_⟩
  rw [List.append_assoc]
  exact hagain (rest ++ more)

section Nested

variable {nested nested' : Parser Expr} {more : Text} (hnested : Extends more nested nested')
include hnested

/-- A nested expression is read behind the blanks in front of it. -/
theorem Extends.skipSpace {s rest : Text} {value : Expr}
    (h : nested (skipSpace s) = some (value, rest)) :
    rest <:+ s ∧ ('\n' ∈ rest → nested' (Expr.skipSpace (s ++ more)) =
      some (value, rest ++ more)) := by
  obtain ⟨hrest, hagain⟩ := hnested h
  refine ⟨hrest.trans (skipSpace_suffix s), fun hfeed => ?_⟩
  have hmem : '\n' ∈ Expr.skipSpace s := hrest.mem hfeed
  rw [Expr.skipSpace, (dropWhile_append_of_mem hmem more).1]
  exact hagain hfeed

theorem extends_doubleQuoted : Extends more (doubleQuoted nested) (doubleQuoted nested') := by
  intro s parts rest h
  fun_induction doubleQuoted nested s generalizing parts rest with
  | case1 => simp at h
  | case2 after =>
      obtain ⟨rfl, rfl⟩ := Prod.mk.inj (Option.some.inj h)
      exact ⟨List.suffix_cons _ _, fun _ => by rw [List.cons_append, doubleQuoted]⟩
  | case3 => simp at h
  | case4 c after ih =>
      obtain ⟨found, hread, rfl⟩ := exists_of_map_eq_some h fun _ => rfl
      obtain ⟨hrest, hagain⟩ := ih hread
      refine ⟨hrest.trans (suffix_cons_cons _ _ after), fun hfeed => ?_⟩
      rw [List.cons_append, List.cons_append, doubleQuoted, hagain hfeed, Option.map_some]
  | case5 => simp at h
  | case6 after value inner hinner outer houter hlength ih =>
      obtain ⟨found, hread, rfl⟩ := exists_of_map_eq_some h fun _ => rfl
      obtain ⟨hrest, hagain⟩ := ih hread
      obtain ⟨hsuffix, hinner'⟩ := hnested.skipSpace hinner
      have hinside : rest <:+ inner :=
        hrest.trans (suffix_of_skipSpace_eq_cons List.suffix_rfl houter)
      refine ⟨(hinside.trans hsuffix).trans (suffix_cons_cons _ _ after), fun hfeed => ?_⟩
      rw [List.cons_append, List.cons_append, doubleQuoted, hinner' (hinside.mem hfeed)]
      simp only [skipSpace_append_of_eq_cons houter, List.length_append, Nat.add_le_add_iff_right,
        if_pos hlength, hagain hfeed, Option.map_some]
  | case7 => simp at h
  | case8 => simp at h
  | case9 c after hquote hlast hescape hinterpolation ih =>
      obtain ⟨found, hread, rfl⟩ := exists_of_map_eq_some h fun _ => rfl
      obtain ⟨hrest, hagain⟩ := ih hread
      refine ⟨hrest.trans (List.suffix_cons c after), fun hfeed => ?_⟩
      have hafter : after ≠ [] := List.ne_nil_of_mem (hrest.mem hfeed)
      have hbackslash : c ≠ '\\' := by
        rintro rfl
        obtain ⟨d, tail, rfl⟩ := List.exists_cons_of_ne_nil hafter
        exact hescape d tail rfl rfl
      have hbrace : c = '#' → (after ++ more).head? ≠ some '\x7b' := by
        intro hhash hhead
        rw [List.head?_append_of_ne_nil _ hafter] at hhead
        obtain ⟨tail, htail⟩ := List.head?_eq_some_iff.mp hhead
        exact hinterpolation tail hhash htail
      rw [List.cons_append, doubleQuoted_cons nested' hquote hbackslash hbrace, hagain hfeed,
        Option.map_some]

/-! ## Calls -/

theorem extends_moreArguments : Extends more (moreArguments nested) (moreArguments nested') := by
  intro s args rest h
  fun_induction moreArguments nested s generalizing args rest with
  | case1 => simp at h
  | case2 s arg after hread later hcomma hlength ih =>
      obtain ⟨found, hlater, rfl⟩ := exists_of_map_eq_some h fun _ => rfl
      obtain ⟨hrest, hagain⟩ := ih hlater
      obtain ⟨hsuffix, hread'⟩ := hnested.skipSpace hread
      have hinside : rest <:+ after :=
        hrest.trans (suffix_of_skipSpace_eq_cons List.suffix_rfl hcomma)
      refine ⟨hinside.trans hsuffix, fun hfeed => ?_⟩
      rw [moreArguments, hread' (hinside.mem hfeed)]
      simp only [skipSpace_append_of_eq_cons hcomma, List.length_append, Nat.add_lt_add_iff_right,
        if_pos hlength, hagain hfeed, Option.map_some]
  | case3 => simp at h
  | case4 s arg after hread last hclose =>
      obtain ⟨rfl, rfl⟩ := Prod.mk.inj (Option.some.inj h)
      obtain ⟨hsuffix, hread'⟩ := hnested.skipSpace hread
      have hinside : last <:+ after := suffix_of_skipSpace_eq_cons List.suffix_rfl hclose
      refine ⟨hinside.trans hsuffix, fun hfeed => ?_⟩
      rw [moreArguments, hread' (hinside.mem hfeed)]
      simp only [skipSpace_append_of_eq_cons hclose]
  | case5 => simp at h

theorem extends_arguments : Extends more (arguments nested) (arguments nested') := by
  intro s args rest h
  by_cases hopen : s.head? = some '('
  · obtain ⟨inner, rfl⟩ := List.head?_eq_some_iff.mp hopen
    have hinner := List.suffix_cons '(' inner
    by_cases hclose : (Expr.skipSpace inner).head? = some ')'
    · obtain ⟨after, hafter⟩ := List.head?_eq_some_iff.mp hclose
      simp only [arguments, hafter] at h
      obtain ⟨rfl, rfl⟩ := Prod.mk.inj (Option.some.inj h)
      refine ⟨(suffix_of_skipSpace_eq_cons List.suffix_rfl hafter).trans hinner, fun _ => ?_⟩
      simp only [List.cons_append, arguments, skipSpace_append_of_eq_cons hafter]
    · rw [arguments_of_open hclose] at h
      obtain ⟨hrest, hagain⟩ := extends_moreArguments hnested h
      refine ⟨(hrest.trans (skipSpace_suffix inner)).trans hinner, fun hfeed => ?_⟩
      have hskip : Expr.skipSpace (inner ++ more) = Expr.skipSpace inner ++ more :=
        (dropWhile_append_of_mem (hrest.mem hfeed) more).1
      have hne : Expr.skipSpace inner ≠ [] := List.ne_nil_of_mem (hrest.mem hfeed)
      have hclose' : (Expr.skipSpace (inner ++ more)).head? ≠ some ')' := by
        rwa [hskip, List.head?_append_of_ne_nil _ hne]
      rw [List.cons_append, arguments_of_open hclose', hskip]
      exact hagain hfeed
  · rw [arguments_of_head?_ne hopen] at h
    obtain ⟨rfl, rfl⟩ := Prod.mk.inj (Option.some.inj h)
    refine ⟨List.suffix_rfl, fun hfeed => ?_⟩
    apply arguments_of_head?_ne
    rwa [List.head?_append_of_ne_nil _ (List.ne_nil_of_mem hfeed)]

theorem extends_constant : Extends more (constant nested) (constant nested') := by
  intro s value rest h
  simp only [constant] at h
  split at h
  · simp at h
  next first afterFirst hfirst =>
    obtain ⟨hafterFirst, hfirst'⟩ := extends_name? more hfirst
    split at h
    · simp at h
    next depth path hpath =>
      obtain ⟨hpathSuffix, hpath'⟩ := extends_scopes more hpath
      split at h
      next hstart =>
        split at h
        · simp at h
        next method afterMethod hmethod =>
          obtain ⟨args, hread, rfl⟩ := exists_of_map_eq_some h fun _ => rfl
          obtain ⟨hafterMethod, hmethod'⟩ := extends_name? more hmethod
          obtain ⟨hrest, hargs'⟩ := extends_arguments hnested hread
          have htail : afterMethod <:+ path := hafterMethod.trans (List.tail_suffix path)
          refine ⟨((hrest.trans htail).trans hpathSuffix).trans hafterFirst, fun hfeed => ?_⟩
          have hpathFeed : '\n' ∈ path := (hrest.trans htail).mem hfeed
          simp only [constant, hfirst' (hpathSuffix.mem hpathFeed), hpath' hpathFeed,
            startsMethod_append hpathFeed, hstart, if_true,
            List.tail_append_of_ne_nil (List.ne_nil_of_mem hpathFeed),
            hmethod' (hrest.mem hfeed), hargs' hfeed, Option.map_some]
      next hstart =>
        obtain ⟨rfl, rfl⟩ := Prod.mk.inj (Option.some.inj h)
        refine ⟨hpathSuffix.trans hafterFirst, fun hfeed => ?_⟩
        simp only [constant, hfirst' (hpathSuffix.mem hfeed), hpath' hfeed,
          startsMethod_append hfeed, hstart, if_false, Bool.false_eq_true]

theorem extends_nameCall : Extends more (nameCall nested) (nameCall nested') := by
  intro s value rest h
  simp only [nameCall] at h
  split at h
  · simp at h
  next name after hname =>
    obtain ⟨hafter, hname'⟩ := extends_name? more hname
    split at h
    next hfile =>
      obtain ⟨rfl, rfl⟩ := Prod.mk.inj (Option.some.inj h)
      refine ⟨hafter, fun hfeed => ?_⟩
      simp only [nameCall, hname' hfeed, if_pos hfile]
    next hfile =>
      split at h
      next hdir =>
        split at h
        next last =>
          obtain ⟨rfl, rfl⟩ := Prod.mk.inj (Option.some.inj h)
          have hlast := suffix_cons_cons '(' ')' last
          refine ⟨hlast.trans hafter, fun hfeed => ?_⟩
          simp only [nameCall, hname' (hlast.mem hfeed), if_neg hfile, if_pos hdir,
            List.cons_append]
        next hparens =>
          obtain ⟨rfl, rfl⟩ := Prod.mk.inj (Option.some.inj h)
          refine ⟨hafter, fun hfeed => ?_⟩
          simp only [nameCall, hname' hfeed, if_neg hfile, if_pos hdir]
          split
          next last' heq =>
            obtain ⟨last, hlast, -⟩ := exists_of_append_eq_cons_cons hfeed (by decide) heq
            exact absurd hlast (hparens last)
          · rfl
      next hdir =>
        obtain ⟨args, hread, rfl⟩ := exists_of_map_eq_some h fun _ => rfl
        obtain ⟨hrest, hargs'⟩ := extends_arguments hnested hread
        refine ⟨hrest.trans hafter, fun hfeed => ?_⟩
        simp only [nameCall, hname' (hrest.mem hfeed), if_neg hfile, if_neg hdir, hargs' hfeed,
          Option.map_some]

/-! ## Operands and sums -/

theorem extends_primary : Extends more (primary nested) (primary nested') := by
  intro s value rest h
  unfold primary at h
  split at h
  · simp at h
  next after =>
    obtain ⟨text, hread, rfl⟩ := exists_of_map_eq_some h fun _ => rfl
    obtain ⟨hrest, hagain⟩ := extends_singleQuoted more hread
    refine ⟨hrest.trans (List.suffix_cons _ after), fun hfeed => ?_⟩
    simp only [List.cons_append, primary, hagain hfeed, Option.map_some]
  next after =>
    obtain ⟨parts, hread, rfl⟩ := exists_of_map_eq_some h fun _ => rfl
    obtain ⟨hrest, hagain⟩ := extends_doubleQuoted hnested hread
    refine ⟨hrest.trans (List.suffix_cons _ after), fun hfeed => ?_⟩
    simp only [List.cons_append, primary, hagain hfeed, Option.map_some]
  next after =>
    split at h
    · simp at h
    next inner afterInner hinner =>
      split at h
      next last hlast =>
        obtain ⟨rfl, rfl⟩ := Prod.mk.inj (Option.some.inj h)
        obtain ⟨hafterInner, hinner'⟩ := hnested.skipSpace hinner
        have hinside := suffix_of_skipSpace_eq_cons List.suffix_rfl hlast
        refine ⟨(hinside.trans hafterInner).trans (List.suffix_cons _ after), fun hfeed => ?_⟩
        simp only [List.cons_append, primary, hinner' (hinside.mem hfeed),
          skipSpace_append_of_eq_cons hlast]
      · simp at h
  next after =>
    obtain ⟨hrest, hagain⟩ := extends_constant hnested h
    refine ⟨hrest.trans (suffix_cons_cons _ _ after), fun hfeed => ?_⟩
    simp only [List.cons_append, primary]
    exact hagain hfeed
  next c after _ _ _ _ =>
    split at h
    next hupper =>
      obtain ⟨hrest, hagain⟩ := extends_constant hnested h
      refine ⟨hrest, fun hfeed => ?_⟩
      rw [List.cons_append, primary_of_isUpper hupper]
      exact hagain hfeed
    next hupper =>
      split at h
      next hstart =>
        obtain ⟨hrest, hagain⟩ := extends_nameCall hnested h
        refine ⟨hrest, fun hfeed => ?_⟩
        rw [List.cons_append, primary_of_isNameStart hupper hstart]
        exact hagain hfeed
      · simp at h

theorem extends_methods (receiver : Expr) :
    Extends more (methods nested receiver) (methods nested' receiver) := by
  intro s value rest h
  fun_induction methods nested receiver s generalizing value rest with
  | case1 => simp at h
  | case2 => simp at h
  | case3 receiver s hstart method afterName hmethod args after hargs hlength ih =>
      obtain ⟨hrest, hagain⟩ := ih h
      obtain ⟨hafter, hargs'⟩ := extends_arguments hnested hargs
      obtain ⟨hafterName, hmethod'⟩ := extends_name? more hmethod
      have hcalled : rest <:+ afterName := hrest.trans hafter
      have hinside : rest <:+ s := (hcalled.trans hafterName).trans (List.tail_suffix s)
      refine ⟨hinside, fun hfeed => ?_⟩
      rw [methods, if_pos ((startsMethod_append (hinside.mem hfeed) more).trans hstart)]
      simp only [List.tail_append_of_ne_nil (List.ne_nil_of_mem (hinside.mem hfeed)),
        hmethod' (hcalled.mem hfeed), hargs' (hrest.mem hfeed), List.length_append,
        Nat.add_lt_add_iff_right, if_pos hlength]
      exact hagain hfeed
  | case4 => simp at h
  | case5 receiver s hstart =>
      obtain ⟨rfl, rfl⟩ := Prod.mk.inj (Option.some.inj h)
      refine ⟨List.suffix_rfl, fun hfeed => ?_⟩
      rw [methods, startsMethod_append hfeed, if_neg hstart]

theorem extends_operand : Extends more (operand nested) (operand nested') := by
  intro s value rest h
  simp only [operand] at h
  split at h
  · simp at h
  next receiver after hprimary =>
    obtain ⟨hafter, hprimary'⟩ := extends_primary hnested hprimary
    obtain ⟨hrest, hagain⟩ := extends_methods hnested receiver h
    refine ⟨hrest.trans hafter, fun hfeed => ?_⟩
    simp only [operand, hprimary' (hrest.mem hfeed)]
    exact hagain hfeed

omit hnested in
/-- Blanks within a line are skipped up to the line feed at most. -/
theorem skipInline_append {s : Text} (hfeed : '\n' ∈ s) (more : Text) :
    '\n' ∈ skipInline s ∧ skipInline (s ++ more) = skipInline s ++ more := by
  have hsplit : s.takeWhile Text.isInlineBlank ++ skipInline s = s :=
    List.takeWhile_append_dropWhile
  rw [← hsplit] at hfeed
  have hleft : '\n' ∈ skipInline s := by
    rcases List.mem_append.mp hfeed with hblank | hleft
    · exact absurd (List.mem_takeWhile_imp hblank) (by decide)
    · exact hleft
  exact ⟨hleft, (dropWhile_append_of_mem hleft more).1⟩

omit hnested in
/-- Whether a sum goes on is decided before the line feed. -/
theorem afterPlus?_append {s : Text} (hfeed : '\n' ∈ s) (more : Text) :
    (afterPlus? s = none → afterPlus? (s ++ more) = none) ∧
      ∀ rest, afterPlus? s = some rest → '\n' ∈ rest →
        afterPlus? (s ++ more) = some (rest ++ more) := by
  obtain ⟨hleft, hskip⟩ := skipInline_append hfeed more
  rw [afterPlus?, afterPlus?, hskip]
  obtain ⟨c, after, hcons⟩ := List.exists_cons_of_ne_nil (List.ne_nil_of_mem hleft)
  rw [hcons] at hleft ⊢
  by_cases hplus : c = '+'
  · have hafter : '\n' ∈ after := by
      rcases List.mem_cons.mp hleft with rfl | hafter
      · exact absurd hplus (by decide)
      · exact hafter
    rw [hplus, List.cons_append]
    simp only [List.head?_append_of_ne_nil _ (List.ne_nil_of_mem hafter)]
    split
    · simp
    · refine ⟨by simp, ?_⟩
      intro rest hrest hmem
      obtain rfl := Option.some.inj hrest
      exact congrArg some (dropWhile_append_of_mem hmem more).1
  · simp [hplus]

theorem extends_addends (left : Expr) :
    Extends more (addends nested left) (addends nested' left) := by
  intro s value rest h
  fun_induction addends nested left s generalizing value rest with
  | case1 left s hplus =>
      obtain ⟨rfl, rfl⟩ := Prod.mk.inj (Option.some.inj h)
      refine ⟨List.suffix_rfl, fun hfeed => ?_⟩
      rw [addends]
      simp only [(afterPlus?_append hfeed more).1 hplus]
  | case2 => simp at h
  | case3 left s inner hplus right after hright hlength ih =>
      obtain ⟨hrest, hagain⟩ := ih h
      obtain ⟨hafter, hright'⟩ := extends_operand hnested hright
      have hinner : inner <:+ s := (suffix_of_afterPlus?_eq_some hplus).1
      have hinside : rest <:+ inner := hrest.trans hafter
      refine ⟨hinside.trans hinner, fun hfeed => ?_⟩
      have hplus' := (afterPlus?_append ((hinside.trans hinner).mem hfeed) more).2 inner hplus
        (hinside.mem hfeed)
      rw [addends]
      simp only [hplus', hright' (hrest.mem hfeed), List.length_append, Nat.add_lt_add_iff_right,
        if_pos hlength]
      exact hagain hfeed
  | case4 => simp at h

theorem extends_sum : Extends more (sum nested) (sum nested') := by
  intro s value rest h
  simp only [sum] at h
  split at h
  · simp at h
  next left after hoperand =>
    obtain ⟨hafter, hoperand'⟩ := extends_operand hnested hoperand
    obtain ⟨hrest, hagain⟩ := extends_addends hnested left h
    refine ⟨hrest.trans hafter, fun hfeed => ?_⟩
    simp only [sum, hoperand' (hrest.mem hfeed)]
    exact hagain hfeed

end Nested

/-- An expression that leaves a line feed is read from any text that goes on: induction on the
length of the text, since nested expressions are read from shorter texts. -/
theorem extends_parse? (more : Text) : Extends more parse? parse? := by
  intro s value rest h
  induction hsize : s.length using Nat.strongRecOn generalizing s value rest with
  | ind n ih =>
      have hnested : Extends more (fun t => if t.length < s.length then parse? t else none)
          (fun t => if t.length < (s ++ more).length then parse? t else none) := by
        intro t inner after hread
        obtain ⟨hlt, hread⟩ := Option.ite_none_right_eq_some.mp hread
        obtain ⟨hafter, hagain⟩ := ih t.length (hsize ▸ hlt) hread rfl
        refine ⟨hafter, fun hfeed => ?_⟩
        simp only [List.length_append, Nat.add_lt_add_iff_right, if_pos hlt]
        exact hagain hfeed
      rw [parse?] at h
      obtain ⟨hrest, hagain⟩ := extends_sum hnested h
      refine ⟨hrest, fun hfeed => ?_⟩
      rw [parse?]
      exact hagain hfeed

end RequireLint.Expr
