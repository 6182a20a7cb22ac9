import RequireLint.Proofs.Source.Delimited
import RequireLint.Proofs.Text.Returns

/-!
# Expressions over lines with carriage returns

An expression may go on over the following lines, and its literals may hold line ends.  Read from
a text whose lines end in carriage returns, it is the same up to the carriage returns before line
feeds in its literals, and it ends at the same place.

Every piece of the grammar is shown to agree with itself on the two texts.  A nested expression is
read from what is left of its text, and the two parsers for it need to agree on that only.
-/

namespace RequireLint

mutual

/-- An expression without the carriage returns before line feeds in its literals. -/
def Expr.dropReturns : Expr → Expr
  | .str text => .str (Text.dropReturns text)
  | .interpolated parts => .interpolated parts.dropReturns
  | .currentFile => .currentFile
  | .currentDir => .currentDir
  | .ident name => .ident name
  | .expandPath path => .expandPath path.dropReturns
  | .expandPathFrom path base => .expandPathFrom path.dropReturns base.dropReturns
  | .dirname path => .dirname path.dropReturns
  | .concat left right => .concat left.dropReturns right.dropReturns
  | .other => .other

/-- Parts without the carriage returns before line feeds in their texts. -/
def Parts.dropReturns : Parts → Parts
  | .nil => .nil
  | .text chars rest => .text (Text.dropReturns chars) rest.dropReturns
  | .expr value rest => .expr value.dropReturns rest.dropReturns

end

namespace Expr

open Text (withReturns withReturns_cons withReturns_feed exists_of_withReturns_eq_cons)

/-- Two readings agree: both fail, or both stop at the same place with what is the same up to
`norm`. -/
def Agree {α β : Type} (norm : α → β) (s : Text) (read read' : Option (α × Text)) : Prop :=
  (read = none ∧ read' = none) ∨ ∃ value value' rest, read = some (value, rest) ∧
    read' = some (value', withReturns rest) ∧ rest <:+ s ∧ norm value' = norm value

namespace Agree

variable {α β γ δ : Type} {norm : α → β} {norm' : γ → δ} {s t : Text}
  {read read' : Option (α × Text)}

theorem of_none : Agree norm s none none := .inl ⟨rfl, rfl⟩

theorem of_some {value value' : α} {rest : Text} (hrest : rest <:+ s)
    (hvalue : norm value' = norm value) :
    Agree norm s (some (value, rest)) (some (value', withReturns rest)) :=
  .inr ⟨value, value', rest, rfl, rfl, hrest, hvalue⟩

theorem eq_none (h : Agree norm s none read') : read' = none := by
  rcases h with ⟨-, hnone⟩ | ⟨value, value', rest, hsome, -⟩
  · exact hnone
  · simp at hsome

theorem exists_eq_some {value : α} {rest : Text} (h : Agree norm s (some (value, rest)) read') :
    rest <:+ s ∧ ∃ value', read' = some (value', withReturns rest) ∧ norm value' = norm value := by
  rcases h with ⟨hnone, -⟩ | ⟨found, value', after, hsome, hread, hsuffix, heq⟩
  · simp at hnone
  · obtain ⟨rfl, rfl⟩ := Prod.mk.inj (Option.some.inj hsome)
    exact ⟨hsuffix, value', hread, heq⟩

theorem mono (h : Agree norm t read read') (hts : t <:+ s) : Agree norm s read read' := by
  rcases h with ⟨rfl, rfl⟩ | ⟨value, value', rest, rfl, rfl, hrest, hvalue⟩
  · exact of_none
  · exact of_some (hrest.trans hts) hvalue

/-- What was read may be changed on both sides, if the changes agree. -/
theorem map {change change' : α × Text → γ × Text} (h : Agree norm s read read')
    (hrest : ∀ pair, (change pair).2 = pair.2) (hrest' : ∀ pair, (change' pair).2 = pair.2)
    (hvalue : ∀ a a' rest rest', norm a' = norm a →
      norm' (change' (a', rest')).1 = norm' (change (a, rest)).1) :
    Agree norm' s (read.map change) (read'.map change') := by
  rcases h with ⟨rfl, rfl⟩ | ⟨value, value', rest, rfl, rfl, hsuffix, heq⟩
  · exact of_none
  · have hchange : change (value, rest) = ((change (value, rest)).1, rest) :=
      Prod.ext rfl (hrest _)
    have hchange' : change' (value', withReturns rest) =
        ((change' (value', withReturns rest)).1, withReturns rest) :=
      Prod.ext rfl (hrest' _)
    rw [Option.map_some, Option.map_some, hchange, hchange']
    exact of_some hsuffix (hvalue value value' rest _ heq)

end Agree

/-! ## Blanks and names -/

theorem skipSpace_suffix (s : Text) : skipSpace s <:+ s := List.dropWhile_suffix _

theorem skipSpace_withReturns (s : Text) :
    skipSpace (withReturns s) = withReturns (skipSpace s) := by
  induction s with
  | nil => rfl
  | cons c s ih =>
      by_cases hc : c = '\n'
      · rw [hc, withReturns_feed]
        exact ih
      · rw [withReturns_cons hc, skipSpace, skipSpace, List.dropWhile_cons, List.dropWhile_cons]
        split
        · exact ih
        · exact (withReturns_cons hc s).symm

/-- What follows a character behind blanks is left of the text. -/
theorem suffix_of_skipSpace_eq_cons {s after rest : Text} {c : Char} (hafter : after <:+ s)
    (h : skipSpace after = c :: rest) : rest <:+ s := by
  apply (List.suffix_cons c rest).trans
  rw [← h]
  exact (skipSpace_suffix after).trans hafter

theorem length_lt_of_skipSpace_eq_cons {s after rest : Text} {c : Char} (hafter : after <:+ s)
    (h : skipSpace after = c :: rest) : rest.length < s.length := by
  have hle := ((skipSpace_suffix after).trans hafter).length_le
  rw [h, List.length_cons] at hle
  omega

theorem skipInline_withReturns (s : Text) :
    skipInline (withReturns s) = withReturns (skipInline s) :=
  Text.dropWhile_withReturns (by decide) (by decide) s

theorem head?_withReturns_ne_iff {c : Char} (hfeed : c ≠ '\n') (hreturn : c ≠ '\r') (s : Text) :
    (withReturns s).head? ≠ some c ↔ s.head? ≠ some c := by
  cases s with
  | nil => rfl
  | cons d s =>
      by_cases hd : d = '\n'
      · simp [hd, hfeed.symm, hreturn.symm]
      · simp [withReturns_cons hd]

theorem agree_name? (s : Text) : Agree id s (name? s) (name? (withReturns s)) := by
  have htake : (withReturns s).takeWhile isNameChar = s.takeWhile isNameChar :=
    Text.takeWhile_withReturns (by decide) (by decide) s
  have hdrop : (withReturns s).dropWhile isNameChar = withReturns (s.dropWhile isNameChar) :=
    Text.dropWhile_withReturns (by decide) (by decide) s
  have hsuffix : s.dropWhile isNameChar <:+ s := List.dropWhile_suffix _
  rw [name?, name?, htake, hdrop]
  generalize s.takeWhile isNameChar = word
  generalize s.dropWhile isNameChar = after at hsuffix
  -- A name without a mark ends at the same place in both texts.
  have hword : Agree id s (if word.isEmpty then none else some (word, after))
      (if word.isEmpty then none else some (word, withReturns after)) := by
    split
    · exact .of_none
    · exact .of_some hsuffix rfl
  cases after with
  | nil => exact hword
  | cons c after =>
      by_cases hc : c = '\n'
      · simpa [hc] using hword
      · rw [withReturns_cons hc] at hword ⊢
        simp only [head?_withReturns_ne_iff (c := '=') (by decide) (by decide)]
        split
        · exact .of_some ((List.suffix_cons c after).trans hsuffix) rfl
        · exact hword

theorem name?_withReturns_eq_none {s : Text} (h : name? s = none) :
    name? (withReturns s) = none := by
  have hagree := agree_name? s
  rw [h] at hagree
  exact hagree.eq_none

theorem name?_withReturns_eq_some {s name rest : Text} (h : name? s = some (name, rest)) :
    rest <:+ s ∧ name? (withReturns s) = some (name, withReturns rest) := by
  have hagree := agree_name? s
  rw [h] at hagree
  obtain ⟨hsuffix, name', hname, rfl⟩ := hagree.exists_eq_some
  exact ⟨hsuffix, hname⟩

/-! ## Literals -/

theorem singleQuoted_cons {c : Char} (hquote : c ≠ '\x27') (hescape : c ≠ '\\') (rest : Text) :
    singleQuoted (c :: rest) = (singleQuoted rest).map fun (text, after) => (c :: text, after) := by
  rw [singleQuoted]
  · exact hquote
  · exact fun hc _ => hescape hc
  · exact fun _ _ hc _ => hescape hc

theorem dropReturns_cons_congr {t u : Text} (h : Text.dropReturns u = Text.dropReturns t)
    (c : Char) : Text.dropReturns (c :: u) = Text.dropReturns (c :: t) := by
  rw [Text.dropReturns_cons, Text.dropReturns_cons, h]

/-- A line end with a carriage return counts as one without. -/
theorem dropReturns_return_feed_congr {t u : Text} (h : Text.dropReturns u = Text.dropReturns t) :
    Text.dropReturns ('\r' :: '\n' :: u) = Text.dropReturns ('\n' :: t) := by
  rw [Text.dropReturns_cons, Text.dropReturns_cons, Text.dropReturns_cons, h]
  rfl

theorem agree_singleQuoted (s : Text) :
    Agree Text.dropReturns s (singleQuoted s) (singleQuoted (withReturns s)) := by
  fun_induction singleQuoted s with
  | case1 => exact .of_none
  | case2 rest => exact .of_some (List.suffix_cons _ _) rfl
  | case3 => exact .of_none
  | case4 c rest ih =>
      have hrest : rest <:+ '\\' :: c :: rest :=
        (List.suffix_cons c rest).trans (List.suffix_cons _ _)
      by_cases hc : c = '\n'
      · -- The backslash is read with the carriage return, the line feed by itself.
        have hfeed := singleQuoted_cons (c := '\n') (by decide) (by decide) (withReturns rest)
        rw [hc] at hrest ⊢
        rw [withReturns_cons (by decide), withReturns_feed, singleQuoted, hfeed, Option.map_map]
        refine (ih.mono hrest).map (fun _ => rfl) (fun _ => rfl) ?_
        intro t u _ _ htu
        exact dropReturns_cons_congr (dropReturns_return_feed_congr htu) _
      · rw [withReturns_cons (by decide), withReturns_cons hc, singleQuoted]
        refine (ih.mono hrest).map (fun _ => rfl) (fun _ => rfl) ?_
        intro t u _ _ htu
        dsimp only
        split
        · exact dropReturns_cons_congr htu _
        · exact dropReturns_cons_congr (dropReturns_cons_congr htu _) _
  | case5 c rest hquote hlast hescape ih =>
      have hrest := ih.mono (List.suffix_cons c rest)
      by_cases hc : c = '\n'
      · have hfeed := singleQuoted_cons (c := '\n') (by decide) (by decide) (withReturns rest)
        have hreturn := singleQuoted_cons (c := '\r') (by decide) (by decide)
          ('\n' :: withReturns rest)
        rw [hc] at hrest ⊢
        rw [withReturns_feed, hreturn, hfeed, Option.map_map]
        refine hrest.map (fun _ => rfl) (fun _ => rfl) ?_
        intro t u _ _ htu
        exact dropReturns_return_feed_congr htu
      · have hbackslash : c ≠ '\\' := by
          rintro rfl
          cases rest with
          | nil => exact hlast rfl rfl
          | cons d rest => exact hescape d rest rfl rfl
        rw [withReturns_cons hc, singleQuoted_cons hquote hbackslash]
        refine hrest.map (fun _ => rfl) (fun _ => rfl) ?_
        intro t u _ _ htu
        exact dropReturns_cons_congr htu _

/-- One character in front of parts without carriage returns before line feeds. -/
def pushed (c : Char) : Parts → Parts
  | .text chars rest => .text (Text.consReturn c chars) rest
  | parts => .text (Text.consReturn c []) parts

theorem dropReturns_push (c : Char) (parts : Parts) :
    (parts.push c).dropReturns = pushed c parts.dropReturns := by
  cases parts <;> rfl

theorem dropReturns_push_congr {parts parts' : Parts} (h : parts'.dropReturns = parts.dropReturns)
    (c : Char) : (parts'.push c).dropReturns = (parts.push c).dropReturns := by
  rw [dropReturns_push, dropReturns_push, h]

theorem dropReturns_push_return_feed_congr {parts parts' : Parts}
    (h : parts'.dropReturns = parts.dropReturns) :
    ((parts'.push '\n').push '\r').dropReturns = (parts.push '\n').dropReturns := by
  rw [dropReturns_push, dropReturns_push, dropReturns_push, h]
  cases parts.dropReturns <;> rfl

theorem dropReturns_toExpr (parts : Parts) :
    parts.toExpr.dropReturns = parts.dropReturns.toExpr := by
  cases parts with
  | nil => rfl
  | text chars rest => cases rest <;> rfl
  | expr value rest => rfl

theorem doubleQuoted_cons (nested : Parser Expr) {c : Char} (hquote : c ≠ '"')
    (hescape : c ≠ '\\') {rest : Text} (hinterpolation : c = '#' → rest.head? ≠ some '\x7b') :
    doubleQuoted nested (c :: rest) =
      (doubleQuoted nested rest).map fun (parts, after) => (parts.push c, after) := by
  rw [doubleQuoted]
  · exact hquote
  · exact fun hc _ => hescape hc
  · exact fun _ _ hc _ => hescape hc
  · intro after hc hrest
    exact hinterpolation hc (by rw [hrest]; rfl)

theorem tail_suffix_tail {s t : Text} (h : t <:+ s) : t.tail <:+ s.tail := by
  obtain ⟨lead, rfl⟩ := h
  cases lead with
  | nil => exact List.suffix_rfl
  | cons c lead => exact (List.tail_suffix t).trans (List.suffix_append lead t)

theorem suffix_cons_cons (c d : Char) (rest : Text) : rest <:+ c :: d :: rest :=
  (List.suffix_cons d rest).trans (List.suffix_cons c _)

/-- Parsers for nested expressions agree on all that a text may be left with. -/
def AgreeWithin (nested nested' : Parser Expr) (s : Text) : Prop :=
  ∀ t, t <:+ s → Agree Expr.dropReturns t (nested t) (nested' (withReturns t))

theorem AgreeWithin.mono {nested nested' : Parser Expr} {s t : Text}
    (h : AgreeWithin nested nested' s) (hts : t <:+ s) : AgreeWithin nested nested' t :=
  fun u hut => h u (hut.trans hts)

section Nested

variable {nested nested' : Parser Expr} {s : Text}

/-- A nested expression is read behind the blanks in front of it. -/
theorem AgreeWithin.exists_eq_some (h : AgreeWithin nested nested' s) {t rest : Text}
    {value : Expr} (hts : t <:+ s) (hread : nested (skipSpace t) = some (value, rest)) :
    rest <:+ t ∧ ∃ value', nested' (skipSpace (withReturns t)) = some (value', withReturns rest) ∧
      value'.dropReturns = value.dropReturns := by
  have hsome := h _ ((skipSpace_suffix t).trans hts)
  rw [hread] at hsome
  obtain ⟨hsuffix, hread'⟩ := hsome.exists_eq_some
  rw [skipSpace_withReturns]
  exact ⟨hsuffix.trans (skipSpace_suffix t), hread'⟩

theorem AgreeWithin.eq_none (h : AgreeWithin nested nested' s) {t : Text} (hts : t <:+ s)
    (hread : nested (skipSpace t) = none) : nested' (skipSpace (withReturns t)) = none := by
  have hnone := h _ ((skipSpace_suffix t).trans hts)
  rw [hread] at hnone
  rw [skipSpace_withReturns]
  exact hnone.eq_none

theorem agree_doubleQuoted (hnested : AgreeWithin nested nested' s) :
    Agree Parts.dropReturns s (doubleQuoted nested s) (doubleQuoted nested' (withReturns s)) := by
  fun_induction doubleQuoted nested s with
  | case1 =>
      rw [Text.withReturns_nil, doubleQuoted]
      exact .of_none
  | case2 rest =>
      rw [withReturns_cons (by decide), doubleQuoted]
      exact .of_some (List.suffix_cons _ _) rfl
  | case3 =>
      rw [withReturns_cons (by decide), Text.withReturns_nil, doubleQuoted]
      exact .of_none
  | case4 c rest ih =>
      have hrest : rest <:+ '\\' :: c :: rest :=
        (List.suffix_cons c rest).trans (List.suffix_cons _ _)
      have hagree := (ih (hnested.mono hrest)).mono hrest
      by_cases hc : c = '\n'
      · rw [hc] at hagree ⊢
        rw [withReturns_cons (by decide), withReturns_feed, doubleQuoted,
          doubleQuoted_cons nested' (by decide) (by decide) (by simp), Option.map_map]
        refine hagree.map (fun _ => rfl) (fun _ => rfl) ?_
        intro parts parts' _ _ heq
        exact dropReturns_push_return_feed_congr heq
      · rw [withReturns_cons (by decide), withReturns_cons hc, doubleQuoted]
        refine hagree.map (fun _ => rfl) (fun _ => rfl) ?_
        intro parts parts' _ _ heq
        exact dropReturns_push_congr heq _
  | case5 rest hinner =>
      rw [withReturns_cons (by decide), withReturns_cons (by decide), doubleQuoted,
        hnested.eq_none (suffix_cons_cons _ _ rest) hinner]
      exact .of_none
  | case6 rest found inner hinner outer houter hlength ih =>
      have hrest := suffix_cons_cons '#' '\x7b' rest
      obtain ⟨hsuffix, found', hinner', hfound⟩ := hnested.exists_eq_some hrest hinner
      have houter' := suffix_of_skipSpace_eq_cons hsuffix houter
      have hagree := (ih (hnested.mono (houter'.trans hrest))).mono (houter'.trans hrest)
      rw [withReturns_cons (by decide), withReturns_cons (by decide), doubleQuoted, hinner']
      simp only [skipSpace_withReturns, houter, withReturns_cons (show '\x7d' ≠ '\n' by decide),
        if_pos (Text.length_withReturns_le houter')]
      refine hagree.map (fun _ => rfl) (fun _ => rfl) ?_
      intro parts parts' _ _ heq
      simp only [Parts.dropReturns, hfound, heq]
  | case7 rest found inner hinner outer houter hlength =>
      obtain ⟨hsuffix, -⟩ := hnested.exists_eq_some (suffix_cons_cons _ _ rest) hinner
      have houter' := suffix_of_skipSpace_eq_cons hsuffix houter
      exact absurd houter'.length_le hlength
  | case8 rest found inner hinner hclose =>
      obtain ⟨-, found', hinner', -⟩ := hnested.exists_eq_some (suffix_cons_cons _ _ rest) hinner
      rw [withReturns_cons (by decide), withReturns_cons (by decide), doubleQuoted, hinner']
      simp only [skipSpace_withReturns]
      split
      next outer' houter' =>
        obtain ⟨outer, houter, -⟩ := exists_of_withReturns_eq_cons (by decide) houter'
        exact absurd houter (hclose outer)
      · exact .of_none
  | case9 c rest hquote hlast hescape hinterpolation ih =>
      have hrest := (List.suffix_cons c rest)
      have hagree := (ih (hnested.mono hrest)).mono hrest
      by_cases hc : c = '\n'
      · rw [hc] at hagree ⊢
        rw [withReturns_feed, doubleQuoted_cons nested' (by decide) (by decide) (by simp),
          doubleQuoted_cons nested' (by decide) (by decide) (by simp), Option.map_map]
        refine hagree.map (fun _ => rfl) (fun _ => rfl) ?_
        intro parts parts' _ _ heq
        exact dropReturns_push_return_feed_congr heq
      · have hbackslash : c ≠ '\\' := by
          rintro rfl
          cases rest with
          | nil => exact hlast rfl rfl
          | cons d rest => exact hescape d rest rfl rfl
        have hbrace : c = '#' → (withReturns rest).head? ≠ some '\x7b' := by
          intro hhash
          rw [head?_withReturns_ne_iff (by decide) (by decide)]
          intro hhead
          obtain ⟨after, hafter⟩ := List.head?_eq_some_iff.mp hhead
          exact hinterpolation after hhash hafter
        rw [withReturns_cons hc, doubleQuoted_cons nested' hquote hbackslash hbrace]
        refine hagree.map (fun _ => rfl) (fun _ => rfl) ?_
        intro parts parts' _ _ heq
        exact dropReturns_push_congr heq _

/-! ## Calls -/

/-- A list of expressions without the carriage returns before line feeds in their literals. -/
def dropReturnsAll (values : List Expr) : List Expr := values.map dropReturns

theorem agree_moreArguments (hnested : AgreeWithin nested nested' s) :
    Agree dropReturnsAll s (moreArguments nested s) (moreArguments nested' (withReturns s)) := by
  fun_induction moreArguments nested s with
  | case1 s hread =>
      rw [moreArguments.eq_def nested', hnested.eq_none List.suffix_rfl hread]
      exact .of_none
  | case2 s arg after hread rest hcomma hlength ih =>
      obtain ⟨hsuffix, arg', hread', harg⟩ := hnested.exists_eq_some List.suffix_rfl hread
      have hrest := suffix_of_skipSpace_eq_cons hsuffix hcomma
      have hagree := (ih (hnested.mono hrest)).mono hrest
      rw [moreArguments.eq_def nested', hread']
      simp only [skipSpace_withReturns, hcomma, withReturns_cons (show ',' ≠ '\n' by decide),
        if_pos (Text.length_withReturns_lt hrest hlength)]
      refine hagree.map (fun _ => rfl) (fun _ => rfl) ?_
      intro args args' _ _ heq
      rw [dropReturnsAll, dropReturnsAll] at heq ⊢
      rw [List.map_cons, List.map_cons, harg, heq]
  | case3 s arg after hread rest hcomma hlength =>
      obtain ⟨hsuffix, -⟩ := hnested.exists_eq_some List.suffix_rfl hread
      exact absurd (length_lt_of_skipSpace_eq_cons hsuffix hcomma) hlength
  | case4 s arg after hread rest hclose =>
      obtain ⟨hsuffix, arg', hread', harg⟩ := hnested.exists_eq_some List.suffix_rfl hread
      have hrest := suffix_of_skipSpace_eq_cons hsuffix hclose
      rw [moreArguments.eq_def nested', hread']
      simp only [skipSpace_withReturns, hclose, withReturns_cons (show ')' ≠ '\n' by decide)]
      exact .of_some hrest (by simp [dropReturnsAll, harg])
  | case5 s arg after hread hcomma hclose =>
      obtain ⟨-, arg', hread', -⟩ := hnested.exists_eq_some List.suffix_rfl hread
      rw [moreArguments.eq_def nested', hread']
      simp only [skipSpace_withReturns]
      split
      next rest' hcomma' =>
        obtain ⟨rest, hrest, -⟩ := exists_of_withReturns_eq_cons (by decide) hcomma'
        exact absurd hrest (hcomma rest)
      next rest' hclose' =>
        obtain ⟨rest, hrest, -⟩ := exists_of_withReturns_eq_cons (by decide) hclose'
        exact absurd hrest (hclose rest)
      · exact .of_none

theorem arguments_of_head?_ne {s : Text} (h : s.head? ≠ some '(') :
    arguments nested s = some ([], s) := by
  unfold arguments
  split
  · simp at h
  · rfl

theorem arguments_of_open {rest : Text} (h : (skipSpace rest).head? ≠ some ')') :
    arguments nested ('(' :: rest) = moreArguments nested (skipSpace rest) := by
  rw [arguments]
  split
  next after hclose => simp [hclose] at h
  · rfl

/-- Arguments are nested in what follows their parenthesis. -/
theorem agree_arguments (hnested : AgreeWithin nested nested' s.tail) :
    Agree dropReturnsAll s (arguments nested s) (arguments nested' (withReturns s)) := by
  by_cases hopen : s.head? = some '('
  · obtain ⟨rest, rfl⟩ := List.head?_eq_some_iff.mp hopen
    have hrest := List.suffix_cons '(' rest
    rw [withReturns_cons (by decide)]
    by_cases hclose : (skipSpace rest).head? = some ')'
    · obtain ⟨after, hafter⟩ := List.head?_eq_some_iff.mp hclose
      rw [arguments, arguments, skipSpace_withReturns, hafter, withReturns_cons (by decide)]
      exact .of_some ((suffix_of_skipSpace_eq_cons List.suffix_rfl hafter).trans hrest) rfl
    · have hclose' : (skipSpace (withReturns rest)).head? ≠ some ')' := by
        rw [skipSpace_withReturns]
        exact (head?_withReturns_ne_iff (by decide) (by decide) _).mpr hclose
      rw [arguments_of_open hclose, arguments_of_open hclose', skipSpace_withReturns]
      apply (agree_moreArguments (hnested.mono (skipSpace_suffix rest))).mono
      exact (skipSpace_suffix rest).trans hrest
  · rw [arguments_of_head?_ne hopen, arguments_of_head?_ne
      ((head?_withReturns_ne_iff (by decide) (by decide) s).mpr hopen)]
    exact .of_some List.suffix_rfl rfl

theorem startsMethod_of_head?_ne {s : Text} (h : s.head? ≠ some '.') : startsMethod s = false := by
  unfold startsMethod
  split
  · simp at h
  · rfl

theorem startsMethod_withReturns (s : Text) : startsMethod (withReturns s) = startsMethod s := by
  by_cases hdot : s.head? = some '.'
  · obtain ⟨rest, rfl⟩ := List.head?_eq_some_iff.mp hdot
    rw [withReturns_cons (by decide)]
    cases rest with
    | nil => rfl
    | cons c rest =>
        by_cases hc : c = '\n'
        · rw [hc]
          rfl
        · rw [withReturns_cons hc]
          rfl
  · rw [startsMethod_of_head?_ne hdot, startsMethod_of_head?_ne
      ((head?_withReturns_ne_iff (by decide) (by decide) s).mpr hdot)]

/-- A method is called behind its dot. -/
theorem tail_withReturns_of_startsMethod {s : Text} (h : startsMethod s = true) :
    (withReturns s).tail = withReturns s.tail := by
  obtain ⟨c, rest, rfl, -⟩ := exists_of_startsMethod h
  rw [withReturns_cons (by decide)]
  rfl

theorem scopes_of_ne {s : Text} (h : ∀ rest, s ≠ ':' :: ':' :: rest) :
    scopes s = some (0, s) := by
  unfold scopes
  split
  next rest => exact absurd rfl (h rest)
  · rfl

theorem exists_of_withReturns_eq_cons_cons {c d : Char} {s after : Text} (hc : c ≠ '\r')
    (hd : d ≠ '\r') (h : withReturns s = c :: d :: after) :
    ∃ rest, s = c :: d :: rest ∧ after = withReturns rest := by
  obtain ⟨tail, rfl, htail⟩ := exists_of_withReturns_eq_cons hc h
  obtain ⟨rest, rfl, hrest⟩ := exists_of_withReturns_eq_cons hd htail.symm
  exact ⟨rest, rfl, hrest⟩

theorem agree_scopes (s : Text) : Agree id s (scopes s) (scopes (withReturns s)) := by
  fun_induction scopes s with
  | case1 rest hname =>
      rw [withReturns_cons (by decide), withReturns_cons (by decide), scopes,
        name?_withReturns_eq_none hname]
      exact .of_none
  | case2 rest name after hname hlength ih =>
      obtain ⟨hsuffix, hname'⟩ := name?_withReturns_eq_some hname
      rw [withReturns_cons (by decide), withReturns_cons (by decide), scopes, hname']
      simp only [if_pos (Text.length_withReturns_le hsuffix)]
      refine (ih.mono (hsuffix.trans (suffix_cons_cons _ _ rest))).map (fun _ => rfl)
        (fun _ => rfl) ?_
      intro depth depth' _ _ heq
      exact congrArg (· + 1) heq
  | case3 rest name after hname hlength =>
      obtain ⟨hsuffix, -⟩ := name?_withReturns_eq_some hname
      exact absurd hsuffix.length_le hlength
  | case4 s hnone =>
      have hnone' : ∀ rest, withReturns s ≠ ':' :: ':' :: rest := by
        intro rest' heq
        obtain ⟨rest, hrest, -⟩ :=
          exists_of_withReturns_eq_cons_cons (by decide) (by decide) heq
        exact hnone rest hrest
      rw [scopes_of_ne hnone']
      exact .of_some List.suffix_rfl rfl

theorem dropReturns_fileCall (method : Text) (args : List Expr) :
    (fileCall method args).dropReturns = fileCall method (dropReturnsAll args) := by
  match args with
  | [] | _ :: _ :: _ :: _ => rfl
  | [path] =>
      simp only [fileCall, dropReturnsAll, List.map_cons, List.map_nil]
      split
      · rfl
      · split <;> rfl
  | [path, base] =>
      simp only [fileCall, dropReturnsAll, List.map_cons, List.map_nil]
      split <;> rfl

theorem agree_constant (hnested : AgreeWithin nested nested' s.tail) :
    Agree Expr.dropReturns s (constant nested s) (constant nested' (withReturns s)) := by
  rw [constant, constant]
  cases hfirst : name? s with
  | none =>
      rw [name?_withReturns_eq_none hfirst]
      exact .of_none
  | some found =>
      obtain ⟨first, afterFirst⟩ := found
      obtain ⟨hafterFirst, hfirst'⟩ := name?_withReturns_eq_some hfirst
      rw [hfirst']
      dsimp only
      rcases agree_scopes afterFirst with
        ⟨hnone, hnone'⟩ | ⟨depth, _, rest, hsome, hsome', hrest, rfl⟩
      · rw [hnone, hnone']
        exact .of_none
      rw [hsome, hsome']
      dsimp only
      rw [startsMethod_withReturns]
      split
      next hstart =>
        rw [tail_withReturns_of_startsMethod hstart]
        cases hmethod : name? rest.tail with
        | none =>
            rw [name?_withReturns_eq_none hmethod]
            exact .of_none
        | some found =>
            obtain ⟨method, afterMethod⟩ := found
            obtain ⟨hafterMethod, hmethod'⟩ := name?_withReturns_eq_some hmethod
            have hsuffix : afterMethod <:+ s.tail :=
              hafterMethod.trans (tail_suffix_tail (hrest.trans hafterFirst))
            have hargs := agree_arguments
              (hnested.mono ((List.tail_suffix afterMethod).trans hsuffix))
            rw [hmethod']
            refine (hargs.mono (hsuffix.trans (List.tail_suffix s))).map (fun _ => rfl)
              (fun _ => rfl) ?_
            intro args args' _ _ heq
            dsimp only [id_eq]
            split
            · rw [dropReturns_fileCall, dropReturns_fileCall, heq]
            · rfl
      next => exact .of_some (hrest.trans hafterFirst) rfl

theorem agree_nameCall (hnested : AgreeWithin nested nested' s.tail) :
    Agree Expr.dropReturns s (nameCall nested s) (nameCall nested' (withReturns s)) := by
  rw [nameCall, nameCall]
  cases hname : name? s with
  | none =>
      rw [name?_withReturns_eq_none hname]
      exact .of_none
  | some found =>
      obtain ⟨name, rest⟩ := found
      obtain ⟨hrest, hname'⟩ := name?_withReturns_eq_some hname
      rw [hname']
      dsimp only
      split
      · exact .of_some hrest rfl
      · split
        · split
          next after =>
            rw [withReturns_cons (by decide), withReturns_cons (by decide)]
            exact .of_some ((suffix_cons_cons _ _ after).trans hrest) rfl
          next hparens =>
            split
            next after' hparens' =>
              obtain ⟨after, hafter, -⟩ :=
                exists_of_withReturns_eq_cons_cons (by decide) (by decide) hparens'
              exact absurd hafter (hparens after)
            · exact .of_some hrest rfl
        · have hargs := agree_arguments (hnested.mono (tail_suffix_tail hrest))
          refine (hargs.mono hrest).map (fun _ => rfl) (fun _ => rfl) ?_
          intro _ _ _ _ _
          rfl

/-! ## Operands and sums -/

/-- Other texts do not start an expression, whatever their lines end in. -/
theorem primary_withReturns_eq_none {c : Char} {rest : Text} (hquote : c ≠ '\x27')
    (hquotes : c ≠ '"') (hopen : c ≠ '(') (hscope : ∀ after, c = ':' → rest ≠ ':' :: after)
    (hupper : ¬ c.isUpper = true) (hstart : ¬ isNameStart c = true) :
    primary nested (withReturns (c :: rest)) = none := by
  by_cases hc : c = '\n'
  · rw [hc]
    rfl
  · rw [withReturns_cons hc]
    unfold primary
    split
    · rfl
    next heq => exact absurd (List.cons.inj heq).1 hquote
    next heq => exact absurd (List.cons.inj heq).1 hquotes
    next heq => exact absurd (List.cons.inj heq).1 hopen
    next heq =>
      obtain ⟨hcolon, htail⟩ := List.cons.inj heq
      obtain ⟨after, hafter, -⟩ := exists_of_withReturns_eq_cons (by decide) htail
      exact absurd hafter (hscope after hcolon)
    next heq =>
      obtain ⟨rfl, -⟩ := List.cons.inj heq
      rw [if_neg hupper, if_neg hstart]

theorem agree_primary (hnested : AgreeWithin nested nested' s.tail) :
    Agree Expr.dropReturns s (primary nested s) (primary nested' (withReturns s)) := by
  rw [primary.eq_def nested]
  split
  · exact .of_none
  next rest =>
    rw [withReturns_cons (by decide), primary]
    refine ((agree_singleQuoted rest).mono (List.suffix_cons _ rest)).map (fun _ => rfl)
      (fun _ => rfl) ?_
    intro text text' _ _ heq
    exact congrArg Expr.str heq
  next rest =>
    rw [withReturns_cons (by decide), primary]
    refine ((agree_doubleQuoted hnested).mono (List.suffix_cons _ rest)).map (fun _ => rfl)
      (fun _ => rfl) ?_
    intro parts parts' _ _ heq
    dsimp only
    rw [dropReturns_toExpr, dropReturns_toExpr, heq]
  next rest =>
    rw [List.tail_cons] at hnested
    rw [withReturns_cons (by decide), primary]
    cases hread : nested (skipSpace rest) with
    | none =>
        rw [hnested.eq_none List.suffix_rfl hread]
        exact .of_none
    | some found =>
        obtain ⟨inner, after⟩ := found
        obtain ⟨hafter, inner', hread', hinner⟩ := hnested.exists_eq_some List.suffix_rfl hread
        rw [hread']
        dsimp only
        rw [skipSpace_withReturns]
        split
        next last hlast =>
          rw [hlast, withReturns_cons (by decide)]
          apply Agree.of_some _ hinner
          exact (suffix_of_skipSpace_eq_cons hafter hlast).trans (List.suffix_cons _ rest)
        next hclose =>
          split
          next last' hlast' =>
            obtain ⟨last, hlast, -⟩ := exists_of_withReturns_eq_cons (by decide) hlast'
            exact absurd hlast (hclose last)
          · exact .of_none
  next rest =>
    rw [withReturns_cons (by decide), withReturns_cons (by decide), primary]
    apply (agree_constant (hnested.mono _)).mono (suffix_cons_cons _ _ rest)
    exact (List.tail_suffix rest).trans (List.suffix_cons _ rest)
  next c rest hquote hquotes hopen hscope =>
    split
    next hupper =>
      have hc : c ≠ '\n' := by
        rintro rfl
        exact absurd hupper (by decide)
      have hagree : Agree Expr.dropReturns (c :: rest) (constant nested (c :: rest))
          (constant nested' (withReturns (c :: rest))) :=
        agree_constant hnested
      rw [withReturns_cons hc] at hagree ⊢
      rw [primary_of_isUpper hupper]
      exact hagree
    next hupper =>
      split
      next hstart =>
        have hc : c ≠ '\n' := by
          rintro rfl
          exact absurd hstart (by decide)
        have hagree : Agree Expr.dropReturns (c :: rest) (nameCall nested (c :: rest))
            (nameCall nested' (withReturns (c :: rest))) :=
          agree_nameCall hnested
        rw [withReturns_cons hc] at hagree ⊢
        rw [primary_of_isNameStart hupper hstart]
        exact hagree
      next hstart =>
        rw [primary_withReturns_eq_none hquote hquotes hopen
          (fun after hc hrest => hscope after hc hrest) hupper hstart]
        exact .of_none

/-- The methods on two receivers that are the same are the same. -/
theorem agree_methods (hnested : AgreeWithin nested nested' s.tail) {receiver receiver' : Expr}
    (hreceiver : receiver'.dropReturns = receiver.dropReturns) :
    Agree Expr.dropReturns s (methods nested receiver s)
      (methods nested' receiver' (withReturns s)) := by
  fun_induction methods nested receiver s generalizing receiver' with
  | case1 receiver s hstart hname =>
      rw [methods, if_pos ((startsMethod_withReturns s).trans hstart),
        tail_withReturns_of_startsMethod hstart, name?_withReturns_eq_none hname]
      exact .of_none
  | case2 receiver s hstart method afterName hname hargs =>
      obtain ⟨hafterName, hname'⟩ := name?_withReturns_eq_some hname
      have hagree := agree_arguments
        (hnested.mono ((List.tail_suffix afterName).trans hafterName))
      rw [hargs] at hagree
      rw [methods, if_pos ((startsMethod_withReturns s).trans hstart),
        tail_withReturns_of_startsMethod hstart, hname']
      simp only [hagree.eq_none]
      exact .of_none
  | case3 receiver s hstart method afterName hname args after hargs hlength ih =>
      obtain ⟨hafterName, hname'⟩ := name?_withReturns_eq_some hname
      have hagree := agree_arguments
        (hnested.mono ((List.tail_suffix afterName).trans hafterName))
      rw [hargs] at hagree
      obtain ⟨hafter, args', hargs', -⟩ := hagree.exists_eq_some
      have hsuffix := hafter.trans (hafterName.trans (List.tail_suffix s))
      rw [methods.eq_def nested' receiver', if_pos ((startsMethod_withReturns s).trans hstart),
        tail_withReturns_of_startsMethod hstart, hname']
      simp only [hargs', if_pos (Text.length_withReturns_lt hsuffix hlength)]
      exact (ih (hnested.mono (tail_suffix_tail hsuffix)) rfl).mono hsuffix
  | case4 receiver s hstart method afterName hname args after hargs hlength =>
      obtain ⟨hafterName, -⟩ := name?_withReturns_eq_some hname
      have hagree := agree_arguments
        (hnested.mono ((List.tail_suffix afterName).trans hafterName))
      rw [hargs] at hagree
      obtain ⟨hafter, -⟩ := hagree.exists_eq_some
      obtain ⟨c, rest, rfl, -⟩ := exists_of_startsMethod hstart
      have hle := (hafter.trans hafterName).length_le
      rw [List.length_cons] at hlength
      exact absurd (Nat.lt_succ_of_le hle) hlength
  | case5 receiver s hstart =>
      rw [methods, if_neg (by rwa [startsMethod_withReturns])]
      exact .of_some List.suffix_rfl hreceiver

theorem agree_operand (hnested : AgreeWithin nested nested' s.tail) :
    Agree Expr.dropReturns s (operand nested s) (operand nested' (withReturns s)) := by
  rw [operand, operand]
  rcases agree_primary hnested with
    ⟨hnone, hnone'⟩ | ⟨receiver, receiver', after, hsome, hsome', hafter, heq⟩
  · rw [hnone, hnone']
    exact .of_none
  · rw [hsome, hsome']
    exact (agree_methods (hnested.mono (tail_suffix_tail hafter)) heq).mono hafter

theorem afterPlus?_withReturns (s : Text) :
    afterPlus? (withReturns s) = (afterPlus? s).map withReturns := by
  rw [afterPlus?, skipInline_withReturns, afterPlus?]
  split
  next rest' hplus' =>
    obtain ⟨rest, hplus, rfl⟩ := exists_of_withReturns_eq_cons (by decide) hplus'
    have hassigns := not_congr (head?_withReturns_ne_iff (c := '=') (by decide) (by decide) rest)
    rw [not_not, not_not] at hassigns
    rw [hplus, skipSpace_withReturns]
    simp only [hassigns]
    split <;> rfl
  next hplus' =>
    split
    next rest hplus =>
      rw [hplus, withReturns_cons (by decide)] at hplus'
      exact absurd rfl (hplus' _)
    · rfl

/-- An operand stands behind its `+`. -/
theorem suffix_of_afterPlus?_eq_some {s rest : Text} (h : afterPlus? s = some rest) :
    rest <:+ s ∧ rest.length < s.length := by
  unfold afterPlus? at h
  split at h
  next after hplus =>
    split at h
    · simp at h
    · obtain rfl := Option.some.inj h
      have hsuffix : '+' :: after <:+ s := by
        rw [← hplus]
        exact List.dropWhile_suffix _
      have hle := hsuffix.length_le
      have hle' := (skipSpace_suffix after).length_le
      rw [List.length_cons] at hle
      exact ⟨(skipSpace_suffix after).trans ((List.suffix_cons _ after).trans hsuffix), by omega⟩
  · simp at h

theorem agree_addends (hnested : AgreeWithin nested nested' s.tail) {left left' : Expr}
    (hleft : left'.dropReturns = left.dropReturns) :
    Agree Expr.dropReturns s (addends nested left s) (addends nested' left' (withReturns s)) := by
  fun_induction addends nested left s generalizing left' with
  | case1 left s hplus =>
      rw [addends, afterPlus?_withReturns, hplus]
      exact .of_some List.suffix_rfl hleft
  | case2 left s rest hplus hoperand =>
      obtain ⟨hrest, -⟩ := suffix_of_afterPlus?_eq_some hplus
      have hagree := agree_operand (hnested.mono (tail_suffix_tail hrest))
      rw [hoperand] at hagree
      rw [addends, afterPlus?_withReturns, hplus]
      simp only [Option.map_some, hagree.eq_none]
      exact .of_none
  | case3 left s rest hplus right after hoperand hlength ih =>
      obtain ⟨hrest, -⟩ := suffix_of_afterPlus?_eq_some hplus
      have hagree := agree_operand (hnested.mono (tail_suffix_tail hrest))
      rw [hoperand] at hagree
      obtain ⟨hafter, right', hoperand', hright⟩ := hagree.exists_eq_some
      have hsuffix := hafter.trans hrest
      rw [addends.eq_def nested' left', afterPlus?_withReturns, hplus]
      simp only [Option.map_some, hoperand', if_pos (Text.length_withReturns_lt hsuffix hlength)]
      apply (ih (hnested.mono (tail_suffix_tail hsuffix)) _).mono hsuffix
      simp only [dropReturns, hleft, hright]
  | case4 left s rest hplus right after hoperand hlength =>
      obtain ⟨hrest, hlt⟩ := suffix_of_afterPlus?_eq_some hplus
      have hagree := agree_operand (hnested.mono (tail_suffix_tail hrest))
      rw [hoperand] at hagree
      obtain ⟨hafter, -⟩ := hagree.exists_eq_some
      exact absurd (Nat.lt_of_le_of_lt hafter.length_le hlt) hlength

theorem agree_sum (hnested : AgreeWithin nested nested' s.tail) :
    Agree Expr.dropReturns s (sum nested s) (sum nested' (withReturns s)) := by
  rw [sum, sum]
  rcases agree_operand hnested with
    ⟨hnone, hnone'⟩ | ⟨left, left', after, hsome, hsome', hafter, heq⟩
  · rw [hnone, hnone']
    exact .of_none
  · rw [hsome, hsome']
    exact (agree_addends (hnested.mono (tail_suffix_tail hafter)) heq).mono hafter

end Nested

/-- An expression is the same whether its lines end in carriage returns or not: induction on the
length of the text, since nested expressions are read from what is left of it. -/
theorem agree_parse? (s : Text) : Agree Expr.dropReturns s (parse? s) (parse? (withReturns s)) := by
  induction hlength : s.length using Nat.strongRecOn generalizing s with
  | ind n ih =>
      rw [parse?, parse?.eq_def (withReturns s)]
      apply agree_sum
      intro t ht
      cases s with
      | nil =>
          obtain rfl := List.suffix_nil.mp ht
          exact .of_none
      | cons c s =>
          have hlt : t.length < (c :: s).length := Nat.lt_succ_of_le ht.length_le
          have hsuffix := ht.trans (List.suffix_cons c s)
          dsimp only
          rw [if_pos hlt, if_pos (Text.length_withReturns_lt hsuffix hlt)]
          exact ih t.length (hlength ▸ hlt) t rfl

end Expr

end RequireLint
