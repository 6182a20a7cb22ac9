import Mathlib.Data.List.TakeWhile
import RequireLint.Source.Expr.Parser

/-!
# What an expression takes from its text

A parser returns what follows the piece that it read.  This file shows, for every piece of the
grammar, that this is a proper remainder of the text, that an expression ends in a character of
its own, and that the same piece is read before any other text that does not continue it.

Nested expressions are read by a parser for shorter texts, which is another one for another text.
The lemmas therefore compare two parsers for nested expressions: `nested` read the original text,
and `nested'` reads texts of at most `bound` characters.
-/

namespace RequireLint.Expr

/-- Changing what was read leaves the rest of the text as it was. -/
theorem exists_of_map_eq_some {α β : Type} {read : Option (α × Text)}
    {change : α × Text → β × Text} {value : β} {rest : Text}
    (h : read.map change = some (value, rest)) (hchange : ∀ pair, (change pair).2 = pair.2) :
    ∃ found, read = some (found, rest) ∧ (change (found, rest)).1 = value := by
  obtain ⟨⟨found, after⟩, hread, heq⟩ := Option.map_eq_some_iff.mp h
  have hafter := hchange (found, after)
  rw [heq] at hafter
  obtain rfl : rest = after := hafter
  exact ⟨found, hread, by rw [heq]⟩

/-! ## How an expression ends -/

/-- The characters that the last token of an expression can end in. -/
def isFinal (c : Char) : Bool :=
  isNameChar c || c = '?' || c = '!' || c = ')' || c = '"' || c = '\x27'

/-- A text that ends in a final character. -/
def Closed (used : Text) : Prop := ∃ lead c, used = lead ++ [c] ∧ isFinal c = true

theorem closed_singleton {c : Char} (hc : isFinal c = true) : Closed [c] := ⟨[], c, rfl, hc⟩

theorem Closed.append_left {used : Text} (h : Closed used) (lead : Text) :
    Closed (lead ++ used) := by
  obtain ⟨inner, c, rfl, hc⟩ := h
  exact ⟨lead ++ inner, c, by simp, hc⟩

theorem Closed.cons {used : Text} (h : Closed used) (c : Char) : Closed (c :: used) :=
  h.append_left [c]

theorem Closed.exists_cons {used : Text} (h : Closed used) : ∃ c more, used = c :: more := by
  obtain ⟨lead, c, rfl, -⟩ := h
  cases lead with
  | nil => exact ⟨c, [], rfl⟩
  | cons d lead => exact ⟨d, lead ++ [c], rfl⟩

/-- A piece of an expression that may be missing, and begins with one of some characters if it
is there. -/
def Optional (opens : Char → Bool) (used : Text) : Prop :=
  used = [] ∨ Closed used ∧ used.head?.all opens = true

theorem Closed.append_optional {opens : Char → Bool} {used more : Text} (h : Closed used)
    (hmore : Optional opens more) : Closed (used ++ more) := by
  rcases hmore with rfl | ⟨hmore, -⟩
  · simpa using h
  · exact hmore.append_left used

theorem Optional.head?_append {opens p : Char → Bool} {used more : Text}
    (h : Optional opens used) (hopens : ∀ c, opens c = true → p c = true)
    (hmore : more.head?.all p = true) : (used ++ more).head?.all p = true := by
  rcases h with rfl | ⟨hclosed, hhead⟩
  · exact hmore
  · obtain ⟨c, rest, rfl⟩ := hclosed.exists_cons
    exact hopens c hhead

/-! ## What follows an expression -/

/-- The characters that a name does not go on with. -/
def endsName (c : Char) : Bool := !(isNameChar c || c = '?' || c = '!' || c = '=')

/-- The characters that no name, scope or argument list goes on with. -/
def endsPrimary (c : Char) : Bool := endsName c && c != '(' && c != ':'

/-- The characters that no method goes on with either. -/
def endsOperand (c : Char) : Bool := endsPrimary c && c != '.'

/-- The characters that stand after an expression, up to spaces and tabs. -/
def isStop (c : Char) : Bool :=
  c = '\n' || c = '\r' || c = ';' || c = ')' || c = ',' || c = '\x7d' || c = '#'

/-- A text that does not continue an expression before it. -/
def Stops (t : Text) : Prop := (skipInline t).head?.all isStop = true

theorem endsOperand_of_isStop {c : Char} (h : isStop c = true) : endsOperand c = true := by
  simp only [isStop, Bool.or_eq_true, decide_eq_true_eq] at h
  rcases h with (((((rfl | rfl) | rfl) | rfl) | rfl) | rfl) | rfl <;> decide

theorem endsOperand_of_isInlineBlank {c : Char} (h : Text.isInlineBlank c = true) :
    endsOperand c = true := by
  simp only [Text.isInlineBlank, Bool.or_eq_true, decide_eq_true_eq] at h
  rcases h with rfl | rfl <;> decide

theorem Stops.head? {t : Text} (h : Stops t) : t.head?.all endsOperand = true := by
  cases t with
  | nil => rfl
  | cons c rest =>
      by_cases hblank : Text.isInlineBlank c = true
      · exact endsOperand_of_isInlineBlank hblank
      · rw [Stops, skipInline, List.dropWhile_cons_of_neg hblank] at h
        exact endsOperand_of_isStop h

theorem Stops.afterPlus? {t : Text} (h : Stops t) : afterPlus? t = none := by
  unfold Expr.afterPlus?
  split
  next rest hplus =>
    rw [Stops, hplus] at h
    exact absurd h (by simp [isStop])
  · rfl

theorem startsMethod_eq_false {t : Text} (h : t.head?.all endsOperand = true) :
    startsMethod t = false := by
  unfold startsMethod
  split
  · exact absurd h (by simp [endsOperand])
  · rfl

theorem all_endsPrimary {t : Text} (h : t.head?.all endsOperand = true) :
    t.head?.all endsPrimary = true := by
  cases t with
  | nil => rfl
  | cons c rest => exact (Bool.and_eq_true_iff.mp h).1

theorem all_endsName {t : Text} (h : t.head?.all endsPrimary = true) :
    t.head?.all endsName = true := by
  cases t with
  | nil => rfl
  | cons c rest => exact (Bool.and_eq_true_iff.mp (Bool.and_eq_true_iff.mp h).1).1

theorem Optional.endsName_append {d : Char} {used more : Text}
    (h : Optional (· = d) used) (hd : endsName d = true)
    (hmore : more.head?.all endsPrimary = true) : (used ++ more).head?.all endsName = true := by
  refine h.head?_append (fun c hc => ?_) (all_endsName hmore)
  obtain rfl : c = d := by simpa using hc
  exact hd

/-! ## Blanks -/

/-- Characters that are skipped are skipped again before the same character. -/
theorem exists_of_dropWhile_eq_cons {p : Char → Bool} {s rest : Text} {c : Char}
    (h : s.dropWhile p = c :: rest) :
    ∃ blanks, s = blanks ++ c :: rest ∧ (∀ d ∈ blanks, p d = true) ∧
      ∀ more, (blanks ++ c :: more).dropWhile p = c :: more := by
  have hsplit : s.takeWhile p ++ s.dropWhile p = s := List.takeWhile_append_dropWhile
  have hc : p c = false := by
    have hhead := List.head?_dropWhile_not p s
    rw [h] at hhead
    simpa using hhead
  refine ⟨s.takeWhile p, by rw [← h, hsplit], fun d => List.mem_takeWhile_imp, fun more => ?_⟩
  rw [List.dropWhile_append_of_pos fun d => List.mem_takeWhile_imp]
  simp [hc]

theorem exists_of_skipSpace_eq_append {s used rest : Text} (h : skipSpace s = used ++ rest)
    (hused : Closed used) :
    ∃ blanks, s = blanks ++ used ++ rest ∧ ∀ more, skipSpace (blanks ++ (used ++ more)) =
      used ++ more := by
  obtain ⟨c, inner, rfl⟩ := hused.exists_cons
  obtain ⟨blanks, rfl, -, hskip⟩ := exists_of_dropWhile_eq_cons h
  exact ⟨blanks, by simp, fun more => hskip (inner ++ more)⟩

/-- Blanks and a character that stops an expression stop it together. -/
theorem exists_of_skipSpace_eq_cons {s rest : Text} {c : Char} (h : skipSpace s = c :: rest)
    (hc : isStop c = true) :
    ∃ blanks, s = blanks ++ c :: rest ∧ ∀ more, skipSpace (blanks ++ c :: more) = c :: more ∧
      Stops (blanks ++ c :: more) := by
  obtain ⟨blanks, rfl, hblanks, hskip⟩ := exists_of_dropWhile_eq_cons h
  refine ⟨blanks, rfl, fun more => ⟨hskip more, ?_⟩⟩
  clear h hskip
  induction blanks with
  | nil =>
      have hinline : Text.isInlineBlank c = false := by
        simp only [isStop, Bool.or_eq_true, decide_eq_true_eq] at hc
        rcases hc with (((((rfl | rfl) | rfl) | rfl) | rfl) | rfl) | rfl <;> decide
      simpa [Stops, skipInline, hinline] using hc
  | cons d blanks ih =>
      have hlater := ih fun e he => hblanks e (List.mem_cons_of_mem d he)
      have hd := hblanks d List.mem_cons_self
      by_cases hinline : Text.isInlineBlank d = true
      · rw [Stops, skipInline, List.cons_append, List.dropWhile_cons_of_pos hinline]
        exact hlater
      · have hstop : isStop d = true := by
          simp only [Text.isInlineBlank, Bool.or_eq_true, decide_eq_true_eq] at hd hinline
          rcases hd with ((rfl | rfl) | rfl) | rfl <;> simp_all [isStop]
        simpa [Stops, skipInline, hinline] using hstop

theorem exists_of_afterPlus?_eq_append {s used rest : Text}
    (h : afterPlus? s = some (used ++ rest)) (hused : Closed used) :
    ∃ plus, s = plus ++ used ++ rest ∧ plus.head?.all endsOperand = true ∧ plus ≠ [] ∧
      ∀ more, afterPlus? (plus ++ (used ++ more)) = some (used ++ more) := by
  unfold afterPlus? at h
  split at h
  next after hplus =>
    split at h
    · simp at h
    next hassigns =>
      obtain ⟨blanks, rfl, hblanks, hskip⟩ := exists_of_dropWhile_eq_cons hplus
      obtain ⟨blanks', rfl, hskip'⟩ := exists_of_skipSpace_eq_append (Option.some.inj h) hused
      refine ⟨blanks ++ '+' :: blanks', by simp, ?_, by simp, fun more => ?_⟩
      · cases blanks with
        | nil => rfl
        | cons c _ => exact endsOperand_of_isInlineBlank (hblanks c List.mem_cons_self)
      · obtain ⟨c, inner, rfl⟩ := hused.exists_cons
        have hhead : (blanks' ++ (c :: inner ++ more)).head? =
            (blanks' ++ c :: inner ++ rest).head? := by
          cases blanks' <;> rfl
        have hinline : skipInline (blanks ++ '+' :: (blanks' ++ (c :: inner ++ more))) =
            '+' :: (blanks' ++ (c :: inner ++ more)) := hskip _
        rw [afterPlus?, List.append_assoc, List.cons_append, hinline]
        simp only [hhead, hassigns, if_false, hskip']
  · simp at h

/-! ## Names and literals -/

/-- A name is taken up to the first character that is none of its own. -/
theorem takeWhile_isNameChar_append {word more : Text}
    (hword : ∀ c ∈ word, isNameChar c = true) (hmore : more.head?.all (!isNameChar ·) = true) :
    (word ++ more).takeWhile isNameChar = word ∧ (word ++ more).dropWhile isNameChar = more := by
  have hhead : more.takeWhile isNameChar = [] ∧ more.dropWhile isNameChar = more := by
    cases more with
    | nil => exact ⟨rfl, rfl⟩
    | cons c rest =>
        have hc : isNameChar c = false := by simpa using hmore
        simp [hc]
  rw [List.takeWhile_append_of_pos hword, List.dropWhile_append_of_pos hword, hhead.1, hhead.2]
  simp

theorem name?_append {word more : Text} (hword : ∀ c ∈ word, isNameChar c = true)
    (hne : word ≠ []) (hmore : more.head?.all endsName = true) :
    name? (word ++ more) = some (word, more) := by
  have hends : more.head?.all (!isNameChar ·) = true := by
    cases more <;> simp_all [endsName]
  obtain ⟨htake, hdrop⟩ := takeWhile_isNameChar_append hword hends
  simp only [name?, htake, hdrop]
  cases more with
  | nil => simp [hne]
  | cons c rest =>
      have hmark : ¬ ((c = '?' ∨ c = '!') ∧ rest.head? ≠ some '=') := by
        rintro ⟨rfl | rfl, -⟩ <;> exact absurd hmore (by simp [endsName])
      simp [hmark, hne]

theorem name?_append_mark {word more : Text} {c : Char} (hword : ∀ c ∈ word, isNameChar c = true)
    (hc : c = '?' ∨ c = '!') (hmore : more.head? ≠ some '=') :
    name? (word ++ c :: more) = some (word ++ [c], more) := by
  have hends : (c :: more).head?.all (!isNameChar ·) = true := by
    rcases hc with rfl | rfl <;> rfl
  obtain ⟨htake, hdrop⟩ := takeWhile_isNameChar_append hword hends
  simp only [name?, htake, hdrop]
  rw [if_pos ⟨hc, hmore⟩]

theorem delimits_name? {s value rest : Text} (h : name? s = some (value, rest)) :
    ∃ used, s = used ++ rest ∧ Closed used ∧
      ∀ more, more.head?.all endsName = true → name? (used ++ more) = some (value, more) := by
  have hsplit : s.takeWhile isNameChar ++ s.dropWhile isNameChar = s :=
    List.takeWhile_append_dropWhile
  have hword : ∀ c ∈ s.takeWhile isNameChar, isNameChar c = true := fun c =>
    List.mem_takeWhile_imp
  have hclosed : s.takeWhile isNameChar ≠ [] → Closed (s.takeWhile isNameChar) := by
    intro hne
    refine ⟨_, _, (List.dropLast_concat_getLast hne).symm, ?_⟩
    simp [isFinal, hword _ (List.getLast_mem hne)]
  simp only [name?] at h
  split at h
  next c after hdrop =>
    rw [hdrop] at hsplit
    split at h
    next hmark =>
      obtain ⟨rfl, rfl⟩ := Prod.mk.inj (Option.some.inj h)
      refine ⟨s.takeWhile isNameChar ++ [c], by simpa using hsplit.symm, ⟨_, c, rfl, ?_⟩, ?_⟩
      · rcases hmark.1 with rfl | rfl <;> decide
      · intro more hmore
        rw [List.append_assoc]
        refine name?_append_mark hword hmark.1 fun hassigns => ?_
        obtain hassigns : more.head? = some '=' := hassigns
        rw [hassigns] at hmore
        exact absurd hmore (by decide)
    next =>
      split at h
      · simp at h
      next hempty =>
        obtain ⟨rfl, rfl⟩ := Prod.mk.inj (Option.some.inj h)
        have hne : s.takeWhile isNameChar ≠ [] := by simpa using hempty
        exact ⟨_, hsplit.symm, hclosed hne, fun more => name?_append hword hne⟩
  next hdrop =>
    rw [hdrop, List.append_nil] at hsplit
    split at h
    · simp at h
    next hempty =>
      obtain ⟨rfl, rfl⟩ := Prod.mk.inj (Option.some.inj h)
      have hne : s.takeWhile isNameChar ≠ [] := by simpa using hempty
      exact ⟨_, by rw [List.append_nil, hsplit], hclosed hne,
        fun more => name?_append hword hne⟩

theorem delimits_singleQuoted {s value rest : Text}
    (h : singleQuoted s = some (value, rest)) :
    ∃ used, s = used ++ rest ∧ Closed used ∧
      ∀ more, singleQuoted (used ++ more) = some (value, more) := by
  fun_induction singleQuoted s generalizing value rest with
  | case1 => simp at h
  | case2 after =>
      obtain ⟨rfl, rfl⟩ := Prod.mk.inj (Option.some.inj h)
      exact ⟨['\x27'], rfl, closed_singleton (by decide), fun more => rfl⟩
  | case3 => simp at h
  | case4 c after ih =>
      obtain ⟨text, hread, rfl⟩ := exists_of_map_eq_some h fun _ => rfl
      obtain ⟨used, rfl, hused, hagain⟩ := ih hread
      refine ⟨'\\' :: c :: used, rfl, (hused.cons c).cons '\\', fun more => ?_⟩
      simp [singleQuoted, hagain]
  | case5 c after hquote hlast hescape ih =>
      obtain ⟨text, hread, rfl⟩ := exists_of_map_eq_some h fun _ => rfl
      obtain ⟨used, rfl, hused, hagain⟩ := ih hread
      refine ⟨c :: used, rfl, hused.cons c, fun more => ?_⟩
      obtain ⟨d, inner, rfl⟩ := hused.exists_cons
      rw [List.cons_append, singleQuoted, hagain]
      · rfl
      · exact hquote
      · exact fun _ hnil => absurd hnil (by simp)
      · exact fun _ _ hc _ => hescape d (inner ++ rest) hc rfl

/-- A piece of the grammar delimits what it reads when it reads a closed text and returns the
rest, and its counterpart reads the same before any other text that may follow there. -/
def Delimits {α : Type} (p p' : Parser α) (bound : Nat) (follows : Text → Text → Prop) : Prop :=
  ∀ ⦃s value rest⦄, p s = some (value, rest) → ∃ used, s = used ++ rest ∧ Closed used ∧
    ∀ more, follows rest more → used.length + more.length ≤ bound →
      p' (used ++ more) = some (value, more)

/-- A piece that may also read nothing. -/
def MayDelimit {α : Type} (p p' : Parser α) (opens : Char → Bool) (bound : Nat)
    (follows : Text → Text → Prop) : Prop :=
  ∀ ⦃s value rest⦄, p s = some (value, rest) → ∃ used, s = used ++ rest ∧ Optional opens used ∧
    ∀ more, follows rest more → used.length + more.length ≤ bound →
      p' (used ++ more) = some (value, more)

section Nested

variable {nested nested' : Parser Expr} {bound : Nat}
  (hnested : Delimits nested nested' bound fun _ more => Stops more)
include hnested

theorem delimits_doubleQuoted :
    Delimits (doubleQuoted nested) (doubleQuoted nested') (bound + 1) fun _ _ => True := by
  intro s value rest h
  fun_induction doubleQuoted nested s generalizing value rest with
  | case1 => simp at h
  | case2 after =>
      obtain ⟨rfl, rfl⟩ := Prod.mk.inj (Option.some.inj h)
      exact ⟨['"'], rfl, closed_singleton (by decide), fun more _ _ => by simp [doubleQuoted]⟩
  | case3 => simp at h
  | case4 c after ih =>
      obtain ⟨parts, hread, rfl⟩ := exists_of_map_eq_some h fun _ => rfl
      obtain ⟨used, rfl, hused, hagain⟩ := ih hread
      refine ⟨'\\' :: c :: used, rfl, (hused.cons c).cons '\\', fun more _ hlength => ?_⟩
      simp only [List.length_cons] at hlength
      simp [doubleQuoted, hagain more trivial (by omega)]
  | case5 => simp at h
  | case6 after found inner hinner outer houter _ ih =>
      obtain ⟨parts, hread, rfl⟩ := exists_of_map_eq_some h fun _ => rfl
      obtain ⟨used, rfl, hused, hagain⟩ := ih hread
      obtain ⟨expr, hexpr, hclosed, hexpr'⟩ := hnested hinner
      obtain ⟨blanks, rfl, hblanks⟩ := exists_of_skipSpace_eq_append hexpr hclosed
      obtain ⟨blanks', rfl, hblanks'⟩ := exists_of_skipSpace_eq_cons houter (by decide)
      refine ⟨['#', '\x7b'] ++ blanks ++ expr ++ blanks' ++ ['\x7d'] ++ used, by simp,
        hused.append_left _, fun more _ hlength => ?_⟩
      simp only [List.length_append, List.length_cons, List.length_nil] at hlength
      obtain ⟨hskip, hstops⟩ := hblanks' (used ++ more)
      have hinner' := hexpr' (blanks' ++ '\x7d' :: (used ++ more)) hstops
        (by simp only [List.length_append, List.length_cons]; omega)
      have htext : ['#', '\x7b'] ++ blanks ++ expr ++ blanks' ++ ['\x7d'] ++ used ++ more =
          '#' :: '\x7b' :: (blanks ++ (expr ++ (blanks' ++ '\x7d' :: (used ++ more)))) := by
        simp
      have hshorter : (used ++ more).length ≤
          (blanks ++ (expr ++ (blanks' ++ '\x7d' :: (used ++ more)))).length := by
        simp only [List.length_append, List.length_cons]
        omega
      rw [htext, doubleQuoted, hblanks, hinner']
      simp only [hskip, if_pos hshorter, hagain more trivial (by omega), Option.map_some]
  | case7 => simp at h
  | case8 => simp at h
  | case9 c after hquote hlast hescape hinterpolation ih =>
      obtain ⟨parts, hread, rfl⟩ := exists_of_map_eq_some h fun _ => rfl
      obtain ⟨used, rfl, hused, hagain⟩ := ih hread
      refine ⟨c :: used, rfl, hused.cons c, fun more _ hlength => ?_⟩
      simp only [List.length_cons] at hlength
      obtain ⟨d, inner, rfl⟩ := hused.exists_cons
      rw [List.cons_append, doubleQuoted, hagain more trivial (by omega)]
      · rfl
      · exact hquote
      · exact fun _ hnil => absurd hnil (by simp)
      · exact fun _ _ hc _ => hescape d (inner ++ rest) hc rfl
      · intro after hc hafter
        obtain ⟨rfl, -⟩ := List.cons.inj hafter
        exact hinterpolation (inner ++ rest) hc rfl

/-! ## Calls -/

theorem delimits_moreArguments :
    Delimits (moreArguments nested) (moreArguments nested') bound fun _ _ => True := by
  intro s value rest h
  fun_induction moreArguments nested s generalizing value rest with
  | case1 => simp at h
  | case2 s arg after hread later hcomma _ ih =>
      obtain ⟨args, htail, rfl⟩ := exists_of_map_eq_some h fun _ => rfl
      obtain ⟨used, rfl, hused, hagain⟩ := ih htail
      obtain ⟨expr, hexpr, hclosed, hexpr'⟩ := hnested hread
      obtain ⟨blanks, rfl, hblanks⟩ := exists_of_skipSpace_eq_append hexpr hclosed
      obtain ⟨blanks', rfl, hblanks'⟩ := exists_of_skipSpace_eq_cons hcomma (by decide)
      refine ⟨blanks ++ expr ++ blanks' ++ [','] ++ used, by simp, hused.append_left _,
        fun more _ hlength => ?_⟩
      simp only [List.length_append, List.length_cons, List.length_nil] at hlength
      obtain ⟨hskip, hstops⟩ := hblanks' (used ++ more)
      have hread' := hexpr' (blanks' ++ ',' :: (used ++ more)) hstops
        (by simp only [List.length_append, List.length_cons]; omega)
      have htext : blanks ++ expr ++ blanks' ++ [','] ++ used ++ more =
          blanks ++ (expr ++ (blanks' ++ ',' :: (used ++ more))) := by
        simp
      have hshorter : (used ++ more).length <
          (blanks ++ (expr ++ (blanks' ++ ',' :: (used ++ more)))).length := by
        simp only [List.length_append, List.length_cons]
        omega
      rw [htext, moreArguments, hblanks, hread']
      simp only [hskip, if_pos hshorter, hagain more trivial (by omega), Option.map_some]
  | case3 => simp at h
  | case4 s arg after hread later hclose =>
      obtain ⟨rfl, rfl⟩ := Prod.mk.inj (Option.some.inj h)
      obtain ⟨expr, hexpr, hclosed, hexpr'⟩ := hnested hread
      obtain ⟨blanks, rfl, hblanks⟩ := exists_of_skipSpace_eq_append hexpr hclosed
      obtain ⟨blanks', rfl, hblanks'⟩ := exists_of_skipSpace_eq_cons hclose (by decide)
      refine ⟨blanks ++ expr ++ blanks' ++ [')'], by simp,
        (closed_singleton (by decide)).append_left _, fun more _ hlength => ?_⟩
      simp only [List.length_append, List.length_cons, List.length_nil] at hlength
      obtain ⟨hskip, hstops⟩ := hblanks' more
      have hread' := hexpr' (blanks' ++ ')' :: more) hstops
        (by simp only [List.length_append, List.length_cons]; omega)
      have htext : blanks ++ expr ++ blanks' ++ [')'] ++ more =
          blanks ++ (expr ++ (blanks' ++ ')' :: more)) := by
        simp
      rw [htext, moreArguments, hblanks, hread']
      simp only [hskip]
  | case5 => simp at h

omit hnested in
theorem arguments_of_no_parenthesis {t : Text} (h : t.head?.all endsPrimary = true) :
    arguments nested t = some ([], t) := by
  unfold arguments
  split
  · exact absurd h (by simp [endsPrimary])
  · rfl

theorem mayDelimit_arguments :
    MayDelimit (arguments nested) (arguments nested') (· = '(') (bound + 1)
      fun _ more => more.head?.all endsPrimary = true := by
  intro s value rest h
  unfold arguments at h
  split at h
  next after =>
    split at h
    next last hlast =>
      obtain ⟨rfl, rfl⟩ := Prod.mk.inj (Option.some.inj h)
      obtain ⟨blanks, rfl, hblanks⟩ := exists_of_skipSpace_eq_cons hlast (by decide)
      refine ⟨['('] ++ blanks ++ [')'], by simp, .inr ⟨⟨['('] ++ blanks, ')', rfl, by decide⟩, by
        simp⟩, fun more _ _ => ?_⟩
      have htext : ['('] ++ blanks ++ [')'] ++ more = '(' :: (blanks ++ ')' :: more) := by simp
      simp only [htext, arguments, (hblanks more).1]
    next hopen =>
      obtain ⟨used, hused, hclosed, hagain⟩ := delimits_moreArguments hnested h
      obtain ⟨blanks, rfl, hblanks⟩ := exists_of_skipSpace_eq_append hused hclosed
      refine ⟨['('] ++ blanks ++ used, by simp, .inr ⟨hclosed.append_left _, by simp⟩,
        fun more _ hlength => ?_⟩
      simp only [List.length_append, List.length_cons, List.length_nil] at hlength
      have hmore := hagain more trivial (by omega)
      have htext : ['('] ++ blanks ++ used ++ more = '(' :: (blanks ++ (used ++ more)) := by simp
      obtain ⟨c, inner, rfl⟩ := hclosed.exists_cons
      simp only [htext, arguments, hblanks]
      split
      next hclose =>
        obtain ⟨rfl, -⟩ := List.cons.inj hclose
        exact absurd hused (hopen (inner ++ rest))
      · exact hmore
  next hnone =>
    obtain ⟨rfl, rfl⟩ := Prod.mk.inj (Option.some.inj h)
    exact ⟨[], rfl, .inl rfl, fun more hmore _ => arguments_of_no_parenthesis hmore⟩

omit hnested in
theorem scopes_of_no_colon {t : Text} (h : t.head?.all endsPrimary = true) :
    scopes t = some (0, t) := by
  unfold scopes
  split
  · exact absurd h (by simp [endsPrimary])
  · rfl

omit hnested in
theorem mayDelimit_scopes {s rest : Text} {depth : Nat} (h : scopes s = some (depth, rest)) :
    ∃ used, s = used ++ rest ∧ Optional (· = ':') used ∧
      ∀ more, more.head?.all endsPrimary = true → scopes (used ++ more) = some (depth, more) := by
  fun_induction scopes s generalizing depth rest with
  | case1 => simp at h
  | case2 after _ inner hname _ ih =>
      obtain ⟨depth, hread, rfl⟩ := exists_of_map_eq_some h fun _ => rfl
      obtain ⟨used, rfl, hused, hagain⟩ := ih hread
      obtain ⟨name, rfl, hclosed, hname'⟩ := delimits_name? hname
      refine ⟨[':', ':'] ++ name ++ used, by simp, .inr ⟨?_, by simp⟩, fun more hmore => ?_⟩
      · exact (hclosed.append_left [':', ':']).append_optional hused
      · have hread' := hname' (used ++ more) (hused.endsName_append (by decide) hmore)
        have htext :
            [':', ':'] ++ name ++ used ++ more = ':' :: ':' :: (name ++ (used ++ more)) := by
          simp
        have hshorter : (used ++ more).length ≤ (name ++ (used ++ more)).length := by simp
        rw [htext, scopes, hread']
        simp only [if_pos hshorter, hagain more hmore, Option.map_some]
  | case3 => simp at h
  | case4 s =>
      obtain ⟨rfl, rfl⟩ := Prod.mk.inj (Option.some.inj h)
      exact ⟨[], rfl, .inl rfl, fun more hmore => scopes_of_no_colon hmore⟩

omit hnested in
/-- A method call starts with its dot and a name. -/
theorem exists_of_startsMethod {s : Text} (h : startsMethod s = true) :
    ∃ c rest, s = '.' :: c :: rest ∧ isNameStart c = true := by
  unfold startsMethod at h
  split at h
  next c rest => exact ⟨c, rest, rfl, h⟩
  · simp at h

/-- A method call takes its dot, the name of the method and the arguments. -/
theorem exists_append_of_call {s afterName after : Text} {method : Text} {args : List Expr}
    (hstart : startsMethod s = true) (hmethod : name? s.tail = some (method, afterName))
    (hargs : arguments nested afterName = some (args, after)) :
    ∃ called parens, s = '.' :: (called ++ parens) ++ after ∧ Closed ('.' :: (called ++ parens)) ∧
      (∀ t, startsMethod ('.' :: (called ++ t)) = true) ∧
      ∀ more, more.head?.all endsPrimary = true →
        (called ++ parens).length + more.length ≤ bound + 1 →
        name? (called ++ (parens ++ more)) = some (method, parens ++ more) ∧
          arguments nested' (parens ++ more) = some (args, more) := by
  obtain ⟨c, tail, rfl, hc⟩ := exists_of_startsMethod hstart
  obtain ⟨called, hcalled, hclosed, hname⟩ := delimits_name? hmethod
  obtain ⟨parens, rfl, hoptional, hargs'⟩ := mayDelimit_arguments hnested hargs
  obtain ⟨d, inner, rfl⟩ := hclosed.exists_cons
  obtain ⟨rfl, rfl⟩ := List.cons.inj hcalled
  refine ⟨c :: inner, parens, by simp, (hclosed.append_optional hoptional).cons '.',
    fun t => hc, fun more hmore hlength => ?_⟩
  simp only [List.length_append, List.length_cons] at hlength
  exact ⟨hname _ (hoptional.endsName_append (by decide) hmore), hargs' more hmore (by omega)⟩

/-- What follows a primary expression: no more of its name or arguments, and no method unless
there was one. -/
def FollowsPrimary (rest more : Text) : Prop :=
  more.head?.all endsPrimary = true ∧ (startsMethod rest = false → startsMethod more = false)

theorem delimits_constant :
    Delimits (constant nested) (constant nested') (bound + 1) FollowsPrimary := by
  intro s value rest h
  simp only [constant] at h
  split at h
  · simp at h
  next first afterFirst hfirst =>
    obtain ⟨name, rfl, hname, hname'⟩ := delimits_name? hfirst
    split at h
    · simp at h
    next depth after hscopes =>
      obtain ⟨path, rfl, hpath, hpath'⟩ := mayDelimit_scopes hscopes
      have hends : ∀ more, more.head?.all endsPrimary = true →
          (path ++ more).head?.all endsName = true := fun more hmore =>
        hpath.endsName_append (by decide) hmore
      split at h
      next hstart =>
        split at h
        · simp at h
        next method afterMethod hmethod =>
          obtain ⟨args, hread, rfl⟩ := exists_of_map_eq_some h fun _ => rfl
          obtain ⟨called, parens, rfl, hclosed, hstart', hagain⟩ :=
            exists_append_of_call hnested hstart hmethod hread
          refine ⟨name ++ path ++ '.' :: (called ++ parens), by simp, hclosed.append_left _,
            fun more hmore hlength => ?_⟩
          simp only [List.length_append, List.length_cons] at hlength
          obtain ⟨hmethod', hargs'⟩ := hagain more hmore.1
            (by simp only [List.length_append]; omega)
          have hdot : ('.' :: (called ++ (parens ++ more))).head?.all endsPrimary = true := rfl
          have htext : name ++ path ++ '.' :: (called ++ parens) ++ more =
              name ++ (path ++ '.' :: (called ++ (parens ++ more))) := by
            simp
          simp only [htext, constant, hname' _ (hends _ hdot), hpath' _ hdot, hstart', if_true,
            List.tail_cons, hmethod', hargs', Option.map_some]
      next hstart =>
        obtain ⟨rfl, rfl⟩ := Prod.mk.inj (Option.some.inj h)
        refine ⟨name ++ path, by simp, hname.append_optional hpath, fun more hmore _ => ?_⟩
        have hstop : startsMethod more = false := hmore.2 (by simpa using hstart)
        simp only [constant, List.append_assoc, hname' _ (hends more hmore.1),
          hpath' more hmore.1, hstop, Bool.false_eq_true, if_false]

theorem delimits_nameCall :
    Delimits (nameCall nested) (nameCall nested') (bound + 1)
      fun _ more => more.head?.all endsPrimary = true := by
  intro s value rest h
  simp only [nameCall] at h
  split at h
  · simp at h
  next word after hword =>
    obtain ⟨name, rfl, hname, hname'⟩ := delimits_name? hword
    split at h
    next hfile =>
      obtain ⟨rfl, rfl⟩ := Prod.mk.inj (Option.some.inj h)
      refine ⟨name, rfl, hname, fun more hmore _ => ?_⟩
      simp only [nameCall, hname' more (all_endsName hmore), hfile, if_true]
    next hfile =>
      split at h
      next hdir =>
        split at h
        next last =>
          obtain ⟨rfl, rfl⟩ := Prod.mk.inj (Option.some.inj h)
          refine ⟨name ++ ['(', ')'], by simp, ⟨name ++ ['('], ')', by simp, by decide⟩,
            fun more hmore _ => ?_⟩
          have htext : name ++ ['(', ')'] ++ more = name ++ '(' :: ')' :: more := by simp
          rw [htext, nameCall, hname' ('(' :: ')' :: more) rfl]
          simp only [if_neg hfile, if_pos hdir]
        next =>
          obtain ⟨rfl, rfl⟩ := Prod.mk.inj (Option.some.inj h)
          refine ⟨name, rfl, hname, fun more hmore _ => ?_⟩
          simp only [nameCall, hname' more (all_endsName hmore), if_neg hfile, if_pos hdir]
          split
          · exact absurd hmore (by simp [endsPrimary])
          · rfl
      next hdir =>
        obtain ⟨args, hread, rfl⟩ := exists_of_map_eq_some h fun _ => rfl
        obtain ⟨parens, rfl, hparens, hargs'⟩ := mayDelimit_arguments hnested hread
        refine ⟨name ++ parens, by simp, hname.append_optional hparens,
          fun more hmore hlength => ?_⟩
        simp only [List.length_append] at hlength
        have hname'' := hname' (parens ++ more) (hparens.endsName_append (by decide) hmore)
        simp only [nameCall, List.append_assoc, hname'', if_neg hfile, if_neg hdir,
          hargs' more hmore (by omega), Option.map_some]

/-! ## Operands and sums -/

omit hnested in
theorem primary_of_isUpper {c : Char} (hc : c.isUpper = true) (rest : Text) :
    primary nested (c :: rest) = constant nested (c :: rest) := by
  unfold primary
  split <;> simp_all

omit hnested in
theorem primary_of_isNameStart {c : Char} (hupper : ¬ c.isUpper = true) (hc : isNameStart c = true)
    (rest : Text) : primary nested (c :: rest) = nameCall nested (c :: rest) := by
  have hne : c ≠ '\x27' ∧ c ≠ '"' ∧ c ≠ '(' ∧ c ≠ ':' := by
    refine ⟨?_, ?_, ?_, ?_⟩ <;> rintro rfl <;> exact absurd hc (by decide)
  unfold primary
  split <;> simp_all

theorem delimits_primary :
    Delimits (primary nested) (primary nested') (bound + 1) FollowsPrimary := by
  intro s value rest h
  unfold primary at h
  split at h
  · simp at h
  next after =>
    obtain ⟨text, hread, rfl⟩ := exists_of_map_eq_some h fun _ => rfl
    obtain ⟨used, rfl, hused, hagain⟩ := delimits_singleQuoted hread
    refine ⟨'\x27' :: used, rfl, hused.cons _, fun more _ _ => ?_⟩
    simp only [List.cons_append, primary, hagain more, Option.map_some]
  next after =>
    obtain ⟨parts, hread, rfl⟩ := exists_of_map_eq_some h fun _ => rfl
    obtain ⟨used, rfl, hused, hagain⟩ := delimits_doubleQuoted hnested hread
    refine ⟨'"' :: used, rfl, hused.cons _, fun more _ hlength => ?_⟩
    simp only [List.length_cons] at hlength
    simp only [List.cons_append, primary, hagain more trivial (by omega), Option.map_some]
  next after =>
    split at h
    · simp at h
    next inner afterInner hinner =>
      split at h
      next last hlast =>
        obtain ⟨rfl, rfl⟩ := Prod.mk.inj (Option.some.inj h)
        obtain ⟨used, hused, hclosed, hagain⟩ := hnested hinner
        obtain ⟨blanks, rfl, hblanks⟩ := exists_of_skipSpace_eq_append hused hclosed
        obtain ⟨blanks', rfl, hblanks'⟩ := exists_of_skipSpace_eq_cons hlast (by decide)
        refine ⟨['('] ++ blanks ++ used ++ blanks' ++ [')'], by simp,
          (closed_singleton (by decide)).append_left _, fun more _ hlength => ?_⟩
        simp only [List.length_append, List.length_cons, List.length_nil] at hlength
        obtain ⟨hskip, hstops⟩ := hblanks' more
        have hinner' := hagain (blanks' ++ ')' :: more) hstops
          (by simp only [List.length_append, List.length_cons]; omega)
        have htext : ['('] ++ blanks ++ used ++ blanks' ++ [')'] ++ more =
            '(' :: (blanks ++ (used ++ (blanks' ++ ')' :: more))) := by
          simp
        simp only [htext, primary, hblanks, hinner', hskip]
      · simp at h
  next after =>
    obtain ⟨used, rfl, hused, hagain⟩ := delimits_constant hnested h
    refine ⟨':' :: ':' :: used, rfl, (hused.cons _).cons _, fun more hmore hlength => ?_⟩
    simp only [List.length_cons] at hlength
    simp only [List.cons_append, primary, hagain more hmore (by omega)]
  next c after _ _ _ _ =>
    split at h
    next hupper =>
      obtain ⟨used, heq, hused, hagain⟩ := delimits_constant hnested h
      refine ⟨used, heq, hused, fun more hmore hlength => ?_⟩
      obtain ⟨d, inner, rfl⟩ := hused.exists_cons
      obtain ⟨rfl, rfl⟩ := List.cons.inj heq
      rw [List.cons_append, primary_of_isUpper hupper]
      exact hagain more hmore hlength
    next hupper =>
      split at h
      next hstart =>
        obtain ⟨used, heq, hused, hagain⟩ := delimits_nameCall hnested h
        refine ⟨used, heq, hused, fun more hmore hlength => ?_⟩
        obtain ⟨d, inner, rfl⟩ := hused.exists_cons
        obtain ⟨rfl, rfl⟩ := List.cons.inj heq
        rw [List.cons_append, primary_of_isNameStart hupper hstart]
        exact hagain more hmore.1 hlength
      · simp at h

/-- The methods on an expression may be missing; if not, they begin with a method call. -/
theorem mayDelimit_methods (receiver : Expr) {s value rest}
    (h : methods nested receiver s = some (value, rest)) :
    ∃ used, s = used ++ rest ∧
      (used = [] ∨ Closed used ∧ ∀ t, startsMethod (used ++ t) = true) ∧
      ∀ more, more.head?.all endsOperand = true → used.length + more.length ≤ bound + 1 →
        methods nested' receiver (used ++ more) = some (value, more) := by
  fun_induction methods nested receiver s generalizing value rest with
  | case1 => simp at h
  | case2 => simp at h
  | case3 receiver s hstart method afterName hmethod args after hargs _ ih =>
      obtain ⟨called, parens, rfl, hclosed, hstart', hagain⟩ :=
        exists_append_of_call hnested hstart hmethod hargs
      obtain ⟨later, rfl, hlater, hlater'⟩ := ih h
      refine ⟨'.' :: (called ++ parens) ++ later, by simp, .inr ⟨?_, ?_⟩,
        fun more hmore hlength => ?_⟩
      · rcases hlater with rfl | ⟨hlater, -⟩
        · simpa using hclosed
        · exact hlater.append_left _
      · intro t
        simpa using hstart' (parens ++ (later ++ t))
      · simp only [List.length_append, List.length_cons] at hlength
        have hends : (later ++ more).head?.all endsPrimary = true := by
          rcases hlater with rfl | ⟨-, hlater⟩
          · exact all_endsPrimary hmore
          · obtain ⟨c, tail, heq, -⟩ := exists_of_startsMethod (hlater more)
            rw [heq]
            rfl
        obtain ⟨hmethod', hargs'⟩ := hagain (later ++ more) hends
          (by simp only [List.length_append]; omega)
        have htext : '.' :: (called ++ parens) ++ later ++ more =
            '.' :: (called ++ (parens ++ (later ++ more))) := by
          simp
        have hshorter : (later ++ more).length <
            ('.' :: (called ++ (parens ++ (later ++ more)))).length := by
          simp only [List.length_append, List.length_cons]
          omega
        rw [htext, methods, if_pos (hstart' _)]
        simp only [List.tail_cons, hmethod', hargs', if_pos hshorter]
        exact hlater' more hmore (by omega)
  | case4 => simp at h
  | case5 receiver s hstart =>
      obtain ⟨rfl, rfl⟩ := Prod.mk.inj (Option.some.inj h)
      refine ⟨[], rfl, .inl rfl, fun more hmore _ => ?_⟩
      rw [List.nil_append, methods, startsMethod_eq_false hmore]
      rfl

theorem delimits_operand :
    Delimits (operand nested) (operand nested') (bound + 1)
      fun _ more => more.head?.all endsOperand = true := by
  intro s value rest h
  simp only [operand] at h
  split at h
  · simp at h
  next receiver after hprimary =>
    obtain ⟨used, rfl, hused, hagain⟩ := delimits_primary hnested hprimary
    obtain ⟨called, rfl, hcalled, hcalled'⟩ := mayDelimit_methods hnested receiver h
    refine ⟨used ++ called, by simp, ?_, fun more hmore hlength => ?_⟩
    · rcases hcalled with rfl | ⟨hcalled, -⟩
      · simpa using hused
      · exact hcalled.append_left used
    · simp only [List.length_append] at hlength
      have hfollows : FollowsPrimary (called ++ rest) (called ++ more) := by
        rcases hcalled with rfl | ⟨-, hcalled⟩
        · exact ⟨all_endsPrimary hmore, fun _ => startsMethod_eq_false hmore⟩
        · obtain ⟨c, tail, heq, -⟩ := exists_of_startsMethod (hcalled more)
          refine ⟨by rw [heq]; rfl, fun hnone => ?_⟩
          rw [hcalled rest] at hnone
          exact absurd hnone (by decide)
      have hprimary' := hagain (called ++ more) hfollows
        (by simp only [List.length_append]; omega)
      simp only [operand, List.append_assoc, hprimary']
      exact hcalled' more hmore (by omega)

theorem mayDelimit_addends (left : Expr) :
    MayDelimit (addends nested left) (addends nested' left) endsOperand (bound + 1)
      fun _ more => more.head?.all endsOperand = true ∧ afterPlus? more = none := by
  intro s value rest h
  fun_induction addends nested left s generalizing value rest with
  | case1 left s =>
      obtain ⟨rfl, rfl⟩ := Prod.mk.inj (Option.some.inj h)
      refine ⟨[], rfl, .inl rfl, fun more hmore _ => ?_⟩
      rw [List.nil_append, addends]
      simp only [hmore.2]
  | case2 => simp at h
  | case3 left s inner hplus right after hright _ ih =>
      obtain ⟨used, rfl, hused, hagain⟩ := delimits_operand hnested hright
      obtain ⟨plus, rfl, hhead, hne, hplus'⟩ := exists_of_afterPlus?_eq_append hplus hused
      obtain ⟨later, rfl, hlater, hlater'⟩ := ih h
      refine ⟨plus ++ used ++ later, by simp, .inr ⟨?_, ?_⟩, fun more hmore hlength => ?_⟩
      · exact (hused.append_left plus).append_optional hlater
      · cases plus with
        | nil => exact absurd rfl hne
        | cons c plus => exact hhead
      · simp only [List.length_append] at hlength
        have hends : (later ++ more).head?.all endsOperand = true :=
          hlater.head?_append (fun _ hc => hc) hmore.1
        have hright' := hagain (later ++ more) hends
          (by simp only [List.length_append]; omega)
        have htext : plus ++ used ++ later ++ more = plus ++ (used ++ (later ++ more)) := by simp
        have hshorter : (later ++ more).length < (plus ++ (used ++ (later ++ more))).length := by
          have hpos := List.length_pos_iff.mpr hne
          simp only [List.length_append]
          omega
        rw [htext, addends]
        simp only [hplus', hright', if_pos hshorter]
        exact hlater' more hmore (by omega)
  | case4 => simp at h

theorem delimits_sum :
    Delimits (sum nested) (sum nested') (bound + 1) fun _ more => Stops more := by
  intro s value rest h
  simp only [sum] at h
  split at h
  · simp at h
  next left after hoperand =>
    obtain ⟨used, rfl, hused, hagain⟩ := delimits_operand hnested hoperand
    obtain ⟨later, rfl, hlater, hlater'⟩ := mayDelimit_addends hnested left h
    refine ⟨used ++ later, by simp, hused.append_optional hlater, fun more hmore hlength => ?_⟩
    simp only [List.length_append] at hlength
    have hoperand' := hagain (later ++ more) (hlater.head?_append (fun _ hc => hc) hmore.head?)
      (by simp only [List.length_append]; omega)
    simp only [sum, List.append_assoc, hoperand']
    exact hlater' more ⟨hmore.head?, hmore.afterPlus?⟩ (by omega)

end Nested

/-- An expression is delimited by its text, and read again before any text that stops it:
induction on the length of the text, since nested expressions are read from shorter texts. -/
theorem delimits_parse? {s rest : Text} {value : Expr} (h : parse? s = some (value, rest)) :
    ∃ used, s = used ++ rest ∧ Closed used ∧
      ∀ more, Stops more → parse? (used ++ more) = some (value, more) := by
  induction hlength : s.length using Nat.strongRecOn generalizing s rest value with
  | ind n ih =>
      have hnested : ∀ bound, Delimits
          (fun t => if t.length < s.length then parse? t else none)
          (fun t => if t.length < bound + 1 then parse? t else none) bound
          fun _ more => Stops more := by
        intro bound t value' rest' hread
        dsimp only at hread
        split at hread
        next hlt =>
          obtain ⟨used, hused, hclosed, hagain⟩ := ih t.length (hlength ▸ hlt) hread rfl
          refine ⟨used, hused, hclosed, fun more hmore hbound => ?_⟩
          dsimp only
          rw [if_pos (by rw [List.length_append]; omega)]
          exact hagain more hmore
        · simp at hread
      rw [parse?] at h
      obtain ⟨used, hused, hclosed, -⟩ := delimits_sum (hnested 0) h
      refine ⟨used, hused, hclosed, fun more hmore => ?_⟩
      have hpos : 0 < (used ++ more).length := by
        obtain ⟨c, inner, rfl⟩ := hclosed.exists_cons
        simp
      obtain ⟨bound, hbound⟩ : ∃ bound, (used ++ more).length = bound + 1 :=
        ⟨_, (Nat.succ_pred_eq_of_pos hpos).symm⟩
      obtain ⟨used', hused', -, hagain⟩ := delimits_sum (hnested bound) h
      obtain rfl : used = used' := List.append_cancel_right (hused.symm.trans hused')
      rw [parse?, hbound]
      exact hagain more hmore (by rw [← hbound, List.length_append])

end RequireLint.Expr
