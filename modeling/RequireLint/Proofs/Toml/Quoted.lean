import Mathlib.Data.List.Basic
import RequireLint.Toml.Printer

/-!
# Strings read back

A string is written in one of five forms, and each of them reads back as the string.  An escape
reads back as its character, and whatever is not escaped may stand for itself.  In the tripled forms
the reader looks ahead for the quotes that end the string: `quotesAhead` counts them, and a written
string never has three of them in a row before its end.
-/

namespace RequireLint.Toml

/-! ## Escapes -/

theorem hexNumber?_append {count total n : Nat} {t after : Text}
    (h : hexNumber? total count t = some (n, after)) (rest : Text) :
    hexNumber? total count (t ++ rest) = some (n, after ++ rest) := by
  induction count generalizing total t with
  | zero =>
      obtain ⟨rfl, rfl⟩ := Prod.mk.inj (Option.some.inj h)
      rfl
  | succ count ih =>
      cases t with
      | nil => simp [hexNumber?] at h
      | cons c t =>
          rw [hexNumber?] at h
          rw [List.cons_append, hexNumber?]
          cases hdigit : Text.digitValue? 16 c with
          | none => simp [hdigit] at h
          | some d =>
              rw [hdigit] at h
              exact ih h

theorem numbered?_append {count : Nat} {t after : Text} {c : Char}
    (h : numbered? count t = some (c, after)) (rest : Text) :
    numbered? count (t ++ rest) = some (c, after ++ rest) := by
  rw [numbered?] at h
  split at h
  · simp at h
  next n left hnumber =>
    split at h
    next hvalid =>
      obtain ⟨rfl, rfl⟩ := Prod.mk.inj (Option.some.inj h)
      rw [numbered?, hexNumber?_append hnumber]
      simp [hvalid]
    next => simp at h

/-- The control characters are those below the space, and the last of ASCII. -/
theorem toNat_lt_of_needsEscape {c : Char} (h : needsEscape c = true) : c.toNat < 128 := by
  simp only [needsEscape, Bool.or_eq_true, Bool.and_eq_true, decide_eq_true_eq, beq_iff_eq] at h
  omega

theorem numbered?_hexDigits {c : Char} (h : c.toNat < 128) (rest : Text) :
    numbered? 4 ((Text.hexDigits 4 c).map Char.toUpper ++ rest) = some (c, rest) := by
  have hall : ∀ n < 128, numbered? 4 ((Text.hexDigits 4 (Char.ofNat n)).map Char.toUpper) =
      some (Char.ofNat n, []) := by
    decide +kernel
  have hread := hall c.toNat h
  rw [Char.ofNat_toNat] at hread
  exact numbered?_append hread rest

/-- An escape reads back as its character. -/
theorem exists_escaped_eq {c : Char}
    (hc : c = '"' ∨ c = '\\' ∨ c = '\t' ∨ c = '\n' ∨ needsEscape c = true) :
    ∃ code, escaped c = '\\' :: code ∧ ∀ rest, escape? (code ++ rest) = some (c, rest) := by
  rw [escaped]
  split
  next hsame =>
    refine ⟨[c], rfl, ?_⟩
    intro rest
    rcases hsame with rfl | rfl <;> rfl
  next hother =>
  split
  next htab => exact ⟨['t'], rfl, fun rest => by rw [htab]; rfl⟩
  next htab =>
  split
  next hfeed => exact ⟨['n'], rfl, fun rest => by rw [hfeed]; rfl⟩
  next hfeed =>
  split
  next hreturn => exact ⟨['r'], rfl, fun rest => by rw [hreturn]; rfl⟩
  next =>
  split
  next hbackspace =>
    refine ⟨['b'], rfl, ?_⟩
    intro rest
    rw [← Char.ofNat_toNat c, hbackspace]
    rfl
  next =>
  split
  next hpage =>
    refine ⟨['f'], rfl, ?_⟩
    intro rest
    rw [← Char.ofNat_toNat c, hpage]
    rfl
  next =>
    refine ⟨'u' :: (Text.hexDigits 4 c).map Char.toUpper, rfl, ?_⟩
    intro rest
    have hcode : needsEscape c = true := by
      rcases hc with hc | hc | hc | hc | hc
      · exact absurd (.inl hc) hother
      · exact absurd (.inr hc) hother
      · exact absurd hc htab
      · exact absurd hc hfeed
      · exact hc
    exact numbered?_hexDigits (toNat_lt_of_needsEscape hcode) rest

theorem isPlain_of_not_needsEscape {c : Char} (hcode : needsEscape c = false) (hfeed : c ≠ '\n') :
    isPlain c = true := by
  by_cases htab : c = '\t'
  · simp [isPlain, htab]
  · simp only [needsEscape, Bool.or_eq_false_iff, Bool.and_eq_false_iff, decide_eq_false_iff_not,
      bne_eq_false_iff_eq, beq_eq_false_iff_ne] at hcode
    simp only [isPlain, Bool.or_eq_true, Bool.and_eq_true, decide_eq_true_eq, bne_iff_ne]
    right
    constructor
    · rcases hcode.1 with (hlow | htab') | hfeed'
      · omega
      · exact absurd htab' htab
      · exact absurd hfeed' hfeed
    · exact hcode.2

/-! ## Strings on one line -/

theorem basicString_quote (rest : Text) : basicString ('"' :: rest) = some ([], rest) := by
  rw [basicString]

theorem basicString_escape {code rest : Text} {c : Char}
    (h : escape? (code ++ rest) = some (c, rest)) :
    basicString ('\\' :: (code ++ rest)) = consTo c (basicString rest) := by
  rw [basicString]
  simp [h]

theorem basicString_plain {c : Char} (hplain : isPlain c = true) (hquote : c ≠ '"')
    (hbackslash : c ≠ '\\') (rest : Text) :
    basicString (c :: rest) = consTo c (basicString rest) := by
  rw [basicString]
  · simp [hplain]
  · exact hquote
  · exact hbackslash

theorem basicString_basicBody (t rest : Text) :
    basicString (basicBody t ++ '"' :: rest) = some (t, rest) := by
  induction t with
  | nil => exact basicString_quote rest
  | cons c t ih =>
      rw [basicBody, List.flatMap_cons, ← basicBody, List.append_assoc]
      by_cases hc : c = '"' ∨ c = '\\' ∨ c = '\t' ∨ c = '\n' ∨ needsEscape c = true
      · obtain ⟨code, hcode, hread⟩ := exists_escaped_eq hc
        rw [if_pos hc, hcode, List.cons_append, basicString_escape (hread _), ih]
        rfl
      · rw [if_neg hc]
        simp only [not_or, Bool.not_eq_true] at hc
        obtain ⟨hquote, hbackslash, -, hfeed, hcode⟩ := hc
        rw [List.singleton_append, basicString_plain
          (isPlain_of_not_needsEscape hcode hfeed) hquote hbackslash, ih]
        rfl

theorem literalString_append {t : Text} (hquote : '\x27' ∉ t)
    (hplain : ∀ c ∈ t, isPlain c = true) (rest : Text) :
    literalString (t ++ '\x27' :: rest) = some (t, rest) := by
  induction t with
  | nil => rfl
  | cons c t ih =>
      obtain ⟨hc, hquote⟩ := List.ne_and_not_mem_of_not_mem_cons hquote
      rw [List.forall_mem_cons] at hplain
      rw [List.cons_append, literalString, if_pos hplain.1, ih hquote hplain.2]
      · rfl
      · exact Ne.symm hc

/-! ## The end of a tripled string -/

/-- The number of quotes that a text begins with. -/
def quotesAhead (quote : Char) (s : Text) : Nat := (s.takeWhile (· = quote)).length

section ClosingQuotes

variable {quote : Char} {s t rest : Text}

@[simp] theorem quotesAhead_quote : quotesAhead quote (quote :: s) = quotesAhead quote s + 1 := by
  simp [quotesAhead]

theorem quotesAhead_of_ne {c : Char} (hc : c ≠ quote) : quotesAhead quote (c :: s) = 0 := by
  simp [quotesAhead, hc]

theorem quotesAhead_of_head?_ne (h : s.head? ≠ some quote) : quotesAhead quote s = 0 := by
  cases s with
  | nil => rfl
  | cons c s => exact quotesAhead_of_ne (by simpa using h)

theorem closingQuotes?_of_lt (h : quotesAhead quote s < 3) : closingQuotes? quote s = none := by
  rw [closingQuotes?]
  exact if_pos h

theorem closingQuotes?_of_le (h : 3 ≤ quotesAhead quote s) :
    closingQuotes? quote s = some (List.replicate (min (quotesAhead quote s - 3) 2) quote,
      s.drop (min (quotesAhead quote s - 3) 2 + 3)) := by
  rw [closingQuotes?]
  exact if_neg (by simpa [quotesAhead] using h)

/-- What ends a tripled string, with nothing more to come. -/
theorem closingQuotes?_tripled (h : rest.head? ≠ some quote) :
    closingQuotes? quote (quote :: quote :: quote :: rest) = some ([], rest) := by
  have hzero := quotesAhead_of_head?_ne h
  rw [closingQuotes?_of_le (by simp)]
  simp [hzero]

/-- One or two quotes just before the end belong to the string. -/
theorem closingQuotes?_quote (hlow : 3 ≤ quotesAhead quote s) (hhigh : quotesAhead quote s ≤ 4)
    (h : closingQuotes? quote s = some (t, rest)) :
    closingQuotes? quote (quote :: s) = some (quote :: t, rest) := by
  rw [closingQuotes?_of_le hlow] at h
  obtain ⟨rfl, rfl⟩ := Prod.mk.inj (Option.some.inj h)
  have hextra : min (quotesAhead quote s + 1 - 3) 2 = min (quotesAhead quote s - 3) 2 + 1 := by
    omega
  rw [closingQuotes?_of_le (by simp; omega), quotesAhead_quote, hextra]
  simp [List.replicate_succ]

end ClosingQuotes

/-! ## Tripled strings -/

/-- A reader of tripled strings: it stops at the quotes that end the string, and before them it
reads the characters that stand for themselves. -/
structure ReadsTripled (quote : Char) (stands : Char → Bool) (read : Reader Text) : Prop where
  close : ∀ {s : Text} {found : Text × Text},
    closingQuotes? quote s = some found → read s = some found
  plain : ∀ {c : Char} {s : Text}, closingQuotes? quote (c :: s) = none → stands c = true →
    read (c :: s) = consTo c (read s)

/-- What may stand for itself between tripled single quotes. -/
def standsLong (c : Char) : Bool := isPlain c || c == '\n'

theorem standsLong_of_not_needsEscape {c : Char} (hcode : needsEscape c = false) :
    standsLong c = true := by
  by_cases hfeed : c = '\n'
  · simp [standsLong, hfeed]
  · simp [standsLong, isPlain_of_not_needsEscape hcode hfeed]

theorem ne_return_of_standsLong {c : Char} (h : standsLong c = true) : c ≠ '\r' := by
  rintro rfl
  exact absurd h (by decide)

theorem readsTripled_longBasicString :
    ReadsTripled '"' (fun c => standsLong c && c != '\\') longBasicString where
  close h := by rw [longBasicString.eq_def, h]
  plain {c s} hopen hstands := by
    obtain ⟨hstands, hbackslash⟩ := Bool.and_eq_true_iff.mp hstands
    have hreturn := ne_return_of_standsLong hstands
    rw [bne_iff_ne] at hbackslash
    rw [standsLong] at hstands
    rw [longBasicString.eq_def, hopen]
    simp [hstands, hreturn]

theorem readsTripled_longLiteralString : ReadsTripled '\x27' standsLong longLiteralString where
  close h := by rw [longLiteralString.eq_def, h]
  plain {c s} hopen hstands := by
    have hreturn := ne_return_of_standsLong hstands
    rw [standsLong] at hstands
    rw [longLiteralString.eq_def, hopen]
    simp [hstands, hreturn]

namespace ReadsTripled

variable {quote : Char} {stands : Char → Bool} {read : Reader Text} {s t rest : Text} {c : Char}
  (hread : ReadsTripled quote stands read)
include hread

theorem char (hstands : stands c = true) (hquote : c ≠ quote) :
    read (c :: s) = consTo c (read s) :=
  hread.plain (closingQuotes?_of_lt (by simp [quotesAhead_of_ne hquote])) hstands

/-- A quote in a tripled string is read as it stands, also if it is one of those just before the
end. -/
theorem ownQuote (hstands : stands quote = true)
    (hahead : quotesAhead quote s ≤ 1 ∨ 3 ≤ quotesAhead quote s ∧ quotesAhead quote s ≤ 4)
    (h : read s = some (t, rest)) : read (quote :: s) = some (quote :: t, rest) := by
  rcases hahead with hfew | ⟨hlow, hhigh⟩
  · have hopen : closingQuotes? quote (quote :: s) = none :=
      closingQuotes?_of_lt (by rw [quotesAhead_quote]; omega)
    rw [hread.plain hopen hstands, h]
    rfl
  · have hclose := closingQuotes?_of_le hlow
    rw [hread.close hclose] at h
    exact hread.close (closingQuotes?_quote hlow hhigh (hclose.trans h))

end ReadsTripled

section Long

variable {s rest code : Text} {c : Char}

theorem afterEscapedNewline?_of_escape? (h : escape? s = some (c, rest)) :
    afterEscapedNewline? s = none := by
  cases s with
  | nil => simp [escape?] at h
  | cons d s =>
      have hblank : Text.isInlineBlank d = false := by
        by_contra hd
        simp only [Bool.not_eq_false, Text.isInlineBlank, Bool.or_eq_true, decide_eq_true_eq] at hd
        rcases hd with rfl | rfl <;> simp [escape?] at h
      have hnewline : afterNewline? (d :: s) = none := by
        unfold afterNewline?
        split
        next heq =>
          obtain ⟨rfl, rfl⟩ := List.cons.inj heq
          simp [escape?] at h
        next heq =>
          obtain ⟨rfl, rfl⟩ := List.cons.inj heq
          simp [escape?] at h
        next => rfl
      rw [afterEscapedNewline?, List.dropWhile_cons_of_neg (by simp [hblank]), hnewline]
      rfl

theorem longBasicString_escape (h : escape? (code ++ rest) = some (c, rest)) :
    longBasicString ('\\' :: (code ++ rest)) = consTo c (longBasicString rest) := by
  rw [longBasicString.eq_def, closingQuotes?_of_lt (by simp [quotesAhead])]
  simp [h, afterEscapedNewline?_of_escape? h]

end Long

/-- How many quotes may come at once when `run` of them have just been read: so few that they do
not end the string, or those that do end it. -/
def MayFollow (run ahead : Nat) : Prop := ahead + run ≤ 2 ∨ 3 ≤ ahead ∧ ahead + run ≤ 5

theorem MayFollow.succ {run ahead : Nat} (h : MayFollow (run + 1) ahead) :
    MayFollow run (ahead + 1) := by
  unfold MayFollow at *
  omega

theorem MayFollow.one_or_end {run ahead : Nat} (h : MayFollow (run + 1) ahead) :
    ahead ≤ 1 ∨ 3 ≤ ahead ∧ ahead ≤ 4 := by
  unfold MayFollow at h
  omega

theorem mayFollow_tripled {quote : Char} {rest : Text} (hrest : rest.head? ≠ some quote)
    {run : Nat} (hrun : run ≤ 2) :
    MayFollow run (quotesAhead quote (quote :: quote :: quote :: rest)) := by
  rw [quotesAhead_quote, quotesAhead_quote, quotesAhead_quote, quotesAhead_of_head?_ne hrest,
    MayFollow]
  omega

theorem mayFollow_of_ne {quote c : Char} {s : Text} (hc : c ≠ quote) {run : Nat} (hrun : run ≤ 2) :
    MayFollow run (quotesAhead quote (c :: s)) := by
  rw [quotesAhead_of_ne hc, MayFollow]
  omega

/-! ### Between tripled double quotes -/

/-- A character is escaped, or it is one of at most two quotes in a row, or it stands for
itself. -/
theorem longBasicBody_cons_cases {run : Nat} (hrun : run ≤ 2) (c : Char) (t : Text) :
    ((c = '"' ∨ c = '\\' ∨ c = '\t' ∨ c = '\n' ∨ needsEscape c = true) ∧
        longBasicBody run (c :: t) = escaped c ++ longBasicBody 0 t) ∨
      (c = '"' ∧ run + 1 ≤ 2 ∧ longBasicBody run (c :: t) = c :: longBasicBody (run + 1) t) ∨
        ((standsLong c && c != '\\') = true ∧ c ≠ '"' ∧
          longBasicBody run (c :: t) = c :: longBasicBody 0 t) := by
  rw [longBasicBody]
  split
  next hquote =>
    split
    next => exact .inl ⟨.inl hquote, rfl⟩
    next hne => exact .inr (.inl ⟨hquote, by omega, rfl⟩)
  next hquote =>
    split
    next hescaped =>
      refine .inl ⟨?_, rfl⟩
      rcases hescaped with hc | hc | hc <;> simp [hc]
    next hplain =>
      simp only [not_or, Bool.not_eq_true] at hplain
      obtain ⟨hbackslash, -, hcode⟩ := hplain
      refine .inr (.inr ⟨?_, hquote, rfl⟩)
      simp [standsLong_of_not_needsEscape hcode, hbackslash]

section LongBasicBody

variable {rest : Text} (hrest : rest.head? ≠ some '"')
include hrest

/-- A written string never has three quotes in a row before its end. -/
theorem mayFollow_longBasicBody {run : Nat} (hrun : run ≤ 2) (t : Text) :
    MayFollow run (quotesAhead '"' (longBasicBody run t ++ '"' :: '"' :: '"' :: rest)) := by
  induction t generalizing run with
  | nil => exact mayFollow_tripled hrest hrun
  | cons c t ih =>
      rcases longBasicBody_cons_cases hrun c t with
        ⟨hc, hbody⟩ | ⟨rfl, hnext, hbody⟩ | ⟨-, hquote, hbody⟩
      · obtain ⟨code, hcode, -⟩ := exists_escaped_eq hc
        rw [hbody, hcode]
        exact mayFollow_of_ne (by decide) hrun
      · rw [hbody, List.cons_append, quotesAhead_quote]
        exact (ih hnext).succ
      · rw [hbody]
        exact mayFollow_of_ne hquote hrun

theorem longBasicString_longBasicBody {run : Nat} (hrun : run ≤ 2) (t : Text) :
    longBasicString (longBasicBody run t ++ '"' :: '"' :: '"' :: rest) = some (t, rest) := by
  induction t generalizing run with
  | nil => exact readsTripled_longBasicString.close (closingQuotes?_tripled hrest)
  | cons c t ih =>
      rcases longBasicBody_cons_cases hrun c t with
        ⟨hc, hbody⟩ | ⟨rfl, hnext, hbody⟩ | ⟨hstands, hquote, hbody⟩
      · obtain ⟨code, hcode, hread⟩ := exists_escaped_eq hc
        rw [hbody, hcode, List.append_assoc, List.cons_append, longBasicString_escape (hread _),
          ih (by omega)]
        rfl
      · rw [hbody]
        exact readsTripled_longBasicString.ownQuote (by decide)
          (mayFollow_longBasicBody hrest hnext t).one_or_end (ih hnext)
      · rw [hbody, List.cons_append, readsTripled_longBasicString.char hstands hquote,
          ih (by omega)]
        rfl

end LongBasicBody

/-! ### Between tripled single quotes -/

theorem le_longestRun (c : Char) (run : Nat) (t : Text) : run ≤ longestRun c run t := by
  induction t generalizing run with
  | nil => exact Nat.le_refl run
  | cons d t ih =>
      rw [longestRun]
      split
      · exact Nat.le_of_succ_le (ih (run + 1))
      · exact Nat.le_max_left _ _

/-- A text where only so many quotes follow each other has no more of them ahead. -/
theorem mayFollow_of_longestRun {quote : Char} {rest : Text} (hrest : rest.head? ≠ some quote)
    {run : Nat} {t : Text} (h : longestRun quote run t ≤ 2) :
    MayFollow run (quotesAhead quote (t ++ quote :: quote :: quote :: rest)) := by
  have hrun : run ≤ 2 := Nat.le_trans (le_longestRun quote run t) h
  induction t generalizing run with
  | nil => exact mayFollow_tripled hrest hrun
  | cons c t ih =>
      rw [longestRun] at h
      by_cases hc : c = quote
      · rw [if_pos hc] at h
        rw [hc, List.cons_append, quotesAhead_quote]
        exact (ih h (Nat.le_trans (le_longestRun quote _ t) h)).succ
      · exact mayFollow_of_ne hc hrun

theorem longLiteralString_append {rest : Text} (hrest : rest.head? ≠ some '\x27') {run : Nat}
    {t : Text} (hstands : ∀ c ∈ t, standsLong c = true) (h : longestRun '\x27' run t ≤ 2) :
    longLiteralString (t ++ '\x27' :: '\x27' :: '\x27' :: rest) = some (t, rest) := by
  induction t generalizing run with
  | nil => exact readsTripled_longLiteralString.close (closingQuotes?_tripled hrest)
  | cons c t ih =>
      rw [List.forall_mem_cons] at hstands
      rw [longestRun] at h
      by_cases hc : c = '\x27'
      · rw [if_pos hc] at h
        rw [hc]
        exact readsTripled_longLiteralString.ownQuote (by decide)
          (mayFollow_of_longestRun hrest h).one_or_end (ih hstands.2 h)
      · rw [if_neg hc] at h
        rw [List.cons_append, readsTripled_longLiteralString.char hstands.1 hc,
          ih hstands.2 (Nat.max_le.mp h).2]
        rfl

/-! ## Strings of any form -/

/-- Whether a text may follow a string: it does not go on with a quote. -/
def EndsString (rest : Text) : Prop := rest.head? ≠ some '"' ∧ rest.head? ≠ some '\x27'

theorem string?_basic {s : Text} (h : ∀ rest, s ≠ '"' :: '"' :: rest) :
    string? ('"' :: s) = basicString s := by
  rw [string?]
  exact h

theorem string?_literal {s : Text} (h : ∀ rest, s ≠ '\x27' :: '\x27' :: rest) :
    string? ('\x27' :: s) = literalString s := by
  rw [string?]
  exact h

theorem string?_basicBody {rest : Text} (hrest : EndsString rest) (t : Text) :
    string? ('"' :: (basicBody t ++ '"' :: rest)) = some (t, rest) := by
  rw [string?_basic, basicString_basicBody]
  intro after heq
  cases t with
  | nil =>
      obtain ⟨-, rfl⟩ := List.cons.inj heq
      exact hrest.1 rfl
  | cons c t =>
      rw [basicBody, List.flatMap_cons] at heq
      split at heq
      next hc =>
        obtain ⟨code, hcode, -⟩ := exists_escaped_eq hc
        rw [hcode] at heq
        simp at heq
      next hc =>
        have hquote : c ≠ '"' := fun hsame => hc (.inl hsame)
        exact hquote (List.cons.inj heq).1

theorem string?_plain {rest t : Text} (hrest : EndsString rest) (hquote : '\x27' ∉ t)
    (hplain : ∀ c ∈ t, isPlain c = true) :
    string? ('\x27' :: (t ++ '\x27' :: rest)) = some (t, rest) := by
  rw [string?_literal, literalString_append hquote hplain]
  intro after heq
  cases t with
  | nil =>
      obtain ⟨-, rfl⟩ := List.cons.inj heq
      exact hrest.2 rfl
  | cons c t => exact hquote ((List.cons.inj heq).1 ▸ List.mem_cons_self)

/-- The line that a tripled string starts on does not belong to it. -/
theorem afterNewline?_getD {t s : Text}
    (h : t.any (· == '\n') = false → s.head? ≠ some '\n' ∧ s.head? ≠ some '\r') :
    (afterNewline? ((if t.any (· == '\n') then ['\n'] else []) ++ s)).getD
      ((if t.any (· == '\n') then ['\n'] else []) ++ s) = s := by
  cases hany : t.any (· == '\n') with
  | true => rfl
  | false =>
      obtain ⟨hfeed, hreturn⟩ := h hany
      have hnone : afterNewline? s = none := by
        unfold afterNewline?
        split
        · exact absurd rfl hfeed
        · exact absurd rfl hreturn
        · rfl
      simp [hnone]

theorem string?_longBasicBody {rest : Text} (hrest : EndsString rest) (t : Text) :
    string? (tripled "\"\"\"" t (longBasicBody 0 t) ++ rest) = some (t, rest) := by
  have hopen : tripled "\"\"\"" t (longBasicBody 0 t) ++ rest =
      '"' :: '"' :: '"' :: ((if t.any (· == '\n') then ['\n'] else []) ++
        (longBasicBody 0 t ++ '"' :: '"' :: '"' :: rest)) := by
    simp [tripled]
  rw [hopen, string?, afterNewline?_getD,
    longBasicString_longBasicBody hrest.1 (Nat.zero_le 2) t]
  intro hfeed
  cases t with
  | nil => simp [longBasicBody]
  | cons c t =>
      rcases longBasicBody_cons_cases (Nat.zero_le 2) c t with
        ⟨hc, hbody⟩ | ⟨rfl, -, hbody⟩ | ⟨hstands, -, hbody⟩
      · obtain ⟨code, hcode, -⟩ := exists_escaped_eq hc
        simp [hbody, hcode]
      · simp [hbody]
      · have hc : c ≠ '\n' := by
          rintro rfl
          simp at hfeed
        simp [hbody, hc, ne_return_of_standsLong (Bool.and_eq_true_iff.mp hstands).1]

theorem string?_longPlain {rest t : Text} (hrest : EndsString rest)
    (hstands : ∀ c ∈ t, standsLong c = true) (h : longestRun '\x27' 0 t ≤ 2) :
    string? (tripled ['\x27', '\x27', '\x27'] t t ++ rest) = some (t, rest) := by
  have hopen : tripled ['\x27', '\x27', '\x27'] t t ++ rest =
      '\x27' :: '\x27' :: '\x27' :: ((if t.any (· == '\n') then ['\n'] else []) ++
        (t ++ '\x27' :: '\x27' :: '\x27' :: rest)) := by
    simp [tripled]
  rw [hopen, string?, afterNewline?_getD, longLiteralString_append hrest.2 hstands h]
  intro hfeed
  cases t with
  | nil => simp
  | cons c t =>
      have hc : c ≠ '\n' := by
        rintro rfl
        simp at hfeed
      simp [hc, ne_return_of_standsLong (hstands c List.mem_cons_self)]

theorem not_mem_of_longestRun_eq_zero {c : Char} {run : Nat} {t : Text}
    (h : longestRun c run t = 0) : c ∉ t := by
  induction t generalizing run with
  | nil => simp
  | cons d t ih =>
      rw [longestRun] at h
      split at h
      next => exact absurd (le_longestRun c (run + 1) t) (by omega)
      next hd =>
        have hrest : longestRun c 0 t = 0 := by omega
        exact List.not_mem_cons_of_ne_of_not_mem (Ne.symm hd) (ih hrest)

/-- A written string reads back as the string. -/
theorem string?_quoted {rest : Text} (hrest : EndsString rest) (t : Text) :
    string? (quoted t ++ rest) = some (t, rest) := by
  have hcodes : t.any needsEscape = false → ∀ c ∈ t, standsLong c = true := by
    intro hnone c hc
    exact standsLong_of_not_needsEscape (by simpa using List.any_eq_false.mp hnone c hc)
  have hbasic : string? (['"'] ++ basicBody t ++ ['"'] ++ rest) = some (t, rest) := by
    simpa using string?_basicBody hrest t
  rw [quoted]
  split
  next => exact hbasic
  next =>
  split
  next hplain =>
    simp only [Bool.and_eq_true, Bool.not_eq_true', decide_eq_true_eq] at hplain
    obtain ⟨⟨hnone, hfeed⟩, hsingles⟩ := hplain
    have hall : ∀ c ∈ t, isPlain c = true := by
      intro c hc
      apply isPlain_of_not_needsEscape (by simpa using List.any_eq_false.mp hnone c hc)
      simpa using List.any_eq_false.mp hfeed c hc
    simpa using string?_plain hrest (not_mem_of_longestRun_eq_zero hsingles) hall
  next =>
  split
  next => exact string?_longBasicBody hrest t
  next =>
  split
  next hplain =>
    simp only [Bool.and_eq_true, Bool.not_eq_true', decide_eq_true_eq] at hplain
    exact string?_longPlain hrest (hcodes hplain.1) hplain.2
  next =>
  split
  next => exact string?_longBasicBody hrest t
  next => exact hbasic

theorem exists_quoted_eq (t : Text) :
    ∃ quote tail, quoted t = quote :: tail ∧ (quote = '"' ∨ quote = '\x27') := by
  rw [quoted]
  repeat' split
  all_goals simp [tripled]

end RequireLint.Toml
