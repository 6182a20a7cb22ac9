import Mathlib.Data.List.Forall2
import RequireLint.Json
import RequireLint.Proofs.Toml.Quoted

/-!
# JSON read back

The reader of this module accepts JSON documents whose numbers are natural numbers, and nothing
else.  A document that is written over several lines reads back as the value that it was written
for, whatever characters its strings have: `read?_render`.

A value inside another one is read by a reader for shorter texts, which is another one for another
text.  What is said of the entries of a list or an object holds of every reader that reads the texts
shorter than the one at hand.
-/

namespace RequireLint

open Toml (Reader consTo hexNumber?)

/-! ## The reader -/

/-- A natural number in decimal digits, without zeros before them. -/
def Text.natural? (t : Text) : Option (Nat × Text) :=
  let digits := t.takeWhile Char.isDigit
  if digits = [] ∨ digits.head? = some '0' ∧ digits ≠ ['0'] then none
  else some (Nat.ofDigitChars 10 digits 0, t.dropWhile Char.isDigit)

namespace Json

/-- White space between the parts of a document. -/
def isSpace (c : Char) : Bool := c = ' ' || c = '\t' || c = '\n' || c = '\r'

def skipSpace (t : Text) : Text := t.dropWhile isSpace

/-- The character with a number of four hexadecimal digits.  A character beyond sixteen bits is
written as two numbers, with an escape for each of them. -/
def numbered? (t : Text) : Option (Char × Text) :=
  match hexNumber? 0 4 t with
  | none => none
  | some (n, rest) =>
    if n < 0xD800 ∨ 0xE000 ≤ n then some (Char.ofNat n, rest)
    else
      match rest with
      | '\\' :: 'u' :: rest =>
        match hexNumber? 0 4 rest with
        | none => none
        | some (low, rest) =>
          if n < 0xDC00 ∧ 0xDC00 ≤ low ∧ low < 0xE000 then
            some (Char.ofNat (0x10000 + (n - 0xD800) * 0x400 + (low - 0xDC00)), rest)
          else none
      | _ => none

/-- The character that an escape stands for, after its backslash. -/
def escape? : Reader Char
  | '"' :: rest => some ('"', rest)
  | '\\' :: rest => some ('\\', rest)
  | '/' :: rest => some ('/', rest)
  | 'b' :: rest => some (Char.ofNat 8, rest)
  | 'f' :: rest => some (Char.ofNat 12, rest)
  | 'n' :: rest => some ('\n', rest)
  | 'r' :: rest => some ('\r', rest)
  | 't' :: rest => some ('\t', rest)
  | 'u' :: rest => numbered? rest
  | _ => none

/-- The rest of a string.  Control characters have to be escaped. -/
def stringBody? (t : Text) : Option (Text × Text) :=
  match t with
  | [] => none
  | '"' :: rest => some ([], rest)
  | '\\' :: rest =>
    match escape? rest with
    | none => none
    | some (c, after) =>
      if after.length ≤ rest.length then consTo c (stringBody? after) else none
  | c :: rest => if c.toNat < 32 then none else consTo c (stringBody? rest)
termination_by t.length

/-- Entries with commas between them, up to a closing bracket. -/
def entries? {α : Type} (entry : Reader α) (closing : Char) (t : Text) :
    Option (List α × Text) :=
  match entry t with
  | none => none
  | some (first, after) =>
    match skipSpace after with
    | [] => none
    | c :: rest =>
      if c = closing then some ([first], rest)
      else if c = ',' ∧ rest.length < t.length then
        (entries? entry closing rest).map fun (others, rest) => (first :: others, rest)
      else none
termination_by t.length

/-- What stands between brackets, after the opening one. -/
def enclosed? {α : Type} (entry : Reader α) (closing : Char) (t : Text) : Option (List α × Text) :=
  match skipSpace t with
  | [] => none
  | c :: rest => if c = closing then some ([], rest) else entries? entry closing (c :: rest)

/-- A name and its value. -/
def field? (nested : Reader Json) (t : Text) : Option ((Text × Json) × Text) :=
  match skipSpace t with
  | '"' :: body =>
    match stringBody? body with
    | none => none
    | some (name, rest) =>
      match skipSpace rest with
      | ':' :: rest => (nested rest).map fun (value, rest) => ((name, value), rest)
      | _ => none
  | _ => none

/-- A truth value or a number. -/
def atom? (t : Text) : Option (Json × Text) :=
  match Text.dropPrefix? "true" t, Text.dropPrefix? "false" t with
  | some rest, _ => some (bool true, rest)
  | none, some rest => some (bool false, rest)
  | none, none => t.natural?.map fun (n, rest) => (number n, rest)

/-- A value, with a reader for the values inside it. -/
def value? (nested : Reader Json) (t : Text) : Option (Json × Text) :=
  match skipSpace t with
  | '"' :: body => (stringBody? body).map fun (text, rest) => (string text, rest)
  | '[' :: inner => (enclosed? nested ']' inner).map fun (values, rest) => (array values, rest)
  | '\x7b' :: inner =>
    (enclosed? (field? nested) '\x7d' inner).map fun (fields, rest) => (object fields, rest)
  | other => atom? other

/-- The value that a text begins with, and the text after it. -/
def parse? (t : Text) : Option (Json × Text) :=
  value? (fun u => if u.length < t.length then parse? u else none) t
termination_by t.length

/-- The value of a whole document. -/
def read? (t : Text) : Option Json :=
  match parse? t with
  | none => none
  | some (value, rest) => if skipSpace rest = [] then some value else none

/-! ## Blanks and numbers -/

theorem skipSpace_append {blanks : Text} (h : ∀ c ∈ blanks, isSpace c = true) (t : Text) :
    skipSpace (blanks ++ t) = skipSpace t :=
  List.dropWhile_append_of_pos h

theorem isSpace_of_mem_newLine {level : Nat} {c : Char} (h : c ∈ newLine level) :
    isSpace c = true := by
  rcases List.mem_cons.mp h with rfl | h
  · rfl
  · rw [List.eq_of_mem_replicate h]
    rfl

/-- Not the rest of a number. -/
def EndsNumber (t : Text) : Prop := t.head?.all (fun c => !c.isDigit) = true

theorem EndsNumber.takeWhile_isDigit {t : Text} (h : EndsNumber t) :
    t.takeWhile Char.isDigit = [] := by
  cases t with
  | nil => rfl
  | cons c t => exact List.takeWhile_cons_of_neg (by simpa [EndsNumber] using h)

theorem EndsNumber.dropWhile_isDigit {t : Text} (h : EndsNumber t) :
    t.dropWhile Char.isDigit = t := by
  cases t with
  | nil => rfl
  | cons c t => exact List.dropWhile_cons_of_neg (by simpa [EndsNumber] using h)

end Json

theorem Text.isDigit_of_mem_ofNat {n : Nat} {c : Char} (h : c ∈ Text.ofNat n) :
    c.isDigit = true :=
  Nat.isDigit_of_mem_toDigits (by decide) (by decide) h

/-- Only zero is written with a zero in front. -/
theorem Text.head?_ofNat_ne_zero {n : Nat} (h : n ≠ 0) : (Text.ofNat n).head? ≠ some '0' := by
  induction n using Nat.strongRecOn with
  | ind n ih =>
      rw [Text.ofNat, Nat.toDigits_eq_if (by decide)]
      split
      next hlt =>
        intro hzero
        have hchar : n.digitChar = '0' := Option.some.inj hzero
        have hnumber := Nat.toNat_digitChar_of_lt_ten hlt
        rw [hchar] at hnumber
        exact h (by simpa using hnumber)
      next hle =>
        have hhigh : n / 10 ≠ 0 := by omega
        rw [List.head?_append_of_ne_nil _ Nat.toDigits_ne_nil]
        exact ih (n / 10) (by omega) hhigh

theorem Text.natural?_ofNat_append (n : Nat) {t : Text} (ht : Json.EndsNumber t) :
    Text.natural? (Text.ofNat n ++ t) = some (n, t) := by
  have hdigits : ∀ c ∈ Text.ofNat n, c.isDigit = true := fun c => isDigit_of_mem_ofNat
  have htake : (Text.ofNat n ++ t).takeWhile Char.isDigit = Text.ofNat n := by
    rw [List.takeWhile_append_of_pos hdigits, ht.takeWhile_isDigit, List.append_nil]
  have hdrop : (Text.ofNat n ++ t).dropWhile Char.isDigit = t := by
    rw [List.dropWhile_append_of_pos hdigits, ht.dropWhile_isDigit]
  have hcanonical : ¬ (Text.ofNat n = [] ∨
      (Text.ofNat n).head? = some '0' ∧ Text.ofNat n ≠ ['0']) := by
    rintro (hempty | ⟨hzero, hmore⟩)
    · exact Nat.toDigits_ne_nil hempty
    · by_cases hn : n = 0
      · exact hmore (by rw [hn]; rfl)
      · exact Text.head?_ofNat_ne_zero hn hzero
  rw [Text.natural?]
  simp only [htake, hdrop, if_neg hcanonical]
  rw [Text.ofNat, Nat.ofDigitChars_ten_toDigits]

namespace Json

/-! ## Strings -/

theorem hexNumber?_hexDigits {c : Char} (h : c.toNat < 32) (rest : Text) :
    hexNumber? 0 4 (Text.hexDigits 4 c ++ rest) = some (c.toNat, rest) := by
  have hall : ∀ n < 32, hexNumber? 0 4 (Text.hexDigits 4 (Char.ofNat n)) = some (n, []) := by
    decide +kernel
  have hread := hall c.toNat h
  rw [Char.ofNat_toNat] at hread
  exact Toml.hexNumber?_append hread rest

theorem numbered?_hexDigits {c : Char} (h : c.toNat < 32) (rest : Text) :
    numbered? (Text.hexDigits 4 c ++ rest) = some (c, rest) := by
  have hlow : c.toNat < 0xD800 ∨ 0xE000 ≤ c.toNat := by omega
  rw [numbered?, hexNumber?_hexDigits h]
  simp only [if_pos hlow, Char.ofNat_toNat]

/-- A character stands for itself, unless it would be taken for something else, or is written as
an escape that reads back as the character. -/
theorem escaped_cases (c : Char) :
    (escaped c = [c] ∧ c ≠ '"' ∧ c ≠ '\\' ∧ 32 ≤ c.toNat) ∨
      ∃ code, escaped c = '\\' :: code ∧ ∀ rest, escape? (code ++ rest) = some (c, rest) := by
  rw [escaped]
  split
  next hsame =>
    refine .inr ⟨[c], rfl, ?_⟩
    intro rest
    rcases hsame with rfl | rfl <;> rfl
  next hother =>
  split
  next hfeed => exact .inr ⟨['n'], rfl, fun rest => by rw [hfeed]; rfl⟩
  next =>
  split
  next hreturn => exact .inr ⟨['r'], rfl, fun rest => by rw [hreturn]; rfl⟩
  next =>
  split
  next htab => exact .inr ⟨['t'], rfl, fun rest => by rw [htab]; rfl⟩
  next =>
  split
  next hbackspace =>
    refine .inr ⟨['b'], rfl, ?_⟩
    intro rest
    rw [← Char.ofNat_toNat c, hbackspace]
    rfl
  next =>
  split
  next hpage =>
    refine .inr ⟨['f'], rfl, ?_⟩
    intro rest
    rw [← Char.ofNat_toNat c, hpage]
    rfl
  next =>
  split
  next hcontrol =>
    exact .inr ⟨'u' :: Text.hexDigits 4 c, rfl, fun rest => numbered?_hexDigits hcontrol rest⟩
  next hvisible =>
    obtain ⟨hquote, hbackslash⟩ := not_or.mp hother
    exact .inl ⟨rfl, hquote, hbackslash, by omega⟩

theorem stringBody?_flatMap_escaped (t rest : Text) :
    stringBody? (t.flatMap escaped ++ '"' :: rest) = some (t, rest) := by
  induction t with
  | nil => rw [List.flatMap_nil, List.nil_append, stringBody?]
  | cons c t ih =>
      rw [List.flatMap_cons, List.append_assoc]
      rcases escaped_cases c with ⟨hself, hquote, hbackslash, hvisible⟩ | ⟨code, hcode, hread⟩
      · rw [hself, List.singleton_append, stringBody?, if_neg (by omega), ih]
        · rfl
        · exact hquote
        · exact hbackslash
      · rw [hcode, List.cons_append, stringBody?]
        simp [hread, ih, consTo]

/-! ## What is read of a written value -/

/-- A reader for nested values that reads all texts shorter than a bound. -/
def ReadsBelow (nested : Reader Json) (bound : Nat) : Prop :=
  ∀ t : Text, t.length < bound → nested t = parse? t

/-- Whether a value or a name may begin with a character: it is not skipped before them, and does
not end a list or an object. -/
def opensEntry (c : Char) : Bool := !(isSpace c || c = ']' || c = '\x7d')

/-- A text that is read as a value, whatever follows that ends a number. -/
structure Writes (written : Text) (value : Json) : Prop where
  head : written.head?.any opensEntry = true
  value?_append : ∀ {nested : Reader Json} {t : Text}, ReadsBelow nested (written ++ t).length →
    EndsNumber t → value? nested (written ++ t) = some (value, t)

/-- A text that is read as an entry, with blanks before it, while all that is left to read is
shorter than a bound. -/
structure WritesEntry {α : Type} (entry : Reader α) (bound : Nat) (written : Text) (a : α) :
    Prop where
  head : written.head?.any opensEntry = true
  entry_append : ∀ {blanks t : Text}, (∀ c ∈ blanks, isSpace c = true) → EndsNumber t →
    (blanks ++ (written ++ t)).length < bound → entry (blanks ++ (written ++ t)) = some (a, t)

theorem exists_cons_of_opensEntry {written : Text} (h : written.head?.any opensEntry = true) :
    ∃ c more, written = c :: more ∧ isSpace c = false ∧ c ≠ ']' ∧ c ≠ '\x7d' := by
  cases written with
  | nil => exact absurd h (by decide)
  | cons c more =>
      refine ⟨c, more, rfl, ?_⟩
      simpa [opensEntry, and_assoc] using h

theorem skipSpace_cons {c : Char} (h : isSpace c = false) (t : Text) :
    skipSpace (c :: t) = c :: t :=
  List.dropWhile_cons_of_neg (by simp [h])

theorem value?_blanks_append (nested : Reader Json) {blanks : Text}
    (h : ∀ c ∈ blanks, isSpace c = true) (t : Text) :
    value? nested (blanks ++ t) = value? nested t := by
  rw [value?, value?, skipSpace_append h]

/-- A written value reads back, with blanks before it and anything that ends a number behind. -/
theorem Writes.parse?_append {written : Text} {value : Json} (h : Writes written value)
    {blanks t : Text} (hblanks : ∀ c ∈ blanks, isSpace c = true) (ht : EndsNumber t) :
    parse? (blanks ++ (written ++ t)) = some (value, t) := by
  rw [parse?, value?_blanks_append _ hblanks]
  apply h.value?_append _ ht
  intro u hu
  have hle : (written ++ t).length ≤ (blanks ++ (written ++ t)).length := by
    simp only [List.length_append]
    omega
  exact if_pos (Nat.lt_of_lt_of_le hu hle)

theorem Writes.writesEntry {written : Text} {value : Json} (h : Writes written value)
    {nested : Reader Json} {bound : Nat} (hnested : ReadsBelow nested bound) :
    WritesEntry nested bound written value where
  head := h.head
  entry_append hblanks ht hlength := by rw [hnested _ hlength, h.parse?_append hblanks ht]

/-! ## Lists and objects -/

section Entries

variable {α : Type} {entry : Reader α} {closing : Char} {bound level : Nat}

/-- The last entry ends at the closing bracket. -/
theorem WritesEntry.entries?_last {written blanks t : Text} {a : α}
    (h : WritesEntry entry bound written a) (hclosing : isSpace closing = false)
    (hblanks : ∀ c ∈ blanks, isSpace c = true)
    (hlength : (blanks ++ (written ++ (newLine level ++ closing :: t))).length < bound) :
    entries? entry closing (blanks ++ (written ++ (newLine level ++ closing :: t))) =
      some ([a], t) := by
  have hends : EndsNumber (newLine level ++ closing :: t) := rfl
  have hskip : skipSpace (newLine level ++ closing :: t) = closing :: t := by
    rw [skipSpace_append fun c => isSpace_of_mem_newLine, skipSpace_cons hclosing]
  rw [entries?, h.entry_append hblanks hends hlength]
  simp only [hskip, if_true]

/-- An entry before another ends at the comma. -/
theorem WritesEntry.entries?_comma {written blanks others t : Text} {a : α} {values : List α}
    (h : WritesEntry entry bound written a) (hclosing : closing ≠ ',')
    (hblanks : ∀ c ∈ blanks, isSpace c = true)
    (hlength : (blanks ++ (written ++ ',' :: others)).length < bound)
    (hothers : entries? entry closing others = some (values, t)) :
    entries? entry closing (blanks ++ (written ++ ',' :: others)) = some (a :: values, t) := by
  have hends : EndsNumber (',' :: others) := rfl
  have hskip : skipSpace (',' :: others) = ',' :: others := rfl
  have hshorter : others.length < (blanks ++ (written ++ ',' :: others)).length := by
    simp only [List.length_append, List.length_cons]
    omega
  rw [entries?, h.entry_append hblanks hends hlength]
  simp only [hskip, if_neg hclosing.symm, true_and, if_pos hshorter, hothers, Option.map_some]

/-- Written entries begin as the first of them does. -/
theorem WritesEntry.exists_join_eq_cons {first : Text} {a : α}
    (h : WritesEntry entry bound first a) (sep : Text) (others : List Text) :
    ∃ c more, Text.join sep (first :: others) = c :: more ∧ isSpace c = false ∧ c ≠ ']' ∧
      c ≠ '\x7d' := by
  obtain ⟨c, more, rfl, hc⟩ := exists_cons_of_opensEntry h.head
  cases others with
  | nil => exact ⟨c, more, List.intercalate_singleton, hc⟩
  | cons second others =>
      have hjoin : Text.join sep ((c :: more) :: second :: others) =
          c :: more ++ sep ++ Text.join sep (second :: others) := List.intercalate_cons_cons
      rw [List.append_assoc, List.cons_append] at hjoin
      exact ⟨c, _, hjoin, hc⟩

/-- Written entries with commas between them are read one by one. -/
theorem entries?_join (hspace : isSpace closing = false) (hcomma : closing ≠ ',') {lower : Nat}
    {written : List Text} {values : List α}
    (h : List.Forall₂ (WritesEntry entry bound) written values) (hne : written ≠ [])
    {blanks t : Text} (hblanks : ∀ c ∈ blanks, isSpace c = true)
    (hlength : (blanks ++ (Text.join (',' :: newLine level) written ++
      (newLine lower ++ closing :: t))).length < bound) :
    entries? entry closing (blanks ++ (Text.join (',' :: newLine level) written ++
      (newLine lower ++ closing :: t))) = some (values, t) := by
  induction h generalizing blanks with
  | nil => exact absurd rfl hne
  | @cons first value others values hfirst hothers ih =>
      cases hothers with
      | nil =>
          rw [Text.join, List.intercalate_singleton] at hlength ⊢
          exact hfirst.entries?_last hspace hblanks hlength
      | @cons second _ others _ hsecond hothers =>
          have hjoin : Text.join (',' :: newLine level) (first :: second :: others) ++
              (newLine lower ++ closing :: t) = first ++ ',' :: (newLine level ++
                (Text.join (',' :: newLine level) (second :: others) ++
                  (newLine lower ++ closing :: t))) := by
            simp [Text.join, List.intercalate_cons_cons]
          rw [hjoin] at hlength ⊢
          refine hfirst.entries?_comma hcomma hblanks hlength ?_
          refine ih (List.cons_ne_nil _ _) (fun c => isSpace_of_mem_newLine) ?_
          simp only [List.length_append, List.length_cons] at hlength ⊢
          omega

/-- Entries between brackets are read as the entries, whether there are any or none. -/
theorem enclosed?_bracketed (hclosing : closing = ']' ∨ closing = '\x7d') (opening : Char)
    {written : List Text} {values : List α} {t : Text}
    (h : List.Forall₂ (WritesEntry entry bound) written values)
    (hbound : (bracketed opening closing level written ++ t).length ≤ bound) :
    ∃ inner, bracketed opening closing level written ++ t = opening :: inner ∧
      enclosed? entry closing inner = some (values, t) := by
  have hspace : isSpace closing = false := by rcases hclosing with rfl | rfl <;> rfl
  have hcomma : closing ≠ ',' := by rcases hclosing with rfl | rfl <;> decide
  cases h with
  | nil =>
      refine ⟨closing :: t, rfl, ?_⟩
      rw [enclosed?, skipSpace_cons hspace]
      simp only [if_true]
  | @cons first value others values hfirst hothers =>
      have htext : bracketed opening closing level (first :: others) ++ t =
          opening :: (newLine (level + 1) ++ (Text.join (',' :: newLine (level + 1))
            (first :: others) ++ (newLine level ++ closing :: t))) := by
        simp [bracketed]
      refine ⟨_, htext, ?_⟩
      rw [htext] at hbound
      have hread : entries? entry closing ([] ++ (Text.join (',' :: newLine (level + 1))
          (first :: others) ++ (newLine level ++ closing :: t))) = some (value :: values, t) := by
        refine entries?_join hspace hcomma (.cons hfirst hothers) (List.cons_ne_nil _ _) nofun ?_
        simp only [List.length_append, List.length_cons, List.length_nil] at hbound ⊢
        omega
      obtain ⟨c, more, hjoin, hc, hlist, hobject⟩ :=
        hfirst.exists_join_eq_cons (',' :: newLine (level + 1)) others
      have hne : c ≠ closing := by
        rcases hclosing with rfl | rfl
        · exact hlist
        · exact hobject
      rw [hjoin, List.nil_append] at hread
      rw [enclosed?, skipSpace_append fun c => isSpace_of_mem_newLine, hjoin, List.cons_append,
        skipSpace_cons hc]
      simp only [if_neg hne]
      exact hread

end Entries

theorem head?_bracketed (opening closing : Char) (level : Nat) (written : List Text) :
    (bracketed opening closing level written).head? = some opening := by
  cases written with
  | nil => rfl
  | cons first others => simp [bracketed]

theorem writes_array {level : Nat} {written : List Text} {values : List Json}
    (h : List.Forall₂ Writes written values) :
    Writes (bracketed '[' ']' level written) (array values) where
  head := by rw [head?_bracketed]; rfl
  value?_append {nested t} hnested _ := by
    obtain ⟨inner, htext, hread⟩ := enclosed?_bracketed (.inl rfl) '['
      (h.imp fun _ _ hvalue => hvalue.writesEntry hnested) (Nat.le_refl _)
    have hskip : skipSpace ('[' :: inner) = '[' :: inner := rfl
    simp only [value?, htext, hskip, hread, Option.map_some]

/-- A field is written as its name, a colon and its value. -/
def WritesField (written : Text) (field : Text × Json) : Prop :=
  ∃ value, Writes value field.2 ∧ written = quoted field.1 ++ (": " : Text) ++ value

theorem quoted_append (name t : Text) :
    quoted name ++ t = '"' :: (name.flatMap escaped ++ '"' :: t) := by
  simp [quoted]

theorem WritesField.writesEntry {written : Text} {field : Text × Json}
    (h : WritesField written field) {nested : Reader Json} {bound : Nat}
    (hnested : ReadsBelow nested bound) : WritesEntry (field? nested) bound written field := by
  obtain ⟨name, value⟩ := field
  obtain ⟨inner, hvalue, rfl⟩ := h
  refine ⟨rfl, ?_⟩
  intro blanks t hblanks ht hlength
  have htext : quoted name ++ (": " : Text) ++ inner ++ t =
      '"' :: (name.flatMap escaped ++ '"' :: ':' :: ([' '] ++ (inner ++ t))) := by
    simp [quoted]
  have hskip (s : Text) : skipSpace (blanks ++ '"' :: s) = '"' :: s :=
    (skipSpace_append hblanks _).trans rfl
  have hcolon (s : Text) : skipSpace (':' :: s) = ':' :: s := rfl
  have hinner : nested ([' '] ++ (inner ++ t)) = some (value, t) := by
    refine (hvalue.writesEntry hnested).entry_append (by simp [isSpace]) ht ?_
    rw [htext] at hlength
    simp only [List.length_append, List.length_cons] at hlength ⊢
    omega
  simp only [htext, field?, hskip, stringBody?_flatMap_escaped, hcolon, hinner, Option.map_some]

theorem writes_object {level : Nat} {written : List Text} {fields : List (Text × Json)}
    (h : List.Forall₂ WritesField written fields) :
    Writes (bracketed '\x7b' '\x7d' level written) (object fields) where
  head := by rw [head?_bracketed]; rfl
  value?_append {nested t} hnested _ := by
    obtain ⟨inner, htext, hread⟩ := enclosed?_bracketed (.inr rfl) '\x7b'
      (h.imp fun _ _ hfield => hfield.writesEntry hnested) (Nat.le_refl _)
    have hskip : skipSpace ('\x7b' :: inner) = '\x7b' :: inner := rfl
    simp only [value?, htext, hskip, hread, Option.map_some]

/-! ## Atoms -/

theorem writes_string (text : Text) : Writes (quoted text) (string text) where
  head := rfl
  value?_append {nested t} _ _ := by
    have hskip (s : Text) : skipSpace ('"' :: s) = '"' :: s := rfl
    simp only [value?, quoted_append, hskip, stringBody?_flatMap_escaped, Option.map_some]

theorem writes_bool (value : Bool) :
    Writes (if value then ("true" : Text) else ("false" : Text)) (bool value) where
  head := by cases value <;> rfl
  value?_append {nested t} _ _ := by cases value <;> rfl

/-- A digit begins a number, and nothing else. -/
theorem value?_of_isDigit (nested : Reader Json) {c : Char} (hc : c.isDigit = true) (t : Text) :
    opensEntry c = true ∧
      value? nested (c :: t) = (Text.natural? (c :: t)).map fun (n, rest) => (number n, rest) := by
  have hne {d : Char} (hd : d.isDigit = false) : c ≠ d := by
    rintro rfl
    rw [hc] at hd
    exact absurd hd (by decide)
  have hskip : skipSpace (c :: t) = c :: t := skipSpace_cons (by simp [isSpace, hne]) t
  have htrue : Text.dropPrefix? "true" (c :: t) = none := if_neg (hne rfl).symm
  have hfalse : Text.dropPrefix? "false" (c :: t) = none := if_neg (hne rfl).symm
  constructor
  · simp [opensEntry, isSpace, hne]
  · rw [value?, hskip]
    split
    next h => exact absurd (List.cons.inj h).1 (hne rfl)
    next h => exact absurd (List.cons.inj h).1 (hne rfl)
    next h => exact absurd (List.cons.inj h).1 (hne rfl)
    next => rw [atom?, htrue, hfalse]

theorem writes_number (n : Nat) : Writes (Text.ofNat n) (number n) := by
  obtain ⟨c, more, htext⟩ : ∃ c more, Text.ofNat n = c :: more :=
    List.exists_cons_of_ne_nil Nat.toDigits_ne_nil
  have hc : c.isDigit = true := Text.isDigit_of_mem_ofNat (n := n) (by simp [htext])
  refine ⟨?_, ?_⟩
  · rw [htext]
    exact (value?_of_isDigit (fun _ => none) hc more).1
  · intro nested t _ ht
    have hread := Text.natural?_ofNat_append n ht
    rw [htext, List.cons_append] at hread ⊢
    rw [(value?_of_isDigit nested hc _).2, hread, Option.map_some]

/-! ## Whole documents -/

mutual

/-- Every value is read from its written form at any level. -/
theorem writes_renderAt (level : Nat) : (value : Json) → Writes (renderAt level value) value
  | bool value => writes_bool value
  | number value => writes_number value
  | string value => writes_string value
  | array values => writes_array (writes_renderValues (level + 1) values)
  | object fields => writes_object (writes_renderFields (level + 1) fields)

theorem writes_renderValues (level : Nat) :
    (values : List Json) → List.Forall₂ Writes (renderValues level values) values
  | [] => .nil
  | value :: rest => .cons (writes_renderAt level value) (writes_renderValues level rest)

theorem writes_renderFields (level : Nat) : (fields : List (Text × Json)) →
    List.Forall₂ WritesField (renderFields level fields) fields
  | [] => .nil
  | (_, value) :: rest =>
    .cons ⟨_, writes_renderAt level value, rfl⟩ (writes_renderFields level rest)

end

/-- A document reads back as the value that it was written for. -/
theorem read?_render (value : Json) : read? value.render = some value := by
  have hread : parse? ([] ++ (renderAt 0 value ++ [])) = some (value, []) :=
    (writes_renderAt 0 value).parse?_append nofun rfl
  rw [List.nil_append, List.append_nil] at hread
  rw [read?, render, hread]
  rfl

end Json

end RequireLint
