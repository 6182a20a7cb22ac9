import RequireLint.Proofs.Source.Delimited
import RequireLint.Proofs.Text.Position
import RequireLint.Source.Expr.Printer

/-!
# Expressions that read back

An expression ends where it does whatever follows it: the text that it spans reads as the same
expression in front of anything that separates it from the next one.  The other way round, the
written form of an expression reads back as that expression, whatever expressions are nested in
it.

Nested expressions are read by a parser for shorter texts, which is another one for another text.
What is said of the pieces of a written form holds of every parser that reads the texts shorter
than the one at hand.
-/

namespace RequireLint

open Text

/-- Nothing, or a character that separates an argument from what comes after it. -/
def Separates (t : Text) : Prop :=
  t = [] ∨ ∃ c rest, t = c :: rest ∧ (c = '\n' ∨ c = ';' ∨ c = ')' ∨ c = ',' ∨ c = '\x7d')

theorem Separates.stops {t : Text} (h : Separates t) : Expr.Stops t := by
  rcases h with rfl | ⟨c, rest, rfl, hc⟩
  · rfl
  · rcases hc with rfl | rfl | rfl | rfl | rfl <;> rfl

namespace Expr

theorem Closed.byteSize_pos {used : Text} (h : Closed used) : 1 ≤ byteSize used := by
  obtain ⟨c, more, rfl⟩ := h.exists_cons
  have hpos := c.utf8Size_pos
  rw [byteSize_cons]
  omega

theorem parseSpan?_of_parse? {used rest : Text} {value : Expr}
    (h : parse? (used ++ rest) = some (value, rest)) :
    parseSpan? (used ++ rest) = some (value, byteSize used) := by
  simp only [parseSpan?, h, Option.map_some, byteSize_append, Nat.add_sub_cancel]

/-- An expression spans at least one byte and whole characters, and what it spans reads the same
in front of any other text that separates. -/
theorem parseSpan?_takeBytes_append {s : Text} {value : Expr} {size : Nat}
    (h : parseSpan? s = some (value, size)) :
    1 ≤ size ∧ size ≤ byteSize s ∧ IsBoundary s size ∧
      ∀ t, Separates t → parseSpan? (s.takeBytes size ++ t) = some (value, size) := by
  obtain ⟨⟨found, rest⟩, hread, heq⟩ := Option.map_eq_some_iff.mp h
  obtain ⟨rfl, hsize⟩ := Prod.mk.inj heq
  obtain ⟨used, rfl, hclosed, hagain⟩ := delimits_parse? hread
  obtain rfl : byteSize used = size := by
    rw [← hsize, byteSize_append, Nat.add_sub_cancel]
  refine ⟨hclosed.byteSize_pos, ?_, isBoundary_append used rest, ?_⟩
  · rw [byteSize_append]
    exact Nat.le_add_right _ _
  · intro t ht
    rw [takeBytes_append]
    exact parseSpan?_of_parse? (hagain t ht.stops)

/-- A sum in front of an assignment is the same sum at the end of its line. -/
theorem parseSpan?_sum_before_assignment :
    let s : Text := "a? + 'é'  += b"
    let sum : Expr := .concat (.ident "a?") (.str "é")
    parseSpan? s = some (sum, 9) ∧ Separates "\n+ c" ∧
      parseSpan? (s.takeBytes 9 ++ ("\n+ c" : Text)) = some (sum, 9) := by
  intro s sum
  have hread : parseSpan? s = some (sum, 9) := by decide +kernel
  have hfeed : Separates "\n+ c" := .inr ⟨'\n', "+ c", rfl, .inl rfl⟩
  exact ⟨hread, hfeed, (parseSpan?_takeBytes_append hread).2.2.2 "\n+ c" hfeed⟩

end Expr

/-! ## Expressions with a written form -/

/-- A name that begins with a small letter or an underscore, and may end in a mark. -/
def Expr.IsName (name : Text) : Prop :=
  name ≠ "__FILE__" ∧ name ≠ "__dir__" ∧ ∃ first word mark, name = first :: (word ++ mark) ∧
    (first.isLower = true ∨ first = '_') ∧ (∀ c ∈ word, Expr.isNameChar c = true) ∧
    (mark = [] ∨ mark = ['?'] ∨ mark = ['!'])

/-- Whether the first of some parts is literal text. -/
def Parts.startsText : Parts → Prop
  | .text _ _ => True
  | _ => False

/-- Whether some part is an expression. -/
def Parts.interpolates : Parts → Prop
  | .nil => False
  | .text _ rest => rest.interpolates
  | .expr _ _ => True

mutual

/-- An expression whose names are names, and whose interpolated literals hold an expression and
no superfluous cuts between their texts. -/
def Expr.Readable : Expr → Prop
  | .str _ => True
  | .interpolated parts => parts.interpolates ∧ parts.Readable
  | .currentFile => True
  | .currentDir => True
  | .ident name => Expr.IsName name
  | .expandPath path => path.Readable
  | .expandPathFrom path base => path.Readable ∧ base.Readable
  | .dirname path => path.Readable
  | .concat left right => left.Readable ∧ right.Readable
  | .other => True

/-- Parts whose texts are neither empty nor next to each other. -/
def Parts.Readable : Parts → Prop
  | .nil => True
  | .text chars rest => chars ≠ [] ∧ ¬ rest.startsText ∧ rest.Readable
  | .expr value rest => value.Readable ∧ rest.Readable

end

namespace Expr

/-! ## Literals -/

theorem singleQuoted_escaped (text rest : Text) :
    singleQuoted (text.flatMap escapedSingle ++ '\x27' :: rest) = some (text, rest) := by
  induction text with
  | nil => rfl
  | cons c text ih =>
      rw [List.flatMap_cons, List.append_assoc]
      by_cases hc : c = '\x27' ∨ c = '\\'
      · simp only [escapedSingle, if_pos hc, List.cons_append, List.nil_append, singleQuoted, ih,
          Option.map_some]
      · obtain ⟨hquote, hescape⟩ := not_or.mp hc
        rw [escapedSingle, if_neg hc, List.singleton_append, singleQuoted, ih]
        · rfl
        · exact hquote
        · exact fun h => absurd h hescape
        · exact fun _ _ h => absurd h hescape

/-- The escaped characters of a text are put in front of the parts behind them. -/
theorem doubleQuoted_escaped (nested : Parser Expr) (chars s : Text) :
    doubleQuoted nested (chars.flatMap escapedDouble ++ s) =
      (doubleQuoted nested s).map fun found => (chars.foldr Parts.push found.1, found.2) := by
  induction chars with
  | nil => simp
  | cons c chars ih =>
      rw [List.flatMap_cons, List.append_assoc]
      by_cases hc : c = '"' ∨ c = '\\' ∨ c = '#'
      · have hescape : unescape c = c := by rcases hc with rfl | rfl | rfl <;> rfl
        rw [escapedDouble, if_pos hc, List.cons_append, List.singleton_append, doubleQuoted, ih,
          hescape, Option.map_map]
        rfl
      · obtain ⟨hquote, hescape, hhash⟩ := by simpa only [not_or] using hc
        rw [escapedDouble, if_neg hc, List.singleton_append, doubleQuoted, ih, Option.map_map]
        · rfl
        · exact hquote
        · exact fun h => absurd h hescape
        · exact fun _ _ h => absurd h hescape
        · exact fun _ h => absurd h hhash

/-- Characters of a text join into one part. -/
theorem foldr_push {chars : Text} {parts : Parts} (hchars : chars ≠ [])
    (hparts : ¬ parts.startsText) : chars.foldr Parts.push parts = .text chars parts := by
  induction chars with
  | nil => exact absurd rfl hchars
  | cons c chars ih =>
      cases chars with
      | nil =>
          cases parts with
          | text _ _ => exact absurd trivial hparts
          | nil | expr _ _ => rfl
      | cons d chars =>
          rw [List.foldr_cons, ih (List.cons_ne_nil d chars)]
          rfl

/-- An interpolated literal is none without interpolation. -/
theorem toExpr_of_interpolates {parts : Parts} (h : parts.interpolates) :
    parts.toExpr = .interpolated parts := by
  cases parts with
  | nil => exact absurd h not_false
  | expr _ _ => rfl
  | text chars rest =>
      cases rest with
      | nil => exact absurd h not_false
      | text _ _ | expr _ _ => rfl

/-! ## What is read of a written form -/

/-- A parser for nested expressions that reads all texts shorter than a bound. -/
def ReadsBelow (nested : Parser Expr) (bound : Nat) : Prop :=
  ∀ t : Text, t.length < bound → nested t = parse? t

theorem ReadsBelow.mono {nested : Parser Expr} {bound smaller : Nat}
    (h : ReadsBelow nested bound) (hle : smaller ≤ bound) : ReadsBelow nested smaller :=
  fun t ht => h t (Nat.lt_of_lt_of_le ht hle)

/-- The characters that a written form does not begin with: those that are skipped before it, and
the end of a list of arguments. -/
def opensExpr (c : Char) : Bool :=
  !(c = ' ' || c = '\t' || c = '\n' || c = '\r' || c = ')')

/-- A text that is read as an operand, whatever follows that ends one. -/
structure WritesOperand (written : Text) (value : Expr) : Prop where
  head : written.head?.any opensExpr = true
  operand_append : ∀ {nested : Parser Expr} {t : Text}, ReadsBelow nested (written ++ t).length →
    t.head?.all endsOperand = true → operand nested (written ++ t) = some (value, t)

/-- A text that is read as the beginning of a sum, and leaves the addends behind it. -/
structure Writes (written : Text) (value : Expr) : Prop where
  head : written.head?.any opensExpr = true
  sum_append : ∀ {nested : Parser Expr} {t : Text}, ReadsBelow nested (written ++ t).length →
    t.head?.all endsOperand = true → sum nested (written ++ t) = addends nested value t

theorem skipSpace_append {written : Text} (h : written.head?.any opensExpr = true) (t : Text) :
    skipSpace (written ++ t) = written ++ t := by
  cases written with
  | nil => exact absurd h (by decide)
  | cons c written =>
      have hc : ¬ (c = ' ' || c = '\t' || c = '\n' || c = '\r') = true := by
        intro hblank
        obtain h : opensExpr c = true := h
        rw [opensExpr, Bool.not_eq_true', Bool.or_eq_false_iff] at h
        rw [h.1] at hblank
        exact absurd hblank (by decide)
      exact List.dropWhile_cons_of_neg hc

theorem WritesOperand.writes {written : Text} {value : Expr} (h : WritesOperand written value) :
    Writes written value where
  head := h.head
  sum_append hnested ht := by simp only [sum, h.operand_append hnested ht]

theorem WritesOperand.writes_and {written : Text} {value : Expr} (h : WritesOperand written value)
    {p : Prop} : Writes written value ∧ (p → WritesOperand written value) :=
  ⟨h.writes, fun _ => h⟩

/-- A written form reads back before any text that stops an expression. -/
theorem Writes.parse?_append {written : Text} {value : Expr} (h : Writes written value) {t : Text}
    (ht : Stops t) : parse? (written ++ t) = some (value, t) := by
  have hnested : ReadsBelow (fun u => if u.length < (written ++ t).length then parse? u else none)
      (written ++ t).length := fun u hu => if_pos hu
  rw [parse?, h.sum_append hnested ht.head?, addends, ht.afterPlus?]

theorem Writes.nested_append {written : Text} {value : Expr} (h : Writes written value)
    {nested : Parser Expr} {bound : Nat} (hnested : ReadsBelow nested bound) {t : Text}
    (ht : Stops t) (hlength : (written ++ t).length < bound) :
    nested (written ++ t) = some (value, t) := by
  rw [hnested _ hlength, h.parse?_append ht]

/-! ## Operands -/

theorem operand_of_primary {nested : Parser Expr} {s t : Text} {value : Expr}
    (h : primary nested s = some (value, t)) (ht : t.head?.all endsOperand = true) :
    operand nested s = some (value, t) := by
  simp only [operand, h]
  rw [methods, startsMethod_eq_false ht]
  rfl

theorem writesOperand_str (text : Text) :
    WritesOperand (['\x27'] ++ text.flatMap escapedSingle ++ ['\x27']) (.str text) where
  head := rfl
  operand_append {nested t} _ ht := by
    have htext : ['\x27'] ++ text.flatMap escapedSingle ++ ['\x27'] ++ t =
        '\x27' :: (text.flatMap escapedSingle ++ '\x27' :: t) := by
      simp
    refine operand_of_primary ?_ ht
    simp only [htext, primary, singleQuoted_escaped, Option.map_some]

theorem Writes.writesOperand_parenthesized {written : Text} {value : Expr}
    (h : Writes written value) : WritesOperand (parenthesized written) value where
  head := rfl
  operand_append {nested t} hnested ht := by
    have htext : parenthesized written ++ t = '(' :: (written ++ ')' :: t) := by
      simp [parenthesized]
    rw [htext] at hnested ⊢
    have hstops : Stops (')' :: t) := rfl
    have hinner := h.nested_append hnested hstops (by simp)
    have hclose : skipSpace (')' :: t) = ')' :: t := rfl
    refine operand_of_primary ?_ ht
    simp only [primary, skipSpace_append h.head, hinner, hclose]

theorem Writes.concat {left right : Text} {value value' : Expr} (h : Writes left value)
    (h' : WritesOperand right value') :
    Writes (left ++ (" + " : Text) ++ right) (.concat value value') where
  head := by
    cases left with
    | nil => exact absurd h.head (by decide)
    | cons c left => exact h.head
  sum_append {nested t} hnested ht := by
    have htext : left ++ (" + " : Text) ++ right ++ t =
        left ++ ' ' :: '+' :: ' ' :: (right ++ t) := by
      simp
    have hskip : skipSpace (' ' :: (right ++ t)) = right ++ t := skipSpace_append h'.head t
    have hplus : afterPlus? (' ' :: '+' :: ' ' :: (right ++ t)) =
        some (skipSpace (' ' :: (right ++ t))) := rfl
    rw [hskip] at hplus
    rw [htext] at hnested ⊢
    have hright := h'.operand_append (hnested.mono (by simp; omega)) ht
    have hshorter : t.length < (' ' :: '+' :: ' ' :: (right ++ t)).length := by
      simp only [List.length_cons, List.length_append]
      omega
    rw [h.sum_append hnested rfl, addends]
    simp only [hplus, hright, if_pos hshorter]

/-! ## Names and markers -/

theorem isNameStart_of_isLower {c : Char} (h : c.isLower = true ∨ c = '_') :
    isNameStart c = true ∧ ¬ c.isUpper = true ∧ isNameChar c = true ∧ opensExpr c = true := by
  rcases h with h | rfl
  · have hupper : ¬ c.isUpper = true := by
      intro hupper
      have hlow : 'a'.val ≤ c.val := of_decide_eq_true (Bool.and_eq_true_iff.mp h).1
      have hhigh : c.val ≤ 'Z'.val := (of_decide_eq_true hupper).2
      exact absurd (UInt32.le_trans hlow hhigh) (by decide)
    have hopens : opensExpr c = true := by
      rw [opensExpr, Bool.not_eq_true', ← Bool.not_eq_true]
      intro hskipped
      simp only [Bool.or_eq_true, decide_eq_true_eq] at hskipped
      rcases hskipped with (((rfl | rfl) | rfl) | rfl) | rfl <;> exact absurd h (by decide)
    have halpha : c.isAlpha = true := Bool.or_eq_true_iff.mpr (.inr h)
    refine ⟨?_, hupper, ?_, hopens⟩
    · rw [isNameStart, halpha, Bool.true_or]
    · have halphanum : c.isAlphanum = true := Bool.or_eq_true_iff.mpr (.inl halpha)
      rw [isNameChar, halphanum, Bool.true_or]
  · decide

/-- A name is read up to what ends it. -/
theorem IsName.name?_append {name t : Text} (h : IsName name)
    (ht : t.head?.all endsOperand = true) : name? (name ++ t) = some (name, t) := by
  have hname : t.head?.all endsName = true := all_endsName (all_endsPrimary ht)
  obtain ⟨-, -, first, word, mark, rfl, hfirst, hword, hmark⟩ := h
  have hchars : ∀ c ∈ first :: word, isNameChar c = true :=
    List.forall_mem_cons.mpr ⟨(isNameStart_of_isLower hfirst).2.2.1, hword⟩
  have hassigns : t.head? ≠ some '=' := by
    intro heq
    rw [heq] at hname
    exact absurd hname (by decide)
  rcases hmark with rfl | hmark
  · rw [List.append_nil]
    exact Expr.name?_append hchars (List.cons_ne_nil first word) hname
  · obtain ⟨c, rfl, hc⟩ : ∃ c, mark = [c] ∧ (c = '?' ∨ c = '!') := by
      rcases hmark with rfl | rfl
      · exact ⟨'?', rfl, .inl rfl⟩
      · exact ⟨'!', rfl, .inr rfl⟩
    have htext : first :: (word ++ [c]) ++ t = (first :: word) ++ c :: t := by simp
    rw [htext, name?_append_mark hchars hc hassigns]
    rfl

theorem writesOperand_ident {name : Text} (h : IsName name) : WritesOperand name (.ident name) := by
  have hname : ∀ t : Text, t.head?.all endsOperand = true → name? (name ++ t) = some (name, t) :=
    fun _ => h.name?_append
  obtain ⟨hfile, hdir, first, word, mark, rfl, hfirst, -⟩ := h
  obtain ⟨hstart, hupper, -, hopens⟩ := isNameStart_of_isLower hfirst
  refine ⟨hopens, fun {nested t} _ ht => operand_of_primary ?_ ht⟩
  have hcall : arguments nested t = some ([], t) :=
    arguments_of_no_parenthesis (all_endsPrimary ht)
  rw [List.cons_append, primary_of_isNameStart hupper hstart, ← List.cons_append]
  simp only [nameCall, hname t ht, if_neg hfile, if_neg hdir, hcall, Option.map_some]

theorem writesOperand_currentFile : WritesOperand ("__FILE__" : Text) .currentFile where
  head := rfl
  operand_append {nested t} _ ht := by
    have hname : name? (("__FILE__" : Text) ++ t) = some (("__FILE__" : Text), t) :=
      name?_append (List.all_eq_true.mp rfl) (by decide) (all_endsName (all_endsPrimary ht))
    have hprimary : primary nested (("__FILE__" : Text) ++ t) =
        nameCall nested (("__FILE__" : Text) ++ t) :=
      primary_of_isNameStart (by decide) (by decide) (("_FILE__" : Text) ++ t)
    refine operand_of_primary ?_ ht
    simp only [hprimary, nameCall, hname, if_true]

theorem writesOperand_currentDir : WritesOperand ("__dir__" : Text) .currentDir where
  head := rfl
  operand_append {nested t} _ ht := by
    have hname : name? (("__dir__" : Text) ++ t) = some (("__dir__" : Text), t) :=
      name?_append (List.all_eq_true.mp rfl) (by decide) (all_endsName (all_endsPrimary ht))
    have hprimary : primary nested (("__dir__" : Text) ++ t) =
        nameCall nested (("__dir__" : Text) ++ t) :=
      primary_of_isNameStart (by decide) (by decide) (("_dir__" : Text) ++ t)
    have hfile : ("__dir__" : Text) ≠ "__FILE__" := by decide
    refine operand_of_primary ?_ ht
    simp only [hprimary, nameCall, hname, if_neg hfile, if_true]
    split
    · exact absurd ht (by simp [endsOperand, endsPrimary])
    · rfl

theorem writesOperand_other : WritesOperand ("Other" : Text) .other where
  head := rfl
  operand_append {nested t} _ ht := by
    have hname : name? (("Other" : Text) ++ t) = some (("Other" : Text), t) :=
      name?_append (List.all_eq_true.mp rfl) (by decide) (all_endsName (all_endsPrimary ht))
    have hprimary : primary nested (("Other" : Text) ++ t) =
        constant nested (("Other" : Text) ++ t) :=
      primary_of_isUpper (by decide) (("ther" : Text) ++ t)
    have hscopes : scopes t = some (0, t) := scopes_of_no_colon (all_endsPrimary ht)
    refine operand_of_primary ?_ ht
    simp only [hprimary, constant, hname, hscopes, startsMethod_eq_false ht, Bool.false_eq_true,
      if_false]

/-! ## Calls of `File` -/

/-- A method of `File` is read with the arguments between its parentheses. -/
theorem primary_fileCall {nested : Parser Expr} {method inner t : Text} {args : List Expr}
    (hmethod : ∀ c ∈ method, isNameChar c = true) (hstart : method.head?.any isNameStart = true)
    (hargs : arguments nested (parenthesized inner ++ t) = some (args, t)) :
    primary nested (("File." : Text) ++ method ++ parenthesized inner ++ t) =
      some (fileCall method args, t) := by
  obtain ⟨first, word, rfl⟩ : ∃ first word, method = first :: word := by
    cases method with
    | nil => exact absurd hstart (by decide)
    | cons first word => exact ⟨first, word, rfl⟩
  have hstart : startsMethod ('.' :: (first :: word ++ (parenthesized inner ++ t))) = true := hstart
  have htext : ("File." : Text) ++ first :: word ++ parenthesized inner ++ t =
      ("File" : Text) ++ '.' :: (first :: word ++ (parenthesized inner ++ t)) := by
    simp
  generalize hcalled : '.' :: (first :: word ++ (parenthesized inner ++ t)) = called at *
  have hdot : called.head?.all endsPrimary = true := by
    rw [← hcalled]
    rfl
  have htail : called.tail = first :: word ++ (parenthesized inner ++ t) := by
    rw [← hcalled, List.tail_cons]
  have hclass : name? (("File" : Text) ++ called) = some (("File" : Text), called) :=
    name?_append (List.all_eq_true.mp rfl) (by decide) (all_endsName hdot)
  have hname : name? called.tail = some (first :: word, parenthesized inner ++ t) := by
    rw [htail]
    exact name?_append hmethod (List.cons_ne_nil first word) rfl
  have hprimary : primary nested (("File" : Text) ++ called) =
      constant nested (("File" : Text) ++ called) :=
    primary_of_isUpper (by decide) (("ile" : Text) ++ called)
  rw [htext, hprimary]
  simp only [constant, hclass, scopes_of_no_colon hdot, hstart, if_true, hname, hargs,
    Option.map_some, true_and]

theorem parenthesized_append (written t : Text) :
    parenthesized written ++ t = '(' :: (written ++ ')' :: t) := by
  simp [parenthesized]

/-- Arguments that begin with an expression are not missing. -/
theorem arguments_of_moreArguments {nested : Parser Expr} {written t : Text}
    (h : written.head?.any opensExpr = true) :
    arguments nested ('(' :: (written ++ t)) = moreArguments nested (written ++ t) := by
  cases written with
  | nil => exact absurd h (by decide)
  | cons c written =>
      simp only [arguments, skipSpace_append h]
      split
      next hclose =>
        obtain ⟨rfl, -⟩ := List.cons.inj hclose
        exact absurd h Bool.false_ne_true
      · rfl

/-- The last argument ends at the closing parenthesis. -/
theorem Writes.moreArguments_last {written : Text} {value : Expr} (h : Writes written value)
    {nested : Parser Expr} {s t : Text} (hs : skipSpace s = written ++ ')' :: t)
    (hnested : ReadsBelow nested ((written ++ ')' :: t).length + 1)) :
    moreArguments nested s = some ([value], t) := by
  have hstops : Stops (')' :: t) := rfl
  have hclose : skipSpace (')' :: t) = ')' :: t := rfl
  have hread := h.nested_append hnested hstops (Nat.lt_succ_self _)
  rw [moreArguments, hs]
  simp only [hread, hclose]

/-- An argument before another ends at the comma. -/
theorem Writes.moreArguments_comma {written other : Text} {value : Expr} {args : List Expr}
    (h : Writes written value) {nested : Parser Expr} {t : Text}
    (hnested : ReadsBelow nested ((written ++ ',' :: other).length + 1))
    (hother : moreArguments nested other = some (args, t)) :
    moreArguments nested (written ++ ',' :: other) = some (value :: args, t) := by
  have hstops : Stops (',' :: other) := rfl
  have hcomma : skipSpace (',' :: other) = ',' :: other := rfl
  have hread := h.nested_append hnested hstops (Nat.lt_succ_self _)
  have hshorter : other.length < (written ++ ',' :: other).length := by
    rw [List.length_append, List.length_cons]
    omega
  rw [moreArguments, skipSpace_append h.head]
  simp only [hread, hcomma, if_pos hshorter, hother, Option.map_some]

/-- One argument between parentheses. -/
theorem Writes.arguments_parenthesized {written : Text} {value : Expr} (h : Writes written value)
    {nested : Parser Expr} {t : Text}
    (hnested : ReadsBelow nested (parenthesized written ++ t).length) :
    arguments nested (parenthesized written ++ t) = some ([value], t) := by
  rw [parenthesized_append] at hnested ⊢
  rw [arguments_of_moreArguments h.head]
  exact h.moreArguments_last (skipSpace_append h.head _) hnested

/-- Two arguments between parentheses. -/
theorem Writes.arguments_parenthesized_pair {written other : Text} {value base : Expr}
    (h : Writes written value) (h' : Writes other base) {nested : Parser Expr} {t : Text}
    (hnested : ReadsBelow nested
      (parenthesized (written ++ (", " : Text) ++ other) ++ t).length) :
    arguments nested (parenthesized (written ++ (", " : Text) ++ other) ++ t) =
      some ([value, base], t) := by
  have htext : parenthesized (written ++ (", " : Text) ++ other) ++ t =
      '(' :: (written ++ ',' :: ' ' :: (other ++ ')' :: t)) := by
    simp [parenthesized]
  rw [htext] at hnested ⊢
  have hskip : skipSpace (' ' :: (other ++ ')' :: t)) = other ++ ')' :: t :=
    skipSpace_append h'.head (')' :: t)
  have hother : moreArguments nested (' ' :: (other ++ ')' :: t)) = some ([base], t) :=
    h'.moreArguments_last hskip (hnested.mono (by simp; omega))
  rw [arguments_of_moreArguments h.head]
  exact h.moreArguments_comma hnested hother

theorem writesOperand_fileCall (method : Text) {inner : Text} {args : List Expr}
    (hmethod : ∀ c ∈ method, isNameChar c = true) (hstart : method.head?.any isNameStart = true)
    (hargs : ∀ {nested : Parser Expr} {t : Text},
      ReadsBelow nested (parenthesized inner ++ t).length →
        arguments nested (parenthesized inner ++ t) = some (args, t)) :
    WritesOperand (("File." : Text) ++ method ++ parenthesized inner) (fileCall method args) where
  head := rfl
  operand_append {nested t} hnested ht := by
    apply operand_of_primary _ ht
    apply primary_fileCall hmethod hstart
    apply hargs
    apply hnested.mono
    simp only [List.length_append]
    omega

theorem Writes.writesOperand_expandPath {written : Text} {path : Expr} (h : Writes written path) :
    WritesOperand (("File.expand_path" : Text) ++ parenthesized written) (.expandPath path) :=
  writesOperand_fileCall "expand_path" (List.all_eq_true.mp rfl) (by decide)
    h.arguments_parenthesized

theorem Writes.writesOperand_expandPathFrom {written other : Text} {path base : Expr}
    (h : Writes written path) (h' : Writes other base) :
    WritesOperand (("File.expand_path" : Text) ++
      parenthesized (written ++ (", " : Text) ++ other)) (.expandPathFrom path base) :=
  writesOperand_fileCall "expand_path" (List.all_eq_true.mp rfl) (by decide)
    (h.arguments_parenthesized_pair h')

theorem Writes.writesOperand_dirname {written : Text} {path : Expr} (h : Writes written path) :
    WritesOperand (("File.dirname" : Text) ++ parenthesized written) (.dirname path) :=
  writesOperand_fileCall "dirname" (List.all_eq_true.mp rfl) (by decide) h.arguments_parenthesized

/-! ## Interpolated literals -/

/-- A text that is read as the rest of a double-quoted literal, up to its quote. -/
def WritesParts (written : Text) (parts : Parts) : Prop :=
  ∀ (nested : Parser Expr) (t : Text), ReadsBelow nested ((written ++ '"' :: t).length + 1) →
    doubleQuoted nested (written ++ '"' :: t) = some (parts, t)

theorem writesParts_nil : WritesParts [] .nil := by
  intro nested t _
  rw [List.nil_append, doubleQuoted]

theorem WritesParts.text {written chars : Text} {parts : Parts} (h : WritesParts written parts)
    (hchars : chars ≠ []) (hparts : ¬ parts.startsText) :
    WritesParts (chars.flatMap escapedDouble ++ written) (.text chars parts) := by
  intro nested t hnested
  rw [List.append_assoc] at hnested ⊢
  have hread := h nested t (hnested.mono (by simp))
  rw [doubleQuoted_escaped, hread, Option.map_some, foldr_push hchars hparts]

theorem WritesParts.expr {written inner : Text} {value : Expr} {parts : Parts}
    (h : WritesParts written parts) (hinner : Writes inner value) :
    WritesParts (['#', '\x7b'] ++ inner ++ ['\x7d'] ++ written) (.expr value parts) := by
  intro nested t hnested
  have htext : ['#', '\x7b'] ++ inner ++ ['\x7d'] ++ written ++ '"' :: t =
      '#' :: '\x7b' :: (inner ++ '\x7d' :: (written ++ '"' :: t)) := by
    simp
  rw [htext] at hnested ⊢
  have hstops : Stops ('\x7d' :: (written ++ '"' :: t)) := rfl
  have hclose : skipSpace ('\x7d' :: (written ++ '"' :: t)) = '\x7d' :: (written ++ '"' :: t) := rfl
  have hvalue := hinner.nested_append hnested hstops (by simp; omega)
  have hshorter : (written ++ '"' :: t).length ≤
      (inner ++ '\x7d' :: (written ++ '"' :: t)).length := by
    simp only [List.length_append, List.length_cons]
    omega
  have hrest := h nested t (hnested.mono (by simp; omega))
  rw [doubleQuoted, skipSpace_append hinner.head, hvalue]
  simp only [hclose, if_pos hshorter, hrest, Option.map_some]

theorem WritesParts.writesOperand {written : Text} {parts : Parts} (h : WritesParts written parts)
    (hparts : parts.interpolates) :
    WritesOperand (['"'] ++ written ++ ['"']) (.interpolated parts) where
  head := rfl
  operand_append {nested t} hnested ht := by
    have htext : ['"'] ++ written ++ ['"'] ++ t = '"' :: (written ++ '"' :: t) := by simp
    rw [htext] at hnested ⊢
    have hread := h nested t hnested
    refine operand_of_primary ?_ ht
    simp only [primary, hread, Option.map_some, toExpr_of_interpolates hparts]

/-! ## Whole expressions -/

/-- A right operand is written in parentheses if it is a sum. -/
theorem Writes.writesOperand_right {value : Expr} (h : Writes value.render value)
    (hoperand : value.isSum = false → WritesOperand value.render value) :
    WritesOperand (if value.isSum then parenthesized value.render else value.render) value := by
  cases hsum : value.isSum with
  | true => exact h.writesOperand_parenthesized
  | false => exact hoperand hsum

end Expr

mutual

/-- Every readable expression is read from its written form, and as an operand unless it is a
sum. -/
theorem Expr.writes_render : (value : Expr) → value.Readable → Expr.Writes value.render value ∧
    (value.isSum = false → Expr.WritesOperand value.render value)
  | .str text, _ => (Expr.writesOperand_str text).writes_and
  | .interpolated parts, h => ((Parts.writes_render parts h.2).writesOperand h.1).writes_and
  | .currentFile, _ => Expr.writesOperand_currentFile.writes_and
  | .currentDir, _ => Expr.writesOperand_currentDir.writes_and
  | .ident _, h => (Expr.writesOperand_ident h).writes_and
  | .expandPath path, h => (Expr.writes_render path h).1.writesOperand_expandPath.writes_and
  | .expandPathFrom path base, h =>
    ((Expr.writes_render path h.1).1.writesOperand_expandPathFrom
      (Expr.writes_render base h.2).1).writes_and
  | .dirname path, h => (Expr.writes_render path h).1.writesOperand_dirname.writes_and
  | .concat left right, h =>
    have hright := Expr.writes_render right h.2
    ⟨(Expr.writes_render left h.1).1.concat (hright.1.writesOperand_right hright.2), nofun⟩
  | .other, _ => Expr.writesOperand_other.writes_and

theorem Parts.writes_render : (parts : Parts) → parts.Readable →
    Expr.WritesParts parts.render parts
  | .nil, _ => Expr.writesParts_nil
  | .text _ rest, h => (Parts.writes_render rest h.2.2).text h.1 h.2.1
  | .expr value rest, h => (Parts.writes_render rest h.2).expr (Expr.writes_render value h.1).1

end

namespace Expr

/-- The written form of a readable expression reads back as that expression and to its end, in
front of anything that separates it from what follows. -/
theorem parseSpan?_render_append {value : Expr} (h : value.Readable) {t : Text}
    (ht : Separates t) : parseSpan? (value.render ++ t) = some (value, byteSize value.render) :=
  parseSpan?_of_parse? ((writes_render value h).1.parse?_append ht.stops)

/-- An interpolation inside an interpolation, in a sum on the right of a sum, before the brace of a
block. -/
theorem parseSpan?_render_nested_sum :
    let literal : Parts := .text "a\"#\x7b" (.expr (.interpolated (.expr (.ident "root?") .nil))
      (.text "é\n" .nil))
    let value : Expr :=
      .concat (.dirname .currentFile) (.concat (.interpolated literal) (.str "b's"))
    let written : Text :=
      "File.dirname(__FILE__) + (\"a\\\"\\#\x7b#\x7b\"#\x7broot?\x7d\"\x7dé\n\" + 'b\\'s')"
    value.Readable ∧ value.render = written ∧ Separates "\x7d if x" ∧
      parseSpan? (written ++ ("\x7d if x" : Text)) = some (value, 60) := by
  intro literal value written
  have hname : IsName "root?" :=
    ⟨by decide, by decide, 'r', "oot", "?", rfl, .inl rfl, List.all_eq_true.mp rfl,
      .inr (.inl rfl)⟩
  have hliteral : literal.Readable :=
    ⟨by decide, not_false, ⟨⟨trivial, hname, trivial⟩, by decide, not_false, trivial⟩⟩
  have hvalue : value.Readable := ⟨trivial, ⟨trivial, hliteral⟩, trivial⟩
  have hwritten : value.render = written := rfl
  have hbrace : Separates "\x7d if x" := .inr ⟨'\x7d', " if x", rfl, by decide⟩
  have hread := parseSpan?_render_append hvalue hbrace
  rw [hwritten] at hread
  exact ⟨hvalue, hwritten, hbrace, hread⟩

end Expr

end RequireLint
