import RequireLint.Proofs.Toml.Quoted
import RequireLint.Toml.Reader

/-!
# Keys and values read back

A written key, string, flag or list of strings reads back from in front of whatever may follow it on
its line.
-/

namespace RequireLint.Toml

/-! ## Keys -/

/-- Whether a key may be written as it stands. -/
def isBareKey (key : Text) : Bool := !key.isEmpty && key.all isKeyChar

theorem exists_isKeyChar_of_isBareKey {key : Text} (hkey : isBareKey key = true) :
    ∃ c tail, key = c :: tail ∧ isKeyChar c = true := by
  cases key with
  | nil => exact absurd hkey (by decide)
  | cons c tail =>
      simp only [isBareKey, List.all_cons, Bool.and_eq_true] at hkey
      exact ⟨c, tail, rfl, hkey.2.1⟩

theorem head?_ne_of_isBareKey {key rest : Text} (hkey : isBareKey key = true) {c : Char}
    (hc : isKeyChar c = false) : (key ++ rest).head? ≠ some c := by
  obtain ⟨d, tail, rfl, hd⟩ := exists_isKeyChar_of_isBareKey hkey
  intro heq
  rw [Option.some.inj heq, hc] at hd
  exact absurd hd (by decide)

theorem stops_of_head? {p : Char → Bool} {rest : Text} (h : rest.head?.any p = false) :
    rest.takeWhile p = [] ∧ rest.dropWhile p = rest := by
  cases rest with
  | nil => exact ⟨rfl, rfl⟩
  | cons d rest =>
      have hd : p d = false := by simpa using h
      simp [hd]

theorem simpleKey?_bare {key rest : Text} (hkey : isBareKey key = true)
    (hrest : rest.head?.any isKeyChar = false) : simpleKey? (key ++ rest) = some (key, rest) := by
  have hall : ∀ c ∈ key, isKeyChar c = true := List.all_eq_true.mp (Bool.and_eq_true_iff.mp hkey).2
  obtain ⟨hnone, hkept⟩ := stops_of_head? hrest
  have htake : (key ++ rest).takeWhile isKeyChar = key := by
    rw [List.takeWhile_append_of_pos hall, hnone, List.append_nil]
  have hdrop : (key ++ rest).dropWhile isKeyChar = rest := by
    rw [List.dropWhile_append_of_pos hall, hkept]
  have hempty : key.isEmpty = false := by simpa using (Bool.and_eq_true_iff.mp hkey).1
  have hstart : ∀ c after, isKeyChar c = false → key ++ rest ≠ c :: after := by
    intro c after hc heq
    exact head?_ne_of_isBareKey hkey hc (congrArg List.head? heq)
  rw [simpleKey?, htake, hdrop, hempty]
  · rfl
  · exact fun after => hstart '"' after (by decide)
  · exact fun after => hstart '\x27' after (by decide)

/-- A written key reads back as the key. -/
theorem simpleKey?_quotedKey {rest : Text} (hrest : rest.head?.any isKeyChar = false) (t : Text) :
    simpleKey? (quotedKey t ++ rest) = some (t, rest) := by
  rw [quotedKey]
  split
  next hbare => exact simpleKey?_bare hbare hrest
  next =>
  split
  next hliteral =>
    simp only [Bool.and_eq_true, Bool.not_eq_true', List.any_eq_false] at hliteral
    obtain ⟨⟨hcodes, hsingles⟩, -⟩ := hliteral
    have hquote : '\x27' ∉ t := fun hmem => by simpa using hsingles _ hmem
    have hplain : ∀ c ∈ t, isPlain c = true := by
      intro c hc
      have hcode := hcodes c hc
      simp only [Bool.or_eq_true, beq_iff_eq, not_or, Bool.not_eq_true] at hcode
      exact isPlain_of_not_needsEscape hcode.1 hcode.2
    simpa [simpleKey?] using literalString_append hquote hplain rest
  next => simpa [simpleKey?] using basicString_basicBody t rest

theorem key?_single {s key rest : Text} (h : simpleKey? s = some (key, rest))
    (hdot : (rest.dropWhile Text.isInlineBlank).head? ≠ some '.') :
    key? s = some (([], key), rest.dropWhile Text.isInlineBlank) := by
  rw [key?, h]
  dsimp only
  split
  next heq =>
    rw [heq] at hdot
    exact absurd rfl hdot
  next => rfl

theorem key?_dotted {s above rest last after : Text} {path : List Text}
    (h : simpleKey? s = some (above, '.' :: rest)) (hlength : rest.length < s.length)
    (hblank : rest.dropWhile Text.isInlineBlank = rest)
    (hkey : key? rest = some ((path, last), after)) :
    key? s = some ((above :: path, last), after) := by
  rw [key?, h]
  simp [Text.isInlineBlank, hblank, hlength, hkey]

/-! ## Fillers -/

/-- Whether a character is the first of something, and not of a blank, a line end or a comment. -/
def startsContent (c : Char) : Bool := !(Text.isInlineBlank c || c == '\n' || c == '\r' || c == '#')

theorem filler?_start {c : Char} (hc : startsContent c = true) (t : Text) :
    filler? false (c :: t) = some (c :: t) := by
  simp only [startsContent, Bool.not_eq_true', Bool.or_eq_false_iff, beq_eq_false_iff_ne] at hc
  obtain ⟨⟨⟨hblank, hfeed⟩, hreturn⟩, hhash⟩ := hc
  rw [filler?]
  · simp [hblank]
  · exact hfeed
  · intro rest heq
    exact absurd heq hreturn
  · exact hhash

/-- A text that starts with something, so that no filler stands before it. -/
def HasContent (t : Text) : Prop := ∃ c tail, t = c :: tail ∧ startsContent c = true

namespace HasContent

variable {t : Text} (h : HasContent t)
include h

theorem append (rest : Text) : HasContent (t ++ rest) := by
  obtain ⟨c, tail, rfl, hc⟩ := h
  exact ⟨c, tail ++ rest, rfl, hc⟩

theorem filler?_eq : filler? false t = some t := by
  obtain ⟨c, tail, rfl, hc⟩ := h
  exact filler?_start hc tail

theorem dropWhile_isInlineBlank : t.dropWhile Text.isInlineBlank = t := by
  obtain ⟨c, tail, rfl, hc⟩ := h
  simp only [startsContent, Bool.not_eq_true', Bool.or_eq_false_iff] at hc
  exact List.dropWhile_cons_of_neg (by simp [hc.1.1.1])

end HasContent

theorem startsContent_of_isKeyChar {c : Char} (hc : isKeyChar c = true) :
    startsContent c = true := by
  have hne : ∀ d : Char, isKeyChar d = false → c ≠ d := by
    rintro d hd rfl
    exact absurd hc (by simp [hd])
  simp [startsContent, Text.isInlineBlank, hne ' ' (by decide), hne '\t' (by decide),
    hne '\n' (by decide), hne '\r' (by decide), hne '#' (by decide)]

theorem hasContent_of_isBareKey {key : Text} (hkey : isBareKey key = true) : HasContent key := by
  obtain ⟨c, tail, hcons, hc⟩ := exists_isKeyChar_of_isBareKey hkey
  exact ⟨c, tail, hcons, startsContent_of_isKeyChar hc⟩

theorem hasContent_quotedKey (key : Text) : HasContent (quotedKey key) := by
  rw [quotedKey]
  split
  next hbare => exact hasContent_of_isBareKey hbare
  next =>
  split
  next => exact ⟨'\x27', key ++ ['\x27'], rfl, by decide⟩
  next => exact ⟨'"', basicBody key ++ ['"'], rfl, by decide⟩

theorem hasContent_quoted (t : Text) : HasContent (quoted t) := by
  obtain ⟨c, tail, hquoted, rfl | rfl⟩ := exists_quoted_eq t
  · exact ⟨_, tail, hquoted, by decide⟩
  · exact ⟨_, tail, hquoted, by decide⟩

theorem filler?_quoted (t rest : Text) :
    filler? false (quoted t ++ rest) = some (quoted t ++ rest) :=
  ((hasContent_quoted t).append rest).filler?_eq

/-! ## Values -/

theorem value?_quoted {rest : Text} (hrest : EndsString rest) (depth : Nat) (t : Text) :
    value? depth (quoted t ++ rest) = some (.string t, rest) := by
  have hread := string?_quoted hrest t
  obtain ⟨c, tail, hquoted, hc⟩ := exists_quoted_eq t
  rw [hquoted] at hread ⊢
  have hvalue : value? depth ((c :: tail) ++ rest) = scalar? ((c :: tail) ++ rest) := by
    cases depth with
    | zero => rfl
    | succ depth => rcases hc with rfl | rfl <;> rfl
  rw [hvalue, scalar?, if_pos (by simpa using hc), hread]
  rfl

theorem value?_ofBool (depth : Nat) (b : Bool) (rest : Text) :
    value? depth (ofBool b ++ '\n' :: rest) = some (.boolean b, '\n' :: rest) := by
  cases depth <;> cases b <;> rfl

/-- The lines on which the strings of a list stand. -/
def itemLines (ts : List Text) : Text :=
  ts.flatMap fun t => ("    " : Text) ++ quoted t ++ [',', '\n']

theorem items?_cons {value : Reader Toml} {s t after next : Text} {item : Toml}
    (hstart : filler? false s = some (quoted t ++ after))
    (hvalue : value (quoted t ++ after) = some (item, after))
    (hcomma : filler? false after = some (',' :: next)) (hlength : next.length < s.length) :
    items? value s = (items? value next).map fun (items, rest) => (item :: items, rest) := by
  obtain ⟨c, tail, hquoted, hc⟩ := exists_quoted_eq t
  rw [hquoted, List.cons_append] at hstart hvalue
  rw [items?, hstart]
  rcases hc with rfl | rfl <;> simp [hvalue, hcomma, hlength]

theorem items?_last {value : Reader Toml} {t after rest : Text} {item : Toml}
    (hvalue : value (quoted t ++ after) = some (item, after))
    (hclose : filler? false after = some (']' :: rest)) :
    items? value (quoted t ++ after) = some ([item], rest) := by
  have hstart := filler?_quoted t after
  obtain ⟨c, tail, hquoted, hc⟩ := exists_quoted_eq t
  rw [hquoted, List.cons_append] at hstart hvalue ⊢
  rw [items?, hstart]
  rcases hc with rfl | rfl <;> simp [hvalue, hclose]

theorem items?_itemLines (depth : Nat) (ts : List Text) (rest : Text) :
    items? (value? depth) ('\n' :: (itemLines ts ++ ']' :: rest)) =
      some (ts.map .string, rest) := by
  induction ts with
  | nil =>
      rw [items?]
      rfl
  | cons t ts ih =>
      have hline : itemLines (t :: ts) ++ ']' :: rest =
          ' ' :: ' ' :: ' ' :: ' ' ::
            (quoted t ++ ',' :: '\n' :: (itemLines ts ++ ']' :: rest)) := by
        simp [itemLines]
      rw [hline]
      have hends : EndsString (',' :: '\n' :: (itemLines ts ++ ']' :: rest)) := by
        simp [EndsString]
      have hstart : filler? false ('\n' :: ' ' :: ' ' :: ' ' :: ' ' ::
          (quoted t ++ ',' :: '\n' :: (itemLines ts ++ ']' :: rest))) =
            some (quoted t ++ ',' :: '\n' :: (itemLines ts ++ ']' :: rest)) :=
        filler?_quoted t _
      rw [items?_cons hstart (value?_quoted hends depth t) (filler?_start (by decide) _)
        (by simp; omega), ih]
      rfl

/-- A written list of strings reads back. -/
theorem value?_quotedStrings (depth : Nat) (ts : List Text) (rest : Text) :
    value? (depth + 1) (quotedStrings ts ++ rest) = some (.array (ts.map .string), rest) := by
  have hitems : ∀ inner, items? (value? depth) inner = some (ts.map .string, rest) →
      value? (depth + 1) ('[' :: inner) = some (.array (ts.map .string), rest) := by
    intro inner hinner
    rw [value?, hinner]
    rfl
  unfold quotedStrings
  split
  next =>
    apply hitems
    rw [items?]
    rfl
  next t =>
    have hends : EndsString (']' :: rest) := by simp [EndsString]
    rw [List.append_assoc, List.append_assoc, List.singleton_append, List.singleton_append]
    exact hitems _ (items?_last (value?_quoted hends depth t) (filler?_start (by decide) rest))
  next =>
    rw [List.append_assoc, List.append_assoc, List.singleton_append]
    exact hitems _ (items?_itemLines depth ts rest)

end RequireLint.Toml
