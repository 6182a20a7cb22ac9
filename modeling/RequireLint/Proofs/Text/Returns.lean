import Mathlib.Data.List.Infix
import RequireLint.Proofs.Text.Position

/-!
# Line ends with carriage returns

A line may end in a line feed or in a carriage return and a line feed.  `withReturns` changes the
first kind of line end into the second.  Two texts that differ in their line ends only are the same
once the carriage returns before line feeds are dropped, and a search for characters that belong to
no line end finds the same in both.
-/

namespace RequireLint.Text

/-! ## Adding carriage returns -/

/-- A text with a carriage return in front of every line feed. -/
def withReturns (t : Text) : Text := t.flatMap fun c => if c = '\n' then ['\r', '\n'] else [c]

@[simp] theorem withReturns_nil : withReturns [] = [] := rfl

@[simp] theorem withReturns_append (t u : Text) :
    withReturns (t ++ u) = withReturns t ++ withReturns u :=
  List.flatMap_append

@[simp] theorem withReturns_feed (t : Text) :
    withReturns ('\n' :: t) = '\r' :: '\n' :: withReturns t :=
  rfl

theorem withReturns_cons {c : Char} (hc : c ≠ '\n') (t : Text) :
    withReturns (c :: t) = c :: withReturns t := by
  rw [withReturns, List.flatMap_cons, if_neg hc]
  rfl

theorem withReturns_of_no_feed {t : Text} (ht : '\n' ∉ t) : withReturns t = t := by
  induction t with
  | nil => rfl
  | cons c t ih =>
      rw [List.mem_cons, not_or] at ht
      rw [withReturns_cons (Ne.symm ht.1), ih ht.2]

theorem count_withReturns (t : Text) : (withReturns t).count '\n' = t.count '\n' := by
  induction t with
  | nil => rfl
  | cons c t ih =>
      by_cases hc : c = '\n'
      · rw [hc, withReturns_feed, List.count_cons_of_ne (by decide), List.count_cons_self,
          List.count_cons_self, ih]
      · rw [withReturns_cons hc, List.count_cons_of_ne hc, List.count_cons_of_ne hc, ih]

theorem feed_mem_withReturns {t : Text} : '\n' ∈ withReturns t ↔ '\n' ∈ t := by
  rw [← List.count_pos_iff, count_withReturns, List.count_pos_iff]

theorem withReturns_eq_nil {t : Text} : withReturns t = [] ↔ t = [] := by
  cases t with
  | nil => simp
  | cons c t =>
      by_cases hc : c = '\n'
      · simp [hc]
      · simp [withReturns_cons hc]

/-- What is not a carriage return has been there before. -/
theorem exists_of_withReturns_eq_cons {c : Char} {t after : Text} (hc : c ≠ '\r')
    (h : withReturns t = c :: after) : ∃ rest, t = c :: rest ∧ after = withReturns rest := by
  cases t with
  | nil => simp at h
  | cons d t =>
      by_cases hd : d = '\n'
      · rw [hd, withReturns_feed] at h
        exact absurd (List.cons.inj h).1.symm hc
      · rw [withReturns_cons hd] at h
        obtain ⟨rfl, rfl⟩ := List.cons.inj h
        exact ⟨t, rfl, rfl⟩

theorem length_withReturns_le {t u : Text} (h : t <:+ u) :
    (withReturns t).length ≤ (withReturns u).length := by
  obtain ⟨lead, rfl⟩ := h
  rw [withReturns_append, List.length_append]
  omega

theorem length_withReturns_lt {t u : Text} (h : t <:+ u) (hlt : t.length < u.length) :
    (withReturns t).length < (withReturns u).length := by
  obtain ⟨lead, rfl⟩ := h
  have hlead : withReturns lead ≠ [] := by
    rw [ne_eq, withReturns_eq_nil]
    rintro rfl
    simp at hlt
  have hpos := List.length_pos_iff.mpr hlead
  rw [withReturns_append, List.length_append]
  omega

section Search

variable {p : Char → Bool} (hfeed : p '\n' = false) (hreturn : p '\r' = false)
include hfeed hreturn

theorem takeWhile_withReturns (t : Text) : (withReturns t).takeWhile p = t.takeWhile p := by
  induction t with
  | nil => rfl
  | cons c t ih =>
      by_cases hc : c = '\n'
      · rw [hc, withReturns_feed]
        simp [hfeed, hreturn]
      · rw [withReturns_cons hc, List.takeWhile_cons, List.takeWhile_cons, ih]

theorem dropWhile_withReturns (t : Text) :
    (withReturns t).dropWhile p = withReturns (t.dropWhile p) := by
  induction t with
  | nil => rfl
  | cons c t ih =>
      by_cases hc : c = '\n'
      · rw [hc, withReturns_feed]
        simp [hfeed, hreturn]
      · rw [withReturns_cons hc, List.dropWhile_cons, List.dropWhile_cons]
        split
        · exact ih
        · exact (withReturns_cons hc t).symm

theorem any_head?_withReturns (t : Text) : (withReturns t).head?.any p = t.head?.any p := by
  cases t with
  | nil => rfl
  | cons c t =>
      by_cases hc : c = '\n'
      · simp [hc, hfeed, hreturn]
      · simp [withReturns_cons hc]

end Search

/-- A text without the characters of line ends. -/
abbrev Inline (word : Text) : Prop := '\n' ∉ word ∧ '\r' ∉ word

theorem Inline.cons {c : Char} {word : Text} (h : Inline (c :: word)) :
    c ≠ '\n' ∧ c ≠ '\r' ∧ Inline word := by
  obtain ⟨hfeed, hreturn⟩ := h
  rw [List.mem_cons, not_or] at hfeed hreturn
  exact ⟨Ne.symm hfeed.1, Ne.symm hreturn.1, hfeed.2, hreturn.2⟩

/-- A search for a word on a line goes on behind the same text. -/
theorem dropPrefix?_withReturns {word : Text} (hword : Inline word) (t : Text) :
    dropPrefix? word (withReturns t) = (dropPrefix? word t).map withReturns := by
  induction word generalizing t with
  | nil => rfl
  | cons a word ih =>
      obtain ⟨hfeed, hreturn, hlater⟩ := hword.cons
      cases t with
      | nil => rfl
      | cons c t =>
          by_cases hc : c = '\n'
          · rw [hc, withReturns_feed, dropPrefix?, dropPrefix?, if_neg hfeed, if_neg hreturn]
            rfl
          · rw [withReturns_cons hc, dropPrefix?, dropPrefix?, ih hlater]
            split <;> rfl

theorem startsWith_withReturns {word : Text} (hword : Inline word) (t : Text) :
    startsWith (withReturns t) word = startsWith t word := by
  rw [startsWith, startsWith, dropPrefix?_withReturns hword, Option.isSome_map]

/-! ## Dropping carriage returns -/

/-- A character in front of a text, unless it is a carriage return in front of a line feed. -/
def consReturn (c : Char) (t : Text) : Text :=
  if c = '\r' ∧ t.head? = some '\n' then t else c :: t

/-- A text without the carriage returns in front of line feeds. -/
def dropReturns (t : Text) : Text := t.foldr consReturn []

@[simp] theorem dropReturns_nil : dropReturns [] = [] := rfl

theorem dropReturns_cons (c : Char) (t : Text) :
    dropReturns (c :: t) = consReturn c (dropReturns t) :=
  rfl

theorem consReturn_of_ne {c : Char} (hc : c ≠ '\r') (t : Text) : consReturn c t = c :: t :=
  if_neg fun h => hc h.1

@[simp] theorem consReturn_feed (t : Text) : consReturn '\r' ('\n' :: t) = '\n' :: t := rfl

/-- Either a character is kept, or it is a carriage return and a line feed follows. -/
theorem dropReturns_cons_cases (c : Char) (t : Text) :
    dropReturns (c :: t) = c :: dropReturns t ∨
      c = '\r' ∧ ∃ rest, dropReturns t = '\n' :: rest ∧ dropReturns (c :: t) = '\n' :: rest := by
  rw [dropReturns_cons, consReturn]
  split
  next h =>
    obtain ⟨rest, hrest⟩ := List.head?_eq_some_iff.mp h.2
    exact .inr ⟨h.1, rest, hrest, hrest⟩
  next => exact .inl rfl

theorem feed_mem_dropReturns {t : Text} : '\n' ∈ dropReturns t ↔ '\n' ∈ t := by
  induction t with
  | nil => rfl
  | cons c t ih =>
      rcases dropReturns_cons_cases c t with hkept | ⟨rfl, rest, hrest, hdropped⟩
      · rw [hkept, List.mem_cons, List.mem_cons, ih]
      · rw [hdropped, ← hrest, ih]
        simp

theorem dropReturns_of_no_feed {t : Text} (ht : '\n' ∉ t) : dropReturns t = t := by
  induction t with
  | nil => rfl
  | cons c t ih =>
      rw [List.mem_cons, not_or] at ht
      rcases dropReturns_cons_cases c t with hkept | ⟨-, rest, hrest, -⟩
      · rw [hkept, ih ht.2]
      · rw [ih ht.2] at hrest
        rw [hrest] at ht
        simp at ht

theorem dropReturns_eq_nil {t : Text} : dropReturns t = [] ↔ t = [] := by
  cases t with
  | nil => simp
  | cons c t =>
      rcases dropReturns_cons_cases c t with h | ⟨-, rest, -, h⟩
      · simp [h]
      · simp [h]

/-- A text without line feeds is found by itself only. -/
theorem dropReturns_eq_iff {t u : Text} (hu : '\n' ∉ u) : dropReturns t = u ↔ t = u := by
  constructor
  · rintro rfl
    rw [feed_mem_dropReturns] at hu
    exact (dropReturns_of_no_feed hu).symm
  · rintro rfl
    exact dropReturns_of_no_feed hu

theorem dropPrefix?_dropReturns {word : Text} (hword : Inline word) (t : Text) :
    dropPrefix? word (dropReturns t) = (dropPrefix? word t).map dropReturns := by
  induction word generalizing t with
  | nil => rfl
  | cons a word ih =>
      obtain ⟨hfeed, hreturn, hlater⟩ := hword.cons
      cases t with
      | nil => rfl
      | cons c t =>
          rcases dropReturns_cons_cases c t with hkept | ⟨rfl, rest, -, hdropped⟩
          · rw [hkept, dropPrefix?, dropPrefix?, ih hlater]
            split <;> rfl
          · rw [hdropped, dropPrefix?, dropPrefix?, if_neg hfeed, if_neg hreturn]
            rfl

theorem startsWith_dropReturns {word : Text} (hword : Inline word) (t : Text) :
    startsWith (dropReturns t) word = startsWith t word := by
  rw [startsWith, startsWith, dropPrefix?_dropReturns hword, Option.isSome_map]

section Separator

variable {sep : Char} (hfeed : sep ≠ '\n')
include hfeed

theorem splitOn_consReturn {c : Char} (hc : c ≠ sep) (t : Text) :
    (consReturn c t).splitOn sep = (t.splitOn sep).modifyHead (consReturn c) := by
  have hcons : ∀ u : Text, (c :: u).splitOn sep = (u.splitOn sep).modifyHead (c :: ·) := by
    intro u
    rw [List.splitOn_cons_eq_if_modifyHead, if_neg (by simpa using hc)]
  cases t with
  | nil => simpa [consReturn] using hcons []
  | cons d t =>
      obtain ⟨first, others, hsplit⟩ := List.exists_cons_of_ne_nil (List.splitOn_ne_nil sep t)
      by_cases hdropped : c = '\r' ∧ d = '\n'
      · obtain ⟨rfl, rfl⟩ := hdropped
        rw [consReturn_feed, List.splitOn_cons_eq_if_modifyHead,
          if_neg (by simpa using hfeed.symm), hsplit]
        rfl
      · have hkept : ∀ u : Text, consReturn c (d :: u) = c :: d :: u := by
          intro u
          rw [consReturn, if_neg (by simpa using hdropped)]
        rw [hkept, hcons, List.splitOn_cons_eq_if_modifyHead, hsplit]
        split
        · simp [consReturn]
        · simp [hkept]

theorem dropReturns_append_cons (hreturn : sep ≠ '\r') (t u : Text) :
    dropReturns (t ++ sep :: u) = dropReturns t ++ sep :: dropReturns u := by
  induction t with
  | nil => rw [List.nil_append, dropReturns_cons, consReturn_of_ne hreturn, dropReturns_nil,
      List.nil_append]
  | cons c t ih =>
      rw [List.cons_append, dropReturns_cons, ih, dropReturns_cons]
      cases dropReturns t with
      | nil => simp [consReturn, hfeed]
      | cons d t =>
          rw [consReturn, consReturn, List.cons_append, List.head?_cons, List.head?_cons]
          split <;> rfl

/-- A part of a line up to a separator stands where it stood. -/
theorem exists_of_dropReturns_eq_append {lead t rest : Text} (hlead : '\n' ∉ lead)
    (h : dropReturns t = lead ++ sep :: rest) :
    ∃ rest', t = lead ++ sep :: rest' ∧ dropReturns rest' = rest := by
  induction lead generalizing t with
  | nil =>
      cases t with
      | nil => simp at h
      | cons c t =>
          rcases dropReturns_cons_cases c t with hkept | ⟨-, later, -, hdropped⟩
          · rw [hkept] at h
            obtain ⟨rfl, hrest⟩ := List.cons.inj h
            exact ⟨t, rfl, hrest⟩
          · rw [hdropped] at h
            exact absurd (List.cons.inj h).1.symm hfeed
  | cons d lead ih =>
      rw [List.mem_cons, not_or] at hlead
      cases t with
      | nil => simp at h
      | cons c t =>
          rcases dropReturns_cons_cases c t with hkept | ⟨-, later, -, hdropped⟩
          · rw [hkept] at h
            obtain ⟨rfl, hrest⟩ := List.cons.inj h
            obtain ⟨rest', rfl, hrest'⟩ := ih hlead.2 hrest
            exact ⟨rest', rfl, hrest'⟩
          · rw [hdropped] at h
            exact absurd (List.cons.inj h).1 hlead.1

/-- A separator that belongs to no line end cuts at the same places. -/
theorem splitOn_dropReturns (hreturn : sep ≠ '\r') (t : Text) :
    (dropReturns t).splitOn sep = (t.splitOn sep).map dropReturns := by
  induction t with
  | nil => simp
  | cons c t ih =>
      rw [dropReturns_cons, List.splitOn_cons_eq_if_modifyHead]
      by_cases hc : c = sep
      · rw [consReturn_of_ne (by simpa [hc] using hreturn), if_pos (by simpa using hc),
          List.splitOn_cons_eq_if_modifyHead, if_pos (by simpa using hc), ih]
        rfl
      · rw [splitOn_consReturn hfeed hc, ih, if_neg (by simpa using hc)]
        cases t.splitOn sep <;> rfl

end Separator

section Word

variable {word : Text} (hword : Inline word) (hne : word ≠ [])
include hword hne

theorem dropPrefix?_eq_none_of_return {c : Char} (hc : c = '\n' ∨ c = '\r') (t : Text) :
    dropPrefix? word (c :: t) = none := by
  obtain ⟨a, word, rfl⟩ := List.exists_cons_of_ne_nil hne
  obtain ⟨hfeed, hreturn, -⟩ := hword.cons
  rw [dropPrefix?, if_neg]
  rintro rfl
  rcases hc with rfl | rfl
  · exact hfeed rfl
  · exact hreturn rfl

theorem contains_dropReturns (t : Text) : contains (dropReturns t) word = contains t word := by
  induction t with
  | nil => rfl
  | cons c t ih =>
      have hstart := startsWith_dropReturns hword (c :: t)
      rw [contains]
      rcases dropReturns_cons_cases c t with hkept | ⟨rfl, rest, hrest, hdropped⟩
      · rw [hkept] at hstart ⊢
        rw [contains, hstart, ih]
      · have hnone : startsWith ('\r' :: t) word = false := by
          rw [startsWith, dropPrefix?_eq_none_of_return hword hne (.inr rfl)]
          rfl
        rw [hnone, Bool.false_or, ← ih, hrest, hdropped]

theorem afterLast?_dropReturns (t : Text) :
    afterLast? word (dropReturns t) = (afterLast? word t).map dropReturns := by
  induction t with
  | nil =>
      rw [dropReturns_nil, afterLast?]
      exact dropPrefix?_dropReturns hword []
  | cons c t ih =>
      have hstart := dropPrefix?_dropReturns hword (c :: t)
      rw [afterLast?]
      rcases dropReturns_cons_cases c t with hkept | ⟨rfl, rest, hrest, hdropped⟩
      · rw [hkept] at hstart ⊢
        rw [afterLast?, ih, hstart]
        cases afterLast? word t <;> rfl
      · have hnone := dropPrefix?_eq_none_of_return hword hne (.inr rfl) t
        have hlater : ((afterLast? word t).orElse fun _ => none) = afterLast? word t := by
          cases afterLast? word t <;> rfl
        rw [hnone, hlater, ← ih, hrest, hdropped]

end Word

end RequireLint.Text
