import Mathlib.Data.List.Infix
import RequireLint.Text

/-!
# Texts at the start, at the end and inside of texts

The searches of `Text` are computed character by character.  This module says what they
decide: `startsWith`, `endsWith` and `contains` are the prefix, suffix and infix relations
of lists, and the cuts at the last separator are unique.
-/

namespace RequireLint.Text

theorem startsWith_iff {t lead : Text} :
    startsWith t lead = true ↔ lead <+: t := by
  rw [startsWith, Option.isSome_iff_exists]
  constructor
  · rintro ⟨rest, hrest⟩
    exact ⟨rest, (dropPrefix?_eq_some.mp hrest).symm⟩
  · rintro ⟨rest, hrest⟩
    exact ⟨rest, dropPrefix?_eq_some.mpr hrest.symm⟩

theorem endsWith_iff {t tail : Text} :
    endsWith t tail = true ↔ tail <:+ t := by
  rw [endsWith, startsWith_iff, List.reverse_prefix]

theorem contains_iff {t word : Text} :
    contains t word = true ↔ word <:+: t := by
  induction t with
  | nil => simp [contains]
  | cons c rest ih =>
      rw [contains, Bool.or_eq_true, startsWith_iff, ih, List.infix_cons_iff]

theorem dropPrefix?_eq_none {lead t : Text} :
    dropPrefix? lead t = none ↔ ¬ lead <+: t := by
  rw [← startsWith_iff, startsWith]
  cases dropPrefix? lead t <;> simp

theorem beforeLast?_eq_none {sep : Char} {t : Text} :
    beforeLast? sep t = none ↔ sep ∉ t := by
  induction t with
  | nil => simp [beforeLast?]
  | cons c rest ih =>
      rw [beforeLast?]
      cases hrest : beforeLast? sep rest with
      | some lead =>
          have hmem : sep ∈ rest := by
            by_contra hfree
            simp [ih.mpr hfree] at hrest
          simp [hmem]
      | none =>
          have hfree : sep ∉ rest := ih.mp hrest
          by_cases hc : c = sep
          · simp [hc]
          · simp [hc, hfree, Ne.symm hc]

/-- The cut at the last separator: what follows the separator has none. -/
theorem beforeLast?_append {sep : Char} {lead name : Text} (hname : sep ∉ name) :
    beforeLast? sep (lead ++ sep :: name) = some lead := by
  induction lead with
  | nil =>
      have hnone : beforeLast? sep name = none := beforeLast?_eq_none.mpr hname
      simp [beforeLast?, hnone]
  | cons c lead ih => simp [beforeLast?, ih]

/-- A text with a separator is cut at the last one. -/
theorem exists_append_of_mem {sep : Char} {t : Text} (h : sep ∈ t) :
    ∃ lead name, t = lead ++ sep :: name ∧ sep ∉ name := by
  induction t with
  | nil => simp at h
  | cons c rest ih =>
      by_cases hrest : sep ∈ rest
      · obtain ⟨lead, name, rfl, hname⟩ := ih hrest
        exact ⟨c :: lead, name, rfl, hname⟩
      · obtain rfl : sep = c := (List.mem_cons.mp h).resolve_right hrest
        exact ⟨[], rest, rfl, hrest⟩

/-! ## Trimming at the end -/

theorem dropEndWhile_of_all {p : Char → Bool} {t : Text} (hall : ∀ c ∈ t, p c = true) :
    dropEndWhile p t = [] := by
  induction t with
  | nil => rfl
  | cons c rest ih =>
      have hrest := ih fun d hd => hall d (List.mem_cons_of_mem _ hd)
      simp [dropEndWhile, hrest, hall c List.mem_cons_self]

theorem dropEndWhile_append_of_all {p : Char → Bool} {t tail : Text}
    (hall : ∀ c ∈ tail, p c = true) :
    dropEndWhile p (t ++ tail) = dropEndWhile p t := by
  induction t with
  | nil => exact dropEndWhile_of_all hall
  | cons c rest ih => rw [List.cons_append, dropEndWhile, ih, dropEndWhile]

/-- Nothing is dropped behind a character that stays. -/
theorem dropEndWhile_concat {p : Char → Bool} {c : Char} (hc : p c = false) (t : Text) :
    dropEndWhile p (t ++ [c]) = t ++ [c] := by
  induction t with
  | nil => simp [dropEndWhile, hc]
  | cons d rest ih =>
      rw [List.cons_append, dropEndWhile, ih]
      cases rest <;> simp

/-- What is dropped at the end satisfies the condition. -/
theorem dropEndWhile_append_dropped (p : Char → Bool) (t : Text) :
    ∃ dropped, t = dropEndWhile p t ++ dropped ∧ ∀ c ∈ dropped, p c = true := by
  induction t with
  | nil => exact ⟨[], rfl, by simp⟩
  | cons c rest ih =>
      obtain ⟨dropped, heq, hall⟩ := ih
      rw [dropEndWhile]
      cases hrest : dropEndWhile p rest with
      | nil =>
          rw [hrest, List.nil_append] at heq
          subst heq
          by_cases hc : p c = true
          · refine ⟨c :: rest, by simp [hc], ?_⟩
            simpa [hc] using hall
          · exact ⟨rest, by simp [hc], hall⟩
      | cons d kept =>
          rw [hrest] at heq
          exact ⟨dropped, congrArg (c :: ·) heq, hall⟩

theorem exists_of_afterLast?_eq_some {word t rest : Text} (h : afterLast? word t = some rest) :
    ∃ before, t = before ++ word ++ rest := by
  induction t with
  | nil => exact ⟨[], dropPrefix?_eq_some.mp h⟩
  | cons c t ih =>
      rw [afterLast?] at h
      cases hlater : afterLast? word t with
      | some found =>
          rw [hlater, Option.orElse_some] at h
          obtain rfl := Option.some.inj h
          obtain ⟨before, rfl⟩ := ih hlater
          exact ⟨c :: before, by simp⟩
      | none =>
          rw [hlater, Option.orElse_none] at h
          exact ⟨[], dropPrefix?_eq_some.mp h⟩

/-! ## The last occurrence of a word -/

theorem afterLast?_eq_none {word t : Text} :
    afterLast? word t = none ↔ ¬ word <:+: t := by
  induction t with
  | nil => simp [afterLast?, dropPrefix?_eq_none]
  | cons c t ih =>
      rw [afterLast?, List.infix_cons_iff, not_or, ← ih, ← dropPrefix?_eq_none]
      cases afterLast? word t <;> simp

/-- The word does not occur again behind the start of its last occurrence. -/
theorem not_infix_of_afterLast?_eq_some {word t rest : Text} (hword : word ≠ [])
    (h : afterLast? word t = some rest) : ¬ word <:+: (word ++ rest).tail := by
  induction t with
  | nil =>
      have hnil : [] = word ++ rest := dropPrefix?_eq_some.mp h
      simp [hword] at hnil
  | cons c t ih =>
      rw [afterLast?] at h
      cases hlater : afterLast? word t with
      | some found =>
          rw [hlater, Option.orElse_some] at h
          apply ih
          rw [hlater, h]
      | none =>
          rw [hlater, Option.orElse_none] at h
          have hsplit : c :: t = word ++ rest := dropPrefix?_eq_some.mp h
          rw [← hsplit, List.tail_cons]
          exact afterLast?_eq_none.mp hlater

/-- A word does not start where its first character is missing. -/
theorem afterLast?_append_of_not_mem {c : Char} {word lead : Text} (hlead : c ∉ lead) (t : Text) :
    afterLast? (c :: word) (lead ++ t) = afterLast? (c :: word) t := by
  induction lead with
  | nil => rfl
  | cons d lead ih =>
      obtain ⟨hd, hlead⟩ := List.ne_and_not_mem_of_not_mem_cons hlead
      have hnone : dropPrefix? (c :: word) (d :: (lead ++ t)) = none := by
        simp [dropPrefix?, hd]
      rw [List.cons_append, afterLast?, ih hlead, hnone]
      cases afterLast? (c :: word) t <;> rfl

end RequireLint.Text
