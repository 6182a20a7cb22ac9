import Mathlib.Data.List.Infix
import RequireLint.Proofs.Source.Delimited

/-!
# Literals that read back as they are written

A text between double quotes reads back as itself exactly when nothing in it has a meaning of its
own there: no quote, no backslash and no interpolation.
-/

namespace RequireLint.Expr

/-- A text that a double-quoted literal can hold as it is. -/
def Plain (t : Text) : Prop := '"' ∉ t ∧ '\\' ∉ t ∧ ¬ ['#', '\x7b'] <:+: t

instance (t : Text) : Decidable (Plain t) :=
  inferInstanceAs (Decidable (_ ∧ _ ∧ _))

theorem plain_nil : Plain [] := by decide

theorem plain_cons {c : Char} {t : Text} :
    Plain (c :: t) ↔
      c ≠ '"' ∧ c ≠ '\\' ∧ (c = '#' → t.head? ≠ some '\x7b') ∧ Plain t := by
  have hinfix : ['#', '\x7b'] <:+: c :: t ↔
      (c = '#' ∧ t.head? = some '\x7b') ∨ ['#', '\x7b'] <:+: t := by
    rw [List.infix_cons_iff]
    refine or_congr_left ?_
    cases t <;> simp [List.cons_prefix_cons, eq_comm]
  simp only [Plain, hinfix, List.mem_cons, not_or, not_and, ne_eq, eq_comm]
  tauto

/-- The parts of a literal without interpolation. -/
def literalParts (t : Text) : Parts := t.foldr Parts.push .nil

theorem literalParts_cons (c : Char) (t : Text) :
    literalParts (c :: t) = .text (c :: t) .nil := by
  induction t generalizing c with
  | nil => rfl
  | cons d rest ih =>
      rw [literalParts, List.foldr_cons, ← literalParts, ih]
      rfl

theorem toExpr_literalParts (t : Text) : (literalParts t).toExpr = .str t := by
  cases t with
  | nil => rfl
  | cons c rest =>
      rw [literalParts_cons]
      rfl

/-- The quote ends a plain literal. -/
theorem doubleQuoted_of_plain (nested : Parser Expr) {t : Text} (h : Plain t) (rest : Text) :
    doubleQuoted nested (t ++ '"' :: rest) = some (literalParts t, rest) := by
  induction t with
  | nil => simp [doubleQuoted, literalParts]
  | cons c t ih =>
      obtain ⟨hquote, hescape, hinterpolation, hplain⟩ := plain_cons.mp h
      rw [List.cons_append, doubleQuoted, ih hplain]
      · rfl
      · exact hquote
      · exact fun hc _ => hescape hc
      · exact fun _ _ hc _ => hescape hc
      · intro after hc hafter
        cases t with
        | nil => simp at hafter
        | cons d t =>
            obtain ⟨rfl, -⟩ := List.cons.inj hafter
            exact hinterpolation hc rfl

theorem toExpr_push {c : Char} {parts : Parts} {t : Text}
    (h : (parts.push c).toExpr = .str t) : ∃ rest, t = c :: rest ∧ parts.toExpr = .str rest := by
  cases parts with
  | nil => exact ⟨[], by simpa [Parts.push, Parts.toExpr, eq_comm] using h, rfl⟩
  | text chars more =>
      cases more with
      | nil => exact ⟨chars, by simpa [Parts.push, Parts.toExpr, eq_comm] using h, rfl⟩
      | text _ _ | expr _ _ => simp [Parts.push, Parts.toExpr] at h
  | expr _ _ => simp [Parts.push, Parts.toExpr] at h

/-- A literal without interpolation takes a character of the text for each of its own, and more
than that only for an escape. -/
theorem plain_of_doubleQuoted {nested : Parser Expr} {s t rest : Text} {parts : Parts}
    (h : doubleQuoted nested s = some (parts, rest)) (ht : parts.toExpr = .str t) :
    t.length + 1 + rest.length ≤ s.length ∧
      (t.length + 1 + rest.length = s.length → s = t ++ '"' :: rest ∧ Plain t) := by
  fun_induction doubleQuoted nested s generalizing parts t with
  | case1 => simp at h
  | case2 after =>
      obtain ⟨rfl, rfl⟩ := Prod.mk.inj (Option.some.inj h)
      obtain rfl : [] = t := Expr.str.inj ht
      exact ⟨by simp; omega, fun _ => ⟨rfl, plain_nil⟩⟩
  | case3 => simp at h
  | case4 c after ih =>
      obtain ⟨inner, hread, rfl⟩ := exists_of_map_eq_some h fun _ => rfl
      obtain ⟨text, rfl, htext⟩ := toExpr_push ht
      obtain ⟨hle, -⟩ := ih hread htext
      simp only [List.length_cons]
      exact ⟨by omega, fun heq => by omega⟩
  | case5 => simp at h
  | case6 after found inner hinner outer houter _ ih =>
      obtain ⟨inner, -, rfl⟩ := exists_of_map_eq_some h fun _ => rfl
      simp [Parts.toExpr] at ht
  | case7 => simp at h
  | case8 => simp at h
  | case9 c after hquote hlast hescape hinterpolation ih =>
      obtain ⟨inner, hread, rfl⟩ := exists_of_map_eq_some h fun _ => rfl
      obtain ⟨text, rfl, htext⟩ := toExpr_push ht
      obtain ⟨hle, heq⟩ := ih hread htext
      simp only [List.length_cons]
      refine ⟨by omega, fun hlength => ?_⟩
      obtain ⟨rfl, hplain⟩ := heq (by omega)
      refine ⟨rfl, plain_cons.mpr ⟨hquote, ?_, ?_, hplain⟩⟩
      · intro hc
        cases text with
        | nil => exact hescape _ _ hc rfl
        | cons d more => exact hescape _ _ hc rfl
      · intro hc hhead
        cases text with
        | nil => simp at hhead
        | cons d more =>
            obtain rfl := Option.some.inj hhead
            exact hinterpolation _ hc rfl

/-! ## Whole expressions -/

/-- An expression with methods or addends is no literal. -/
theorem methods_eq_str {nested : Parser Expr} {receiver : Expr} {s t rest : Text}
    (h : methods nested receiver s = some (.str t, rest)) : receiver = .str t ∧ s = rest := by
  fun_induction methods nested receiver s with
  | case1 => simp at h
  | case2 => simp at h
  | case3 _ _ _ _ _ _ _ _ _ _ ih => exact absurd (ih h).1 (by simp)
  | case4 => simp at h
  | case5 receiver s => exact Prod.mk.inj (Option.some.inj h)

theorem addends_eq_str {nested : Parser Expr} {left : Expr} {s t rest : Text}
    (h : addends nested left s = some (.str t, rest)) : left = .str t ∧ s = rest := by
  fun_induction addends nested left s with
  | case1 left s => exact Prod.mk.inj (Option.some.inj h)
  | case2 => simp at h
  | case3 _ _ _ _ _ _ _ _ ih => exact absurd (ih h).1 (by simp)
  | case4 => simp at h

/-- A sum that reads back as a literal to the end of the text is that literal alone. -/
theorem sum_quoted_iff {nested : Parser Expr} {t : Text} :
    sum nested ('"' :: (t ++ ['"'])) = some (.str t, []) ↔ Plain t := by
  have hprimary : primary nested ('"' :: (t ++ ['"'])) =
      (doubleQuoted nested (t ++ ['"'])).map fun found => (found.1.toExpr, found.2) := rfl
  constructor
  · intro h
    simp only [sum] at h
    split at h
    · simp at h
    next left after hoperand =>
      obtain ⟨rfl, rfl⟩ := addends_eq_str h
      simp only [operand] at hoperand
      split at hoperand
      · simp at hoperand
      next receiver after hreceiver =>
        obtain ⟨rfl, rfl⟩ := methods_eq_str hoperand
        rw [hprimary] at hreceiver
        obtain ⟨parts, hread, hparts⟩ := exists_of_map_eq_some hreceiver fun _ => rfl
        exact ((plain_of_doubleQuoted hread hparts).2 (by simp)).2
  · intro h
    have hread := doubleQuoted_of_plain nested h []
    have hoperand : operand nested ('"' :: (t ++ ['"'])) = some (.str t, []) := by
      simp only [operand, hprimary, hread, Option.map_some, toExpr_literalParts]
      rw [methods]
      rfl
    simp only [sum, hoperand]
    rw [addends]
    rfl

/-- A text between double quotes reads back as itself exactly when it is plain. -/
theorem parse?_quoted_iff {t : Text} :
    parse? ('"' :: (t ++ ['"'])) = some (.str t, []) ↔ Plain t := by
  rw [parse?, sum_quoted_iff]

/-- A plain literal reads back before any text that stops it. -/
theorem parse?_quoted_append {t more : Text} (h : Plain t) (hmore : Stops more) :
    parse? ('"' :: (t ++ '"' :: more)) = some (.str t, more) := by
  obtain ⟨used, hused, -, hagain⟩ := delimits_parse? (parse?_quoted_iff.mpr h)
  have hread := hagain more hmore
  rw [List.append_nil] at hused
  rw [← hused] at hread
  simpa using hread

end RequireLint.Expr
