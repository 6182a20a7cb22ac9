import Mathlib.Data.Char
import Mathlib.Data.List.Lex
import RequireLint.File.Tree

/-!
# The order of places

Texts and places are compared as lists are, element by element.  Sorting a list of places and
dropping those that are equal to the next one therefore leaves every place once.

The place that a path names is read off the path alone.  In a tree without links it is the place
that the path leads to, if it leads anywhere.
-/

namespace RequireLint

theorem Text.le_iff (t u : Text) : Text.le t u = true ↔ t ≤ u := by
  induction t generalizing u with
  | nil => simp [Text.le, ← not_lt]
  | cons a t ih =>
      cases u with
      | nil => simp [Text.le, ← not_lt]
      | cons b u =>
          rw [Text.le, ← not_lt, List.cons_lt_cons_iff]
          by_cases hab : a = b
          · simp [hab, ih]
          · have hba : b ≠ a := Ne.symm hab
            rw [if_neg hab, decide_eq_true_eq, ← Char.lt_def, or_iff_left (by simp [hba]), not_lt]
            exact ⟨le_of_lt, fun hle => lt_of_le_of_ne hle hab⟩

namespace Place

theorem le_iff (p q : Place) : Place.le p q = true ↔ p ≤ q := by
  induction p generalizing q with
  | nil => simp [Place.le, ← not_lt]
  | cons a p ih =>
      cases q with
      | nil => simp [Place.le, ← not_lt]
      | cons b q =>
          rw [Place.le, ← not_lt, List.cons_lt_cons_iff]
          by_cases hab : a = b
          · simp [hab, ih]
          · have hba : b ≠ a := Ne.symm hab
            simp [hab, hba, Text.le_iff]

/-! ## Every place once -/

theorem pairwise_sorted (places : List Place) : (sorted places).Pairwise (· ≤ ·) := by
  have hsorted : (sorted places).Pairwise fun a b => Place.le a b = true := by
    apply List.pairwise_mergeSort
    · intro a b c hab hbc
      rw [le_iff] at hab hbc ⊢
      exact hab.trans hbc
    · intro a b
      rw [Bool.or_eq_true, le_iff, le_iff]
      exact le_total a b
  exact hsorted.imp fun hle => (le_iff _ _).mp hle

theorem mem_distinct {place : Place} {places : List Place} :
    place ∈ distinct places ↔ place ∈ places := by
  fun_induction distinct places with
  | case1 b rest ih => simp [ih]
  | case2 a b rest hne ih => simp [ih]
  | case3 => rfl

theorem pairwise_distinct {places : List Place} (h : places.Pairwise (· ≤ ·)) :
    (distinct places).Pairwise (· < ·) := by
  fun_induction distinct places with
  | case1 b rest ih => exact ih h.of_cons
  | case2 a b rest hne ih =>
      obtain ⟨hfirst, hrest⟩ := List.pairwise_cons.mp h
      apply List.pairwise_cons.mpr
      refine ⟨?_, ih hrest⟩
      intro later hmem
      -- All that comes later is at least `b`, which is larger than `a`.
      have hab : a < b := lt_of_le_of_ne (hfirst b List.mem_cons_self) hne
      rcases List.mem_cons.mp (mem_distinct.mp hmem) with rfl | hlater
      · exact hab
      · exact hab.trans_le (List.rel_of_pairwise_cons hrest hlater)
  | case3 places hshort =>
      match places, hshort with
      | [], _ => exact .nil
      | [a], _ => exact List.pairwise_singleton _ _
      | a :: b :: rest, hshort => exact absurd rfl (hshort a b rest)

theorem nodup_distinct_sorted (places : List Place) : (distinct (sorted places)).Nodup :=
  (pairwise_distinct (pairwise_sorted places)).imp ne_of_lt

/-! ## Named places -/

/-- One segment of a path. -/
def step (here : Place) (segment : Text) : Place :=
  if segment = [] ∨ segment = ['.'] then here
  else if segment = ['.', '.'] then here.dropLast
  else here ++ [segment]

/-- The place that a path names, whatever there is in the tree. -/
def named (current : Place) (path : Text) : Place :=
  (path.splitOn '/').foldl step (FileTree.origin current path)

end Place

end RequireLint
