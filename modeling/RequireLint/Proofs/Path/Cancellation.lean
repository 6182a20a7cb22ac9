import RequireLint.Proofs.Path.Expansion

/-!
# Segments that cancel each other

A `..` in a path cancels the nearest name before it that is not cancelled yet, as a closing bracket
belongs to an opening one.  A path leads above the root as soon as one of its starts holds more
`..` than names.  Otherwise its canonical form is made of the names that are not cancelled.

Both are said here by the segments alone.  The normalization walks over them with a stack instead;
the main statement is that it comes to the same result.
-/

namespace RequireLint.Path

/-! ## Matching -/

/-- A segment that is neither empty nor `.` nor `..`. -/
def IsOrdinary (segment : Text) : Prop :=
  segment ≠ [] ∧ segment ≠ ['.'] ∧ segment ≠ ['.', '.']

instance : DecidablePred IsOrdinary := fun segment =>
  inferInstanceAs (Decidable (segment ≠ [] ∧ segment ≠ ['.'] ∧ segment ≠ ['.', '.']))

/-- Segments in which every ordinary one has a `..` that matches it, and every `..` an ordinary
one before it. -/
inductive Paired : List Text → Prop
  | nil : Paired []
  | stay {segment : Text} {rest : List Text} :
      segment = [] ∨ segment = ['.'] → Paired rest → Paired (segment :: rest)
  | pair {segment : Text} {inner rest : List Text} :
      IsOrdinary segment → Paired inner → Paired rest →
        Paired (segment :: (inner ++ ['.', '.'] :: rest))

/-- Among some segments there is a `..` that matches what stands right before them. -/
def MatchesBefore (segments : List Text) : Prop :=
  ∃ inner after, segments = inner ++ ['.', '.'] :: after ∧ Paired inner

/-- Some start of the segments holds more `..` than ordinary segments. -/
def LeavesRoot (segments : List Text) : Prop :=
  ∃ lead, lead <+: segments ∧ lead.countP (IsOrdinary ·) < lead.count ['.', '.']

theorem segment_cases (segment : Text) :
    (segment = [] ∨ segment = ['.']) ∨ segment = ['.', '.'] ∨ IsOrdinary segment := by
  by_cases hstay : segment = [] ∨ segment = ['.']
  · exact .inl hstay
  · by_cases hup : segment = ['.', '.']
    · exact .inr (.inl hup)
    · push Not at hstay
      exact .inr (.inr ⟨hstay.1, hstay.2, hup⟩)

theorem not_isOrdinary_of_stay {segment : Text} (h : segment = [] ∨ segment = ['.']) :
    ¬ IsOrdinary segment := by
  rintro ⟨hnil, hdot, -⟩
  exact h.elim hnil hdot

theorem matchesBefore_dots (rest : List Text) : MatchesBefore (['.', '.'] :: rest) :=
  ⟨[], rest, rfl, .nil⟩

theorem MatchesBefore.stay {segment : Text} {rest : List Text}
    (hstay : segment = [] ∨ segment = ['.']) (h : MatchesBefore rest) :
    MatchesBefore (segment :: rest) := by
  obtain ⟨inner, after, rfl, hinner⟩ := h
  exact ⟨segment :: inner, after, rfl, .stay hstay hinner⟩

theorem MatchesBefore.pair {segment : Text} {inner rest : List Text} (hsegment : IsOrdinary segment)
    (hinner : Paired inner) (h : MatchesBefore rest) :
    MatchesBefore (segment :: (inner ++ ['.', '.'] :: rest)) := by
  obtain ⟨inner', after, rfl, hinner'⟩ := h
  exact ⟨segment :: (inner ++ ['.', '.'] :: inner'), after, by simp,
    .pair hsegment hinner hinner'⟩

/-- Induction over segments.  An ordinary segment is passed together with what matches it. -/
@[elab_as_elim]
theorem matchInduction {motive : List Text → Prop} (nil : motive [])
    (stay : ∀ segment rest, segment = [] ∨ segment = ['.'] → motive rest →
      motive (segment :: rest))
    (dots : ∀ rest, motive (['.', '.'] :: rest))
    (keep : ∀ segment rest, IsOrdinary segment → ¬ MatchesBefore rest → motive rest →
      motive (segment :: rest))
    (pair : ∀ segment inner rest, IsOrdinary segment → Paired inner → motive rest →
      motive (segment :: (inner ++ ['.', '.'] :: rest)))
    (segments : List Text) : motive segments := by
  induction hsize : segments.length using Nat.strong_induction_on generalizing segments with
  | h size ih =>
      cases segments with
      | nil => exact nil
      | cons segment rest =>
          rw [List.length_cons] at hsize
          rcases segment_cases segment with hstay | rfl | hordinary
          · exact stay segment rest hstay (ih rest.length (by omega) rest rfl)
          · exact dots rest
          · by_cases hmatches : MatchesBefore rest
            · obtain ⟨inner, after, rfl, hinner⟩ := hmatches
              rw [List.length_append, List.length_cons] at hsize
              exact pair segment inner after hordinary hinner
                (ih after.length (by omega) after rfl)
            · exact keep segment rest hordinary hmatches (ih rest.length (by omega) rest rfl)

/-! ## Walks -/

theorem IsOrdinary.walk_cons {segment : Text} (h : IsOrdinary segment) (stack rest : List Text) :
    walk stack (segment :: rest) = walk (segment :: stack) rest :=
  walk_down (by simp [h.1, h.2.1]) h.2.2 stack rest

/-- A walk over matched segments comes back. -/
theorem Paired.walk_append {segments : List Text} (h : Paired segments)
    (stack rest : List Text) : walk stack (segments ++ rest) = walk stack rest := by
  induction h generalizing stack rest with
  | nil => rfl
  | stay hstay _ ih => rw [List.cons_append, walk_stay hstay, ih]
  | pair hsegment _ _ ihinner ih =>
      rw [List.cons_append, hsegment.walk_cons, List.append_assoc, ihinner, List.cons_append,
        walk_up, ih]

/-- What lies below the start of a walk that succeeds does not matter to it. -/
theorem walk_append_stack {stack segments last : List Text} (h : walk stack segments = some last)
    (more : List Text) : walk (stack ++ more) segments = some (last ++ more) := by
  induction segments generalizing stack with
  | nil =>
      obtain rfl : stack = last := by simpa [walk] using h
      rw [walk]
  | cons segment rest ih =>
      rcases segment_cases segment with hstay | rfl | hordinary
      · rw [walk_stay hstay] at h ⊢
        exact ih h
      · cases stack with
        | nil => simp at h
        | cons top up =>
            rw [walk_up] at h
            rw [List.cons_append, walk_up]
            exact ih h
      · rw [hordinary.walk_cons] at h ⊢
        exact ih h

/-- A walk from the root fails exactly if a `..` has no segment to match. -/
theorem matchesBefore_iff_walk_eq_none {segments : List Text} :
    MatchesBefore segments ↔ walk [] segments = none := by
  constructor
  · rintro ⟨inner, after, rfl, hinner⟩
    rw [hinner.walk_append, walk_up_root]
  · induction segments using matchInduction with
    | nil => simp [walk]
    | stay segment rest hstay ih =>
        intro h
        rw [walk_stay hstay] at h
        exact (ih h).stay hstay
    | dots rest =>
        intro _
        exact matchesBefore_dots rest
    | keep segment rest hsegment hmatches ih =>
        intro h
        rw [hsegment.walk_cons] at h
        cases hwalk : walk [] rest with
        | none => exact absurd (ih hwalk) hmatches
        | some last =>
            have hlater := walk_append_stack hwalk [segment]
            rw [List.nil_append, h] at hlater
            exact absurd hlater (by simp)
    | pair segment inner rest hsegment hinner ih =>
        intro h
        rw [hsegment.walk_cons, hinner.walk_append, walk_up] at h
        exact .pair hsegment hinner (ih h)

instance : DecidablePred MatchesBefore := fun _ =>
  decidable_of_iff _ matchesBefore_iff_walk_eq_none.symm

/-- A walk that succeeds has gone down once for every ordinary segment, and up once for every
`..`. -/
theorem length_of_walk {stack segments last : List Text} (h : walk stack segments = some last) :
    last.length + segments.count ['.', '.'] =
      stack.length + segments.countP (IsOrdinary ·) := by
  induction segments generalizing stack with
  | nil =>
      obtain rfl : stack = last := by simpa [walk] using h
      rfl
  | cons segment rest ih =>
      rcases segment_cases segment with hstay | rfl | hordinary
      · rw [walk_stay hstay] at h
        have hdots : segment ≠ ['.', '.'] := by
          rcases hstay with rfl | rfl <;> decide
        have hlater := ih h
        rw [List.count_cons_of_ne hdots,
          List.countP_cons_of_neg (by simpa using not_isOrdinary_of_stay hstay)]
        exact hlater
      · cases stack with
        | nil => simp at h
        | cons top up =>
            rw [walk_up] at h
            have hlater := ih h
            rw [List.count_cons_self, List.countP_cons_of_neg (by decide), List.length_cons]
            omega
      · rw [hordinary.walk_cons] at h
        have hlater := ih h
        rw [List.length_cons] at hlater
        rw [List.count_cons_of_ne hordinary.2.2, List.countP_cons_of_pos (by simpa using hordinary)]
        omega

/-- Counting finds the `..` that have nothing to match. -/
theorem leavesRoot_iff_matchesBefore {segments : List Text} :
    LeavesRoot segments ↔ MatchesBefore segments := by
  constructor
  · rintro ⟨lead, ⟨rest, rfl⟩, hcount⟩
    rw [matchesBefore_iff_walk_eq_none, walk_append]
    cases hwalk : walk [] lead with
    | none => rfl
    | some last =>
        have hlength := length_of_walk hwalk
        rw [List.length_nil] at hlength
        omega
  · rintro ⟨inner, after, rfl, hinner⟩
    have hreturn : walk [] inner = some [] := by
      simpa [walk] using hinner.walk_append [] []
    have hlength := length_of_walk hreturn
    refine ⟨inner ++ [['.', '.']], ⟨after, by simp⟩, ?_⟩
    rw [List.count_append, List.countP_append, List.count_singleton_self,
      List.countP_singleton, if_neg (by decide)]
    omega

instance : DecidablePred LeavesRoot := fun _ =>
  decidable_of_iff _ leavesRoot_iff_matchesBefore.symm

/-! ## The segments that are left -/

/-- The ordinary segments that no later `..` matches, in order. -/
def uncancelled : List Text → List Text
  | [] => []
  | segment :: rest =>
    if IsOrdinary segment ∧ ¬ MatchesBefore rest then segment :: uncancelled rest
    else uncancelled rest

theorem uncancelled_cons_of_not {segment : Text} {rest : List Text}
    (h : ¬ (IsOrdinary segment ∧ ¬ MatchesBefore rest)) :
    uncancelled (segment :: rest) = uncancelled rest := by
  rw [uncancelled, if_neg h]

/-- Nothing is left of matched segments. -/
theorem Paired.uncancelled_append {segments : List Text} (h : Paired segments) (rest : List Text) :
    uncancelled (segments ++ rest) = uncancelled rest := by
  induction h generalizing rest with
  | nil => rfl
  | stay hstay _ ih =>
      have hsegment := not_isOrdinary_of_stay hstay
      rw [List.cons_append, uncancelled_cons_of_not (by simp [hsegment]), ih]
  | @pair segment inner after hsegment hinner _ ihinner ih =>
      have hmatches : MatchesBefore (inner ++ ['.', '.'] :: (after ++ rest)) :=
        ⟨inner, after ++ rest, rfl, hinner⟩
      rw [List.cons_append, List.append_assoc, List.cons_append,
        uncancelled_cons_of_not (by simp [hmatches]), ihinner,
        uncancelled_cons_of_not (by simp [IsOrdinary]), ih]

/-- A walk that stays below the root ends at the segments that are left. -/
theorem walk_eq_uncancelled {segments : List Text} (h : ¬ MatchesBefore segments) :
    walk [] segments = some (uncancelled segments).reverse := by
  induction segments using matchInduction with
  | nil => rfl
  | stay segment rest hstay ih =>
      have hsegment := not_isOrdinary_of_stay hstay
      rw [walk_stay hstay, uncancelled_cons_of_not (by simp [hsegment])]
      exact ih (mt (MatchesBefore.stay hstay) h)
  | dots rest => exact absurd (matchesBefore_dots rest) h
  | keep segment rest hsegment hmatches ih =>
      rw [hsegment.walk_cons, uncancelled, if_pos ⟨hsegment, hmatches⟩, List.reverse_cons]
      exact walk_append_stack (ih hmatches) [segment]
  | pair segment inner rest hsegment hinner ih =>
      have hpaired : Paired (segment :: (inner ++ ['.', '.'] :: [])) := .pair hsegment hinner .nil
      have hcancelled := hpaired.uncancelled_append rest
      rw [List.cons_append, List.append_assoc, List.singleton_append] at hcancelled
      rw [hsegment.walk_cons, hinner.walk_append, walk_up, hcancelled]
      exact ih (mt (MatchesBefore.pair hsegment hinner) h)

/-! ## Canonical forms -/

/-- An absolute path is read as the names below its drive that are not cancelled, unless it leads
above the root. -/
theorem ofText?_eq_uncancelled {path drive rest : Text} (h : Rooted path drive rest) :
    Location.ofText? path = if LeavesRoot (rest.splitOn '/') then none
      else some ⟨drive, uncancelled (rest.splitOn '/')⟩ := by
  rw [Location.ofText?, splitDrive?_eq_some.mpr h]
  dsimp only
  split
  next hleaves =>
    rw [matchesBefore_iff_walk_eq_none.mp (leavesRoot_iff_matchesBefore.mp hleaves),
      Option.map_none]
  next hstays =>
    rw [walk_eq_uncancelled (mt leavesRoot_iff_matchesBefore.mpr hstays), Option.map_some,
      List.reverse_reverse]

theorem ofText?_eq_none_iff {path : Text} :
    Location.ofText? path = none ↔ (¬ ∃ drive rest, Rooted path drive rest) ∨
      ∃ drive rest, Rooted path drive rest ∧ LeavesRoot (rest.splitOn '/') := by
  constructor
  · intro hnone
    by_cases habsolute : ∃ drive rest, Rooted path drive rest
    · obtain ⟨drive, rest, hrooted⟩ := habsolute
      rw [ofText?_eq_uncancelled hrooted, ite_eq_left_iff] at hnone
      refine .inr ⟨drive, rest, hrooted, ?_⟩
      by_contra hstays
      exact absurd (hnone hstays) (by simp)
    · exact .inl habsolute
  · rintro (hrelative | ⟨drive, rest, hrooted, hleaves⟩)
    · exact ofText?_eq_none_of_not_rooted hrelative
    · rw [ofText?_eq_uncancelled hrooted, if_pos hleaves]

/-- A path has no canonical form exactly if it is not absolute or some start of its segments holds
more `..` than ordinary segments.  Otherwise the canonical form is the drive and, below it, the
ordinary segments that no later `..` matches; it is its own canonical form. -/
theorem normalize_canonicalForm (path : Text) :
    (normalize path = none ↔ (¬ ∃ drive rest, Rooted path drive rest) ∨
        ∃ drive rest, Rooted path drive rest ∧ LeavesRoot (rest.splitOn '/')) ∧
      ∀ text, normalize path = some text →
        ∃ drive rest, Rooted path drive rest ∧
          text = drive ++ ("/" : Text) ++ Text.join "/" (uncancelled (rest.splitOn '/')) ∧
          (∀ name ∈ uncancelled (rest.splitOn '/'), IsName name) ∧
          normalize text = some text := by
  constructor
  · rw [normalize, Option.map_eq_none_iff, ofText?_eq_none_iff]
  · intro text htext
    obtain ⟨place, hplace, rfl⟩ := Option.map_eq_some_iff.mp htext
    have hcanonical := Location.canonical_of_ofText? hplace
    obtain ⟨rest, hrooted, -⟩ := ofText?_eq_some_iff_reaches.mp hplace
    rw [ofText?_eq_uncancelled hrooted] at hplace
    obtain ⟨-, hnames⟩ := Option.ite_none_left_eq_some.mp hplace
    have hleft : place.names = uncancelled (rest.splitOn '/') :=
      (congrArg Location.names (Option.some.inj hnames)).symm
    refine ⟨place.drive, rest, hrooted, ?_, ?_, ?_⟩
    · rw [Location.toText, hleft]
    · rw [← hleft]
      exact hcanonical.names
    · rw [normalize, Location.ofText?_toText hcanonical, Option.map_some]

/-- A path on a drive, with a `..` in pairs and one that a name only starts with. -/
theorem normalize_canonicalForm_on_drive :
    normalize "C://a/./b/c/../../d//../..e/f" = some "C:/a/..e/f".toList ∧
      ∃ drive rest, Rooted "C://a/./b/c/../../d//../..e/f" drive rest ∧
        "C:/a/..e/f".toList =
          drive ++ ("/" : Text) ++ Text.join "/" (uncancelled (rest.splitOn '/')) ∧
        (∀ name ∈ uncancelled (rest.splitOn '/'), IsName name) ∧
        normalize "C:/a/..e/f" = some "C:/a/..e/f".toList := by
  have hnormal : normalize "C://a/./b/c/../../d//../..e/f" = some "C:/a/..e/f".toList := by
    decide
  exact ⟨hnormal, (normalize_canonicalForm _).2 _ hnormal⟩

end RequireLint.Path
