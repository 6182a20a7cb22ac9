import RequireLint.Proofs.Path.Expansion

/-!
# Relative paths in two steps

A relative path that goes on behind another one can be followed at once, or in two steps: the first
path from the base, and the second one from where the first one leads.  Both ways lead to the same
place.  Where the first path has no place to lead to, the whole path has none either, whatever the
second one says.
-/

namespace RequireLint

open RequireLint.Path

namespace Location

/-- What is written behind a path is read by walking on from where the path leads. -/
theorem ofText?_append_slash (lead first second : Text) :
    ofText? (lead ++ '/' :: (first ++ '/' :: second)) =
      (ofText? (lead ++ '/' :: first)).bind fun place =>
        (walk place.names.reverse (second.splitOn '/')).map fun stack =>
          ⟨place.drive, stack.reverse⟩ := by
  by_cases habsolute : ∃ drive rest, Rooted (lead ++ '/' :: first) drive rest
  · obtain ⟨drive, rest, hfirst⟩ := habsolute
    obtain ⟨rest', hwhole⟩ := exists_rooted_append hfirst (first ++ '/' :: second)
    have hassoc : lead ++ '/' :: (first ++ '/' :: second) =
        (lead ++ '/' :: first) ++ '/' :: second := by simp
    rw [hassoc] at hwhole ⊢
    rw [ofText?_eq_map_walk hwhole, tail_splitOn_append, walk_append, ofText?_eq_map_walk hfirst]
    cases walk [] ((lead ++ '/' :: first).splitOn '/').tail with
    | none => rfl
    | some stack => simp
  · have hwhole : ¬ ∃ drive rest, Rooted (lead ++ '/' :: (first ++ '/' :: second)) drive rest := by
      rintro ⟨drive, rest, hrooted⟩
      obtain ⟨rest', hfirst⟩ := exists_rooted_append hrooted first
      exact habsolute ⟨drive, rest', hfirst⟩
    rw [ofText?_eq_none_of_not_rooted habsolute, ofText?_eq_none_of_not_rooted hwhole,
      Option.bind_none]

end Location

namespace Path

/-- A path that starts with an absolute one is absolute. -/
theorem isAbsolute_append {path : Text} (h : isAbsolute path = true) (rest : Text) :
    isAbsolute (path ++ rest) = true := by
  obtain ⟨drive, below, hdrive, rfl, tail, rfl⟩ := isAbsolute_iff.mp h
  exact isAbsolute_iff.mpr ⟨drive, '/' :: tail ++ rest, hdrive, by simp, tail ++ rest, rfl⟩

/-- A path of two parts leads where its second part leads from the place of the first one, and it
leads nowhere if the first part does. -/
theorem expand_append_slash {first second : Text} (hsecond : isAbsolute second = false)
    (hwhole : isAbsolute (first ++ ("/" : Text) ++ second) = false) (base : Text) :
    expand (first ++ ("/" : Text) ++ second) base =
      (expand first base).bind fun place => expand second place := by
  have hfirst : isAbsolute first = false := by
    rw [← Bool.not_eq_true]
    intro habsolute
    rw [isAbsolute_append (isAbsolute_append habsolute _)] at hwhole
    exact absurd hwhole (by decide)
  have hsplit : base ++ ("/" : Text) ++ (first ++ ("/" : Text) ++ second) =
      base ++ '/' :: (first ++ '/' :: second) := by simp
  have hlead : base ++ ("/" : Text) ++ first = base ++ '/' :: first := by simp
  rw [expand, if_neg (Bool.eq_false_iff.mp hwhole), expand, if_neg (Bool.eq_false_iff.mp hfirst),
    normalize, normalize, hsplit, hlead, Location.ofText?_append_slash]
  cases hplace : Location.ofText? (base ++ '/' :: first) with
  | none => rfl
  | some place =>
      have hcanonical := Location.canonical_of_ofText? hplace
      rw [Option.bind_some, Option.map_some, Option.bind_some, expand,
        if_neg (Bool.eq_false_iff.mp hsecond), normalize,
        Location.ofText?_of_leads hcanonical (.inl rfl)]

/-- The first part comes back to the base, a directory on a drive, and the second one leaves it. -/
theorem expand_append_slash_on_drive :
    let first : Text := "x/./.."
    let second : Text := "..//lib/a"
    isAbsolute second = false ∧ isAbsolute (first ++ ("/" : Text) ++ second) = false ∧
      expand first "C:/p/spec" = some "C:/p/spec".toList ∧
      (expand first "C:/p/spec").bind (fun place => expand second place) =
        some "C:/p/lib/a".toList := by
  intro first second
  have hsecond : isAbsolute second = false := by decide
  have hwhole : isAbsolute (first ++ ("/" : Text) ++ second) = false := by decide
  refine ⟨hsecond, hwhole, by decide, ?_⟩
  rw [← expand_append_slash hsecond hwhole]
  decide

end Path

end RequireLint
