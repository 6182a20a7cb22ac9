import RequireLint.Proofs.File.Place
import RequireLint.Proofs.Path.Containment

/-!
# The order of paths

Paths are compared component by component.  Two paths that start in the same way and go on with
names are ordered as the lists of their names, so a sorted list of places is a sorted list of
paths, whether these are absolute or all seen from one directory.
-/

namespace RequireLint

namespace Component

theorem leList_append (lead a b : List Component) :
    leList (lead ++ a) (lead ++ b) = leList a b := by
  induction lead with
  | nil => rfl
  | cons step lead ih => simp [leList, ih]

theorem leList_map_name (p q : Place) : leList (p.map name) (q.map name) = Place.le p q := by
  induction p generalizing q with
  | nil => simp [leList, Place.le]
  | cons a p ih =>
      cases q with
      | nil => simp [leList, Place.le]
      | cons b q => simp [leList, Place.le, le, ih]

theorem filterMap_ofSegment?_names {names : List Text} (hnames : ∀ name ∈ names, Path.IsName name) :
    names.filterMap ofSegment? = names.map name := by
  rw [← List.filterMap_eq_map]
  apply List.filterMap_congr
  intro segment hsegment
  have hname := hnames segment hsegment
  simp [ofSegment?, hname.ne_nil, hname.ne_dot, hname.ne_dots]

end Component

namespace Path

/-- What a path starts with, up to a slash, gives the same components whatever follows. -/
theorem components_append_slash (lead t : Text) :
    components (lead ++ '/' :: t) =
      components (lead ++ ['/']) ++ (t.splitOn '/').filterMap Component.ofSegment? := by
  have hstart : (lead ++ '/' :: t).startsWith "/" = (lead ++ ['/']).startsWith "/" := by
    cases lead with
    | nil => simp [Text.startsWith, Text.dropPrefix?]
    | cons c lead =>
        simp only [Text.startsWith, List.cons_append]
        by_cases hc : c = '/'
        · simp [Text.dropPrefix?, hc]
        · simp [Text.dropPrefix?, Ne.symm hc]
  have hfirst : firstComponent? (lead ++ '/' :: t) = firstComponent? (lead ++ ['/']) := by
    funext segment
    rw [firstComponent?, firstComponent?, hstart]
  rw [components, components, List.splitOn_append_cons_self, List.splitOn_append_cons_self]
  cases hsplit : lead.splitOn '/' with
  | nil => exact absurd hsplit (List.splitOn_ne_nil _ _)
  | cons first rest => simp [hfirst, Component.ofSegment?]

theorem components_append_names (lead : Text) {names : Place}
    (hnames : ∀ name ∈ names, IsName name) :
    components (lead ++ '/' :: Text.join "/" names) =
      components (lead ++ ['/']) ++ names.map .name := by
  rw [components_append_slash]
  by_cases hnil : names = []
  · subst hnil
    simp [Text.join, Component.ofSegment?]
  · rw [Location.splitOn_join hnil hnames, Component.filterMap_ofSegment?_names hnames]

/-- One path comes before another one in the order of their components. -/
def Lt (a b : Text) : Prop := le a b = true ∧ le b a = false

/-- Below one directory, paths are ordered by their names. -/
theorem lt_append_names_iff (lead : Text) {p q : Place} (hp : ∀ name ∈ p, IsName name)
    (hq : ∀ name ∈ q, IsName name) :
    Lt (lead ++ '/' :: Text.join "/" p) (lead ++ '/' :: Text.join "/" q) ↔ p < q := by
  have hle : ∀ p' q' : Place, (∀ name ∈ p', IsName name) → (∀ name ∈ q', IsName name) →
      le (lead ++ '/' :: Text.join "/" p') (lead ++ '/' :: Text.join "/" q') =
        Place.le p' q' := by
    intro p' q' hp' hq'
    rw [le, components_append_names lead hp', components_append_names lead hq',
      Component.leList_append, Component.leList_map_name]
  rw [Lt, hle p q hp hq, hle q p hq hp, ← Bool.not_eq_true, Place.le_iff, Place.le_iff,
    lt_iff_le_not_ge]

/-- The absolute paths of places are ordered as the places. -/
theorem lt_toText_iff {p q : Place} (hp : ∀ name ∈ p, IsName name)
    (hq : ∀ name ∈ q, IsName name) : Lt p.toText q.toText ↔ p < q :=
  lt_append_names_iff [] hp hq

end Path

end RequireLint
