import RequireLint.Proofs.Path.Canonical

/-!
# Containment of canonical paths

`Path.isWithin` compares texts.  On canonical texts it decides whether one place lies at or
below another: the drives agree and the names of the directory start the names of the path.  So on
normalized paths it is a partial order.
-/

namespace RequireLint

namespace Path

/-- What can follow a name in a path: nothing, or a separator. -/
def Opens (t : Text) : Prop := t = [] ∨ ∃ tail, t = '/' :: tail

theorem opens_below_append (names : List Text) {t : Text} (ht : Opens t) :
    Opens (below names ++ t) := by
  cases names with
  | nil => exact ht
  | cons name names => exact .inr ⟨_, rfl⟩

/-- A path lies in a directory when nothing or a separator follows the directory in it.  An empty
directory stands for the root. -/
theorem isWithin_iff_opens {path dir : Text} :
    isWithin path dir = true ↔
      if dir.dropEndWhile (· = '/') = [] then ['/'] <+: path
      else ∃ rest, path = dir.dropEndWhile (· = '/') ++ rest ∧ Opens rest := by
  rw [isWithin]
  generalize dir.dropEndWhile (· = '/') = stem
  by_cases hstem : stem = []
  · simp [hstem, Text.startsWith_iff]
  · simp only [hstem, List.isEmpty_iff, if_false]
    cases hdrop : Text.dropPrefix? stem path with
    | none =>
        rw [Text.dropPrefix?_eq_none] at hdrop
        simp only [Bool.false_eq_true, false_iff]
        rintro ⟨rest, hrest, -⟩
        exact hdrop ⟨rest, hrest.symm⟩
    | some rest =>
        rw [Text.dropPrefix?_eq_some] at hdrop
        rw [Bool.or_eq_true, List.isEmpty_iff, Text.startsWith_iff]
        constructor
        · rintro (hnil | ⟨tail, htail⟩)
          · exact ⟨rest, hdrop, .inl hnil⟩
          · exact ⟨rest, hdrop, .inr ⟨tail, htail.symm⟩⟩
        · rintro ⟨rest', hrest', hopens⟩
          obtain rfl : rest = rest' := List.append_cancel_left (hdrop.symm.trans hrest')
          exact hopens.imp_right fun ⟨tail, htail⟩ => ⟨tail, htail.symm⟩

/-- A name is joined to a directory by a slash, which the directory may already end with. -/
theorem exists_join_eq (dir : Text) : ∃ lead, ∀ t, join dir t = lead ++ '/' :: t := by
  by_cases hend : dir.endsWith "/" = true
  · obtain ⟨lead, hlead⟩ := Text.endsWith_iff.mp hend
    refine ⟨lead, ?_⟩
    intro t
    rw [join, if_pos hend, ← hlead]
    simp
  · refine ⟨dir, ?_⟩
    intro t
    rw [join, if_neg hend]
    simp

/-- A path lies in a directory with a name when nothing or a separator follows the directory in
it. -/
theorem isWithin_join_iff {name : Text} (hne : name ≠ []) (hslash : '/' ∉ name)
    (path dir : Text) :
    isWithin path (join dir name) = true ↔ ∃ rest, path = join dir name ++ rest ∧ Opens rest := by
  obtain ⟨lead, hjoin⟩ := exists_join_eq dir
  have hlast : name.getLast hne ≠ '/' := ne_of_mem_of_not_mem (List.getLast_mem hne) hslash
  have hsplit : lead ++ '/' :: name = lead ++ '/' :: name.dropLast ++ [name.getLast hne] := by
    rw [List.append_assoc, List.cons_append, List.dropLast_concat_getLast]
  have htrim : (lead ++ '/' :: name).dropEndWhile (· = '/') = lead ++ '/' :: name := by
    rw [hsplit]
    exact Text.dropEndWhile_concat (by simpa using hlast) _
  rw [isWithin_iff_opens, hjoin, htrim, if_neg (by simp)]

/-- A name ends where the separator comes. -/
theorem append_cancel_of_opens {name name' t t' : Text} (hname : '/' ∉ name)
    (hname' : '/' ∉ name') (ht : Opens t) (ht' : Opens t') (heq : name ++ t = name' ++ t') :
    name = name' ∧ t = t' := by
  have htake : ∀ {n u : Text}, '/' ∉ n → Opens u → (n ++ u).takeWhile (· ≠ '/') = n := by
    intro n u hn hu
    rw [List.takeWhile_append_of_pos (by simpa using fun c hc => ne_of_mem_of_not_mem hc hn)]
    rcases hu with rfl | ⟨tail, rfl⟩ <;> simp
  have hnames : name = name' := by
    rw [← htake hname ht, heq, htake hname' ht']
  subst hnames
  exact ⟨rfl, List.append_cancel_left heq⟩

theorem prefix_of_below_append {dir names : List Text} {t : Text}
    (hdir : ∀ name ∈ dir, IsName name) (hnames : ∀ name ∈ names, IsName name)
    (ht : Opens t) (heq : below dir ++ t = below names) :
    dir <+: names := by
  induction dir generalizing names with
  | nil => exact List.nil_prefix
  | cons name dir ih =>
      cases names with
      | nil => simp at heq
      | cons name' names =>
          rw [List.forall_mem_cons] at hdir hnames
          have hcut : name ++ (below dir ++ t) = name' ++ below names := by simpa using heq
          have hopens : Opens (below names) := by
            simpa using opens_below_append names (.inl rfl : Opens [])
          obtain ⟨rfl, htail⟩ := append_cancel_of_opens hdir.1.no_slash hnames.1.no_slash
            (opens_below_append dir ht) hopens hcut
          exact List.cons_prefix_cons.mpr ⟨rfl, ih hdir.2 hnames.2 htail⟩

end Path

namespace Location

open RequireLint.Path

/-- The canonical text of a place without the slash that stands alone for a root. -/
def stem (place : Location) : Text := place.drive ++ below place.names

theorem toText_eq_stem_append (place : Location) :
    place.toText = place.stem ++ if place.names = [] then ['/'] else [] := by
  rw [toText_eq, stem]
  by_cases hnames : place.names = [] <;> simp [hnames]

/-- A stem is empty, or ends in a character other than the separator. -/
theorem stem_eq_concat {place : Location} (hplace : place.Canonical) :
    place.stem = [] ∨ ∃ lead c, c ≠ '/' ∧ place.stem = lead ++ [c] := by
  have hend : ∀ {t : Text}, '/' ∉ t → ∀ lead, t ≠ [] →
      ∃ lead' c, c ≠ '/' ∧ lead ++ t = lead' ++ [c] := by
    intro t ht lead hne
    refine ⟨lead ++ t.dropLast, t.getLast hne, ?_, ?_⟩
    · exact ne_of_mem_of_not_mem (List.getLast_mem hne) ht
    · rw [List.append_assoc, List.dropLast_append_getLast]
  rcases List.eq_nil_or_concat place.names with hnil | ⟨names, name, hnames⟩
  · by_cases hdrive : place.drive = []
    · simp [stem, hnil, hdrive]
    · simpa [stem, hnil] using .inr (hend (isDrive_no_slash hplace.drive) [] hdrive)
  · have hname : IsName name := hplace.names name (by simp [hnames])
    have := hend hname.no_slash (place.drive ++ below names ++ ['/']) hname.ne_nil
    exact .inr (by simpa [stem, hnames] using this)

theorem dropEndWhile_toText {place : Location} (hplace : place.Canonical) :
    place.toText.dropEndWhile (· = '/') = place.stem := by
  rw [toText_eq_stem_append, Text.dropEndWhile_append_of_all (by split <;> simp)]
  rcases stem_eq_concat hplace with hnil | ⟨lead, c, hc, hstem⟩
  · rw [hnil]
    rfl
  · rw [hstem]
    exact Text.dropEndWhile_concat (by simpa using hc) lead

theorem endsWith_slash_toText {place : Location} (hplace : place.Canonical) :
    Text.endsWith place.toText "/" = true ↔ place.names = [] := by
  rw [Text.endsWith_iff, toText_eq_stem_append]
  by_cases hnames : place.names = []
  · simp [hnames]
  · simp only [hnames, if_false, List.append_nil, iff_false]
    rintro ⟨front, hfront⟩
    rcases stem_eq_concat hplace with hnil | ⟨lead, c, hc, hstem⟩
    · simp [hnil] at hfront
    · rw [hstem] at hfront
      exact hc (by simpa using (List.append_inj' hfront rfl).2.symm)

/-- Joining a name to a canonical text goes down to that name. -/
theorem join_toText {place : Location} (hplace : place.Canonical) (name : Text) :
    Path.join place.toText name = (⟨place.drive, place.names ++ [name]⟩ : Location).toText := by
  have hends := endsWith_slash_toText hplace
  by_cases hnames : place.names = []
  · rw [Path.join, if_pos (hends.mpr hnames), toText_eq, toText_eq]
    simp [hnames]
  · rw [Path.join, if_neg (mt hends.mp hnames), toText_eq, toText_eq]
    simp [hnames]

theorem isWithin_iff_stem {place dir : Location} (hdir : dir.Canonical) :
    Path.isWithin place.toText dir.toText = true ↔
      if dir.stem = [] then ['/'] <+: place.toText
      else ∃ rest, place.toText = dir.stem ++ rest ∧ Opens rest := by
  rw [Path.isWithin_iff_opens, dropEndWhile_toText hdir]

/-- A place lies in a directory when it is on the same drive and its names start with those
of the directory. -/
def LiesIn (place dir : Location) : Prop :=
  place.drive = dir.drive ∧ dir.names <+: place.names

theorem isWithin_iff {place dir : Location} :
    place.isWithin dir = true ↔ place.LiesIn dir := by
  simp [isWithin, LiesIn]

namespace LiesIn

theorem refl (place : Location) : place.LiesIn place := ⟨rfl, List.prefix_rfl⟩

theorem trans {place dir outer : Location} (h : place.LiesIn dir) (h' : dir.LiesIn outer) :
    place.LiesIn outer :=
  ⟨h.1.trans h'.1, h'.2.trans h.2⟩

/-- Two places that lie in each other are one place. -/
theorem antisymm {place dir : Location} (h : place.LiesIn dir) (h' : dir.LiesIn place) :
    place = dir := by
  obtain ⟨drive, names⟩ := place
  obtain ⟨drive', names'⟩ := dir
  have hdrive : drive = drive' := h.1
  have hnames : names = names' := h'.2.eq_of_length_le h.2.length_le
  rw [hdrive, hnames]

end LiesIn

/-- On canonical texts, containment is decided drive by drive and name by name. -/
theorem isWithin_toText {place dir : Location} (hplace : place.Canonical)
    (hdir : dir.Canonical) :
    Path.isWithin place.toText dir.toText = place.isWithin dir := by
  rw [Bool.eq_iff_iff, isWithin_iff, LiesIn, isWithin_iff_stem hdir, toText_eq]
  by_cases hstem : dir.stem = []
  · obtain ⟨hdrive, hnames⟩ := List.append_eq_nil_iff.mp hstem
    have hroot : dir.names = [] := by
      cases hcons : dir.names <;> simp_all
    rw [if_pos hstem, hdrive, hroot]
    rcases hplace.drive with hnil | ⟨letter, hletter, hdrive'⟩
    · cases hcons : place.names <;> simp [hnil]
    · have hne : letter ≠ '/' := by
        rintro rfl
        exact absurd hletter (by decide)
      simp [hdrive', Ne.symm hne]
  rw [if_neg hstem]
  constructor
  · rintro ⟨rest, htext, hrest⟩
    rw [stem, List.append_assoc] at htext
    have hopens : Opens (if place.names = [] then ['/'] else below place.names) := by
      split
      · exact .inr ⟨[], rfl⟩
      · simpa using opens_below_append place.names (.inl rfl : Opens [])
    obtain ⟨hdrive, hbelow⟩ := append_cancel_of_opens (isDrive_no_slash hplace.drive)
      (isDrive_no_slash hdir.drive) hopens (opens_below_append dir.names hrest) htext
    refine ⟨hdrive, ?_⟩
    by_cases hnames : place.names = []
    · rw [if_pos hnames] at hbelow
      cases hcons : dir.names with
      | nil => exact List.nil_prefix
      | cons name names =>
          have hname : IsName name := hdir.names name (by simp [hcons])
          rw [hcons, below_cons] at hbelow
          exact absurd hbelow (by simp [hname.ne_nil])
    · rw [if_neg hnames] at hbelow
      exact prefix_of_below_append hdir.names hplace.names hrest hbelow.symm
  · rintro ⟨hdrive, more, hmore⟩
    by_cases hnames : place.names = []
    · have hroot : dir.names = [] := by
        rw [hnames, List.append_eq_nil_iff] at hmore
        exact hmore.1
      exact ⟨['/'], by simp [stem, hdrive, hnames, hroot], .inr ⟨[], rfl⟩⟩
    · refine ⟨below more, ?_, by simpa using opens_below_append more (.inl rfl : Opens [])⟩
      rw [if_neg hnames, ← hmore]
      simp [stem, hdrive]

end Location

namespace Path

/-! ## The order of normalized paths -/

/-- A path in the form that normalization gives it. -/
structure Normalized where
  /-- The path as it is written. -/
  text : Text
  /-- It is the normal form of some path. -/
  isNormal : ∃ source, normalize source = some text

namespace Normalized

/-- The drive and the names that can be read off a normalized path. -/
def place (path : Normalized) : Location := .ofCanonical path.text

theorem canonical_place (path : Normalized) : path.place.Canonical := by
  obtain ⟨source, hsource⟩ := path.isNormal
  exact (normalize_eq_some hsource).2.1

theorem toText_place (path : Normalized) : path.place.toText = path.text := by
  obtain ⟨source, hsource⟩ := path.isNormal
  exact (normalize_eq_some hsource).2.2

theorem eq_of_place_eq {path path' : Normalized} (h : path.place = path'.place) :
    path = path' := by
  have htext : path.text = path'.text := by
    rw [← toText_place path, ← toText_place path', h]
  obtain ⟨text, hnormal⟩ := path
  obtain ⟨text', hnormal'⟩ := path'
  subst htext
  rfl

theorem isWithin_iff_liesIn (path dir : Normalized) :
    isWithin path.text dir.text = true ↔ path.place.LiesIn dir.place := by
  rw [← toText_place path, ← toText_place dir,
    Location.isWithin_toText path.canonical_place dir.canonical_place, Location.isWithin_iff]

end Normalized

/-- A normalized path lies in a normalized directory exactly if it is on the same drive and its
names start with those of the directory.  Hence containment is a partial order on normalized
paths. -/
theorem isWithin_normalized :
    (∀ path dir : Normalized, isWithin path.text dir.text = true ↔
      path.place.drive = dir.place.drive ∧ dir.place.names <+: path.place.names) ∧
      IsPartialOrder Normalized fun path dir => isWithin path.text dir.text = true := by
  refine ⟨fun path dir => path.isWithin_iff_liesIn dir, ?_⟩
  simp only [Normalized.isWithin_iff_liesIn]
  exact
    { refl := fun path => .refl path.place
      trans := fun _ _ _ h h' => h.trans h'
      antisymm := fun _ _ h h' => Normalized.eq_of_place_eq (h.antisymm h') }

/-- A sibling whose name only starts with the name of a directory lies outside it.  It lies in the
root of its drive, which is not the root without a drive. -/
theorem isWithin_normalized_sibling :
    let sibling : Normalized := ⟨"C:/p/liberty", "C:/p/lib/../liberty", by decide⟩
    let lib : Normalized := ⟨"C:/p/lib", "C:/p/./lib/", by decide⟩
    let drive : Normalized := ⟨"C:/", "C:/p/..", by decide⟩
    let root : Normalized := ⟨"/", "//", by decide⟩
    isWithin sibling.text drive.text = true ∧ isWithin sibling.text lib.text = false ∧
      isWithin sibling.text root.text = false := by
  intro sibling lib drive root
  have hcontainment := isWithin_normalized.1 sibling
  refine ⟨(hcontainment drive).mpr (by decide), ?_, ?_⟩
  · exact Bool.eq_false_iff.mpr (mt (hcontainment lib).mp (by decide))
  · exact Bool.eq_false_iff.mpr (mt (hcontainment root).mp (by decide))

end Path

end RequireLint
