import RequireLint.Proofs.Path.Expansion
import RequireLint.Proofs.Text.Returns

/-!
# Paths with carriage returns

A name on a path may hold a line end.  Without the carriage returns before line feeds a path has the
same form, and it leads to the same place up to those carriage returns.  A directory whose path has
no line feed therefore holds the one place as it holds the other.
-/

namespace RequireLint

open Text (dropReturns dropReturns_of_no_feed dropReturns_append_cons dropReturns_eq_iff
  exists_of_dropReturns_eq_append)

namespace Path

/-! ## Roots -/

theorem isDrive_no_feed {drive : Text} (hdrive : IsDrive drive) : '\n' ∉ drive := by
  rcases hdrive with rfl | ⟨letter, hletter, rfl⟩
  · simp
  · intro hmem
    obtain rfl : letter = '\n' := by simpa [eq_comm] using hmem
    exact absurd hletter (by decide)

theorem Rooted.dropReturns {path drive rest : Text} (h : Rooted path drive rest) :
    Rooted (Text.dropReturns path) drive (Text.dropReturns rest) := by
  obtain ⟨hdrive, rfl, tail, rfl⟩ := h
  have hrest : ∀ t u : Text, Text.dropReturns (t ++ '/' :: u) =
      Text.dropReturns t ++ '/' :: Text.dropReturns u :=
    dropReturns_append_cons (by decide) (by decide)
  refine ⟨hdrive, ?_, Text.dropReturns tail, hrest [] tail⟩
  rw [hrest drive tail, dropReturns_of_no_feed (isDrive_no_feed hdrive)]
  exact congrArg (drive ++ ·) (hrest [] tail).symm

theorem exists_rooted_of_dropReturns {path drive rest : Text}
    (h : Rooted (dropReturns path) drive rest) : ∃ rest', Rooted path drive rest' := by
  obtain ⟨hdrive, hpath, tail, rfl⟩ := h
  obtain ⟨tail', rfl, -⟩ :=
    exists_of_dropReturns_eq_append (by decide) (isDrive_no_feed hdrive) hpath
  exact ⟨'/' :: tail', hdrive, rfl, tail', rfl⟩

theorem splitDrive?_dropReturns (path : Text) :
    splitDrive? (dropReturns path) =
      (splitDrive? path).map fun (drive, rest) => (drive, dropReturns rest) := by
  cases hsplit : splitDrive? path with
  | some parts =>
      obtain ⟨drive, rest⟩ := parts
      have hrooted : Rooted path drive rest := splitDrive?_eq_some.mp hsplit
      exact splitDrive?_eq_some.mpr hrooted.dropReturns
  | none =>
      rw [Option.map_none, Option.eq_none_iff_forall_not_mem]
      rintro ⟨drive, rest⟩ hmem
      obtain ⟨rest', hrooted⟩ := exists_rooted_of_dropReturns (splitDrive?_eq_some.mp hmem)
      rw [splitDrive?_eq_some.mpr hrooted] at hsplit
      simp at hsplit

theorem isAbsolute_dropReturns (path : Text) : isAbsolute (dropReturns path) = isAbsolute path := by
  rw [isAbsolute, splitDrive?_dropReturns, Option.isSome_map, isAbsolute]

/-! ## Walks -/

/-- Segments go where they go without carriage returns before line feeds. -/
theorem walk_dropReturns (stack segments : List Text) :
    walk (stack.map dropReturns) (segments.map dropReturns) =
      (walk stack segments).map (·.map dropReturns) := by
  induction segments generalizing stack with
  | nil => simp [walk]
  | cons segment rest ih =>
      have hdot : dropReturns segment = ['.'] ↔ segment = ['.'] := dropReturns_eq_iff (by decide)
      have hdots : dropReturns segment = ['.', '.'] ↔ segment = ['.', '.'] :=
        dropReturns_eq_iff (by decide)
      rw [List.map_cons]
      by_cases hstay : segment = [] ∨ segment = ['.']
      · rw [walk_stay hstay, walk_stay (by rwa [Text.dropReturns_eq_nil, hdot]), ih]
      by_cases hup : segment = ['.', '.']
      · rw [hdots.mpr hup, hup]
        cases stack with
        | nil => simp
        | cons top up => rw [List.map_cons, walk_up, walk_up, ih]
      · rw [walk_down hstay hup, ← ih, List.map_cons]
        exact walk_down (by rwa [Text.dropReturns_eq_nil, hdot]) (by rwa [ne_eq, hdots]) _ _

end Path

namespace Location

open RequireLint.Path

/-- A place without the carriage returns before line feeds in its names. -/
def dropReturns (place : Location) : Location := ⟨place.drive, place.names.map Text.dropReturns⟩

theorem ofText?_dropReturns (path : Text) :
    ofText? (Text.dropReturns path) = (ofText? path).map dropReturns := by
  rw [ofText?, splitDrive?_dropReturns, ofText?]
  cases splitDrive? path with
  | none => rfl
  | some parts =>
      obtain ⟨drive, rest⟩ := parts
      have hwalk := walk_dropReturns [] (rest.splitOn '/')
      rw [List.map_nil, ← Text.splitOn_dropReturns (by decide) (by decide)] at hwalk
      simp only [Option.map_some, hwalk, Option.map_map]
      congr 1
      funext stack
      simp [dropReturns]

theorem join_dropReturns (names : List Text) :
    Text.join "/" (names.map Text.dropReturns) = Text.dropReturns (Text.join "/" names) := by
  induction names with
  | nil => rfl
  | cons name names ih =>
      cases names with
      | nil => simp [Text.join]
      | cons next names =>
          have hjoin : ∀ a b rest, Text.join "/" (a :: b :: rest) =
              a ++ '/' :: Text.join "/" (b :: rest) := by
            intro a b rest
            simp [Text.join]
          rw [List.map_cons, List.map_cons, hjoin, hjoin, ← List.map_cons, ih,
            dropReturns_append_cons (by decide) (by decide)]

theorem toText_dropReturns {place : Location} (hdrive : IsDrive place.drive) :
    place.dropReturns.toText = Text.dropReturns place.toText := by
  have htext : ∀ place : Location,
      place.toText = place.drive ++ '/' :: Text.join "/" place.names := by
    intro place
    simp [toText]
  rw [htext, htext, dropReturns_append_cons (by decide) (by decide),
    dropReturns_of_no_feed (isDrive_no_feed hdrive), ← join_dropReturns]
  rfl

end Location

namespace Path

theorem normalize_dropReturns (path : Text) :
    normalize (dropReturns path) = (normalize path).map dropReturns := by
  rw [normalize, Location.ofText?_dropReturns, normalize, Option.map_map, Option.map_map]
  cases hplace : Location.ofText? path with
  | none => rfl
  | some place =>
      have hcanonical := Location.canonical_of_ofText? hplace
      exact congrArg some (Location.toText_dropReturns hcanonical.drive)

theorem expand_dropReturns (path base : Text) :
    expand (dropReturns path) (dropReturns base) = (expand path base).map dropReturns := by
  rw [expand, isAbsolute_dropReturns, expand]
  split
  · exact normalize_dropReturns path
  · have hbelow : ∀ base path : Text, base ++ ("/" : Text) ++ path = base ++ '/' :: path := by
      intro base path
      simp
    rw [hbelow, hbelow, ← normalize_dropReturns, dropReturns_append_cons (by decide) (by decide)]

/-! ## Containment -/

theorem isWithin_dropReturns {dir : Text} (hdir : '\n' ∉ dir) (path : Text) :
    isWithin (dropReturns path) dir = isWithin path dir := by
  obtain ⟨dropped, hstem, -⟩ := Text.dropEndWhile_append_dropped (· = '/') dir
  have hfree : '\n' ∉ dir.dropEndWhile (· = '/') := by
    intro hmem
    rw [hstem] at hdir
    exact hdir (List.mem_append_left _ hmem)
  rw [Bool.eq_iff_iff, isWithin_iff_opens, isWithin_iff_opens]
  generalize dir.dropEndWhile (· = '/') = stem at hfree
  split
  · rw [← Text.startsWith_iff, ← Text.startsWith_iff, Text.startsWith_dropReturns (by decide)]
  constructor
  · rintro ⟨rest, hrest, rfl | ⟨tail, rfl⟩⟩
    · rw [List.append_nil, dropReturns_eq_iff hfree] at hrest
      exact ⟨[], by rw [hrest, List.append_nil], .inl rfl⟩
    · obtain ⟨tail', hpath, -⟩ := exists_of_dropReturns_eq_append (by decide) hfree hrest
      exact ⟨'/' :: tail', hpath, .inr ⟨tail', rfl⟩⟩
  · rintro ⟨rest, rfl, rfl | ⟨tail, rfl⟩⟩
    · exact ⟨[], by rw [List.append_nil, dropReturns_of_no_feed hfree], .inl rfl⟩
    · refine ⟨'/' :: dropReturns tail, ?_, .inr ⟨_, rfl⟩⟩
      rw [dropReturns_append_cons (by decide) (by decide), dropReturns_of_no_feed hfree]

/-- A canonical path is written in the characters of the path, and slashes. -/
theorem mem_of_normalize {path text : Text} (h : normalize path = some text) {c : Char}
    (hc : c ∈ text) : c = '/' ∨ c ∈ path := by
  obtain ⟨place, hplace, rfl⟩ := Option.map_eq_some_iff.mp h
  obtain ⟨tail, stack, -, rfl, hwalk, hnames⟩ := Location.ofText?_eq_some hplace
  have hbelow : ∀ name ∈ place.names, ∀ d ∈ name, d ∈ '/' :: tail := by
    intro name hname d hd
    rw [← below_splitOn, below, List.mem_flatMap]
    have hsegment : name ∈ tail.splitOn '/' := by
      rw [hnames, List.mem_reverse] at hname
      exact forall_of_walk hwalk (by simp) (fun segment hsegment _ _ _ => hsegment) name hname
    exact ⟨name, hsegment, List.mem_cons_of_mem _ hd⟩
  rw [Location.toText_eq, List.mem_append] at hc
  rcases hc with hdrive | hc
  · exact .inr (List.mem_append_left _ hdrive)
  split at hc
  · exact .inl (List.mem_singleton.mp hc)
  · obtain ⟨name, hname, hmem⟩ := List.mem_flatMap.mp hc
    rcases List.mem_cons.mp hmem with rfl | hmem
    · exact .inl rfl
    · exact .inr (List.mem_append_right _ (hbelow name hname c hmem))

end Path

end RequireLint
