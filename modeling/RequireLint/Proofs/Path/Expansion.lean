import RequireLint.Proofs.Path.Containment

/-!
# Expanding relative paths

A relative path is run segment by segment from the names of a base: `Path.Reaches` says where
such a run ends.  Normalization and expansion, which work on texts, end at the same place.
-/

namespace RequireLint

namespace Path

/-- Running `segments` from the names `start`, root first, ends at the names `finish`: empty
segments and `.` stay, `..` leaves the last name, any other segment is a further name.  No run
leaves the root upwards. -/
inductive Reaches : (start segments finish : List Text) → Prop
  /-- The run is over. -/
  | done (names : List Text) : Reaches names [] names
  /-- An empty segment or `.` stays. -/
  | stay {segment : Text} {start rest finish : List Text} :
      segment = [] ∨ segment = ['.'] → Reaches start rest finish →
        Reaches start (segment :: rest) finish
  /-- The segment `..` leaves the last name. -/
  | up {name : Text} {start rest finish : List Text} :
      Reaches start rest finish → Reaches (start ++ [name]) (['.', '.'] :: rest) finish
  /-- Any other segment is a further name. -/
  | down {segment : Text} {start rest finish : List Text} :
      segment ≠ [] → segment ≠ ['.'] → segment ≠ ['.', '.'] →
        Reaches (start ++ [segment]) rest finish → Reaches start (segment :: rest) finish

theorem reaches_of_walk {stack segments last : List Text}
    (hwalk : walk stack segments = some last) :
    Reaches stack.reverse segments last.reverse := by
  induction segments generalizing stack with
  | nil =>
      obtain rfl : stack = last := by simpa [walk] using hwalk
      exact .done _
  | cons segment rest ih =>
      by_cases hstay : segment = [] ∨ segment = ['.']
      · rw [walk_stay hstay] at hwalk
        exact .stay hstay (ih hwalk)
      by_cases hup : segment = ['.', '.']
      · subst hup
        cases stack with
        | nil => simp at hwalk
        | cons top up =>
            rw [walk_up] at hwalk
            simpa using Reaches.up (ih hwalk)
      · rw [walk_down hstay hup] at hwalk
        push Not at hstay
        exact .down hstay.1 hstay.2 hup (by simpa using ih hwalk)

theorem walk_of_reaches {start segments finish : List Text}
    (hreaches : Reaches start segments finish) :
    walk start.reverse segments = some finish.reverse := by
  induction hreaches with
  | done names => simp [walk]
  | stay hstay _ ih => rw [walk_stay hstay, ih]
  | up _ ih => simpa using ih
  | down hnil hdot hdots _ ih =>
      rw [walk_down (by simp [hnil, hdot]) hdots]
      simpa using ih

/-- An absolute path: a drive, and what is written below it from its first slash on. -/
def Rooted (path drive rest : Text) : Prop :=
  IsDrive drive ∧ path = drive ++ rest ∧ ∃ tail, rest = '/' :: tail

theorem isAbsolute_iff {path : Text} :
    isAbsolute path = true ↔ ∃ drive rest, Rooted path drive rest := by
  rw [isAbsolute, Option.isSome_iff_exists]
  constructor
  · rintro ⟨⟨drive, rest⟩, h⟩
    exact ⟨drive, rest, splitDrive?_eq_some.mp h⟩
  · rintro ⟨drive, rest, h⟩
    exact ⟨(drive, rest), splitDrive?_eq_some.mpr h⟩

theorem rooted_unique {path drive drive' rest rest' : Text} (h : Rooted path drive rest)
    (h' : Rooted path drive' rest') : drive = drive' ∧ rest = rest' := by
  have hsplit := splitDrive?_eq_some.mpr h
  rw [splitDrive?_eq_some.mpr h'] at hsplit
  simpa [eq_comm] using hsplit

theorem not_rooted_dot (suffix drive rest : Text) : ¬ Rooted ('.' :: suffix) drive rest := by
  rintro ⟨rfl | ⟨letter, hletter, rfl⟩, hpath, tail, rfl⟩
  · simp at hpath
  · obtain ⟨rfl, -⟩ := List.cons.inj hpath
    exact absurd hletter (by decide)

theorem expand_of_not_rooted {path : Text} (h : ∀ drive rest, ¬ Rooted path drive rest)
    (base : Text) : expand path base = normalize (base ++ ("/" : Text) ++ path) := by
  have habsolute : ¬ isAbsolute path = true := by
    rw [isAbsolute_iff]
    rintro ⟨drive, rest, hrooted⟩
    exact h drive rest hrooted
  rw [expand, if_neg habsolute]

theorem ofText?_eq_some_iff_reaches {path : Text} {place : Location} :
    Location.ofText? path = some place ↔
      ∃ rest, Rooted path place.drive rest ∧ Reaches [] (rest.splitOn '/') place.names := by
  constructor
  · intro h
    cases hsplit : splitDrive? path with
    | none => simp [Location.ofText?, hsplit] at h
    | some parts =>
        obtain ⟨drive, rest⟩ := parts
        rw [Location.ofText?, hsplit] at h
        obtain ⟨stack, hwalk, rfl⟩ := Option.map_eq_some_iff.mp h
        exact ⟨rest, splitDrive?_eq_some.mp hsplit, by simpa using reaches_of_walk hwalk⟩
  · rintro ⟨rest, hrooted, hreaches⟩
    have hwalk := walk_of_reaches hreaches
    rw [List.reverse_nil] at hwalk
    simp [Location.ofText?, splitDrive?_eq_some.mpr hrooted, hwalk]

theorem ofText?_eq_none_of_not_rooted {path : Text}
    (h : ¬ ∃ drive rest, Rooted path drive rest) : Location.ofText? path = none := by
  rw [Option.eq_none_iff_forall_ne_some]
  intro place hplace
  obtain ⟨rest, hrooted, -⟩ := ofText?_eq_some_iff_reaches.mp hplace
  exact h ⟨place.drive, rest, hrooted⟩

theorem ofText?_rooted_iff {path drive rest : Text} (h : Rooted path drive rest)
    {place : Location} :
    Location.ofText? path = some place ↔
      place.drive = drive ∧ Reaches [] (rest.splitOn '/') place.names := by
  rw [ofText?_eq_some_iff_reaches]
  constructor
  · rintro ⟨rest', hrooted, hreaches⟩
    obtain ⟨hdrive, rfl⟩ := rooted_unique hrooted h
    exact ⟨hdrive, hreaches⟩
  · rintro ⟨rfl, hreaches⟩
    exact ⟨rest, h, hreaches⟩

/-- The directory of a path is what precedes its last slash, or the root. -/
theorem dirname_append {name : Text} (hname : '/' ∉ name) (lead : Text) :
    dirname (lead ++ '/' :: name) = if lead = [] then ['/'] else lead := by
  rw [dirname, Text.beforeLast?_append hname]
  cases lead <;> rfl

end Path

namespace Location

open RequireLint.Path

/-- The segments of an absolute path follow its drive. -/
theorem ofText?_eq_map_walk {text drive rest : Text} (h : Rooted text drive rest) :
    ofText? text =
      (walk [] (text.splitOn '/').tail).map fun stack => ⟨drive, stack.reverse⟩ := by
  obtain ⟨hdrive, rfl, tail, rfl⟩ := h
  rw [ofText?_rooted hdrive,
    List.splitOn_append_cons_self_of_not_mem (isDrive_no_slash hdrive), List.tail_cons]

/-- What follows the last slash of an absolute path makes no difference to its drive. -/
theorem exists_rooted_append {lead name drive rest : Text}
    (h : Rooted (lead ++ '/' :: name) drive rest) (name' : Text) :
    ∃ rest', Rooted (lead ++ '/' :: name') drive rest' := by
  obtain ⟨hdrive, hsplit, tail, rfl⟩ := h
  rcases List.append_eq_append_iff.mp hsplit with ⟨more, rfl, hmore⟩ | ⟨more, rfl, hmore⟩
  · cases more with
    | nil => exact ⟨'/' :: name', by simpa using hdrive, by simp, name', rfl⟩
    | cons c more =>
        obtain ⟨rfl, -⟩ := List.cons.inj hmore
        exact absurd (by simp) (isDrive_no_slash hdrive)
  · cases more with
    | nil => exact ⟨'/' :: name', hdrive, by simp, name', rfl⟩
    | cons c more =>
        obtain ⟨rfl, -⟩ := List.cons.inj hmore
        exact ⟨'/' :: (more ++ '/' :: name'), hdrive, by simp, _, rfl⟩

theorem tail_splitOn_append (lead name : Text) :
    ((lead ++ '/' :: name).splitOn '/').tail = (lead.splitOn '/').tail ++ name.splitOn '/' := by
  rw [List.splitOn_append_cons_self, List.tail_append_of_ne_nil (List.splitOn_ne_nil _ _)]

/-- The last name of a place; a root has none. -/
def fileName (place : Location) : Text := place.names.getLast?.getD []

theorem fileName_no_slash {place : Location} (hplace : place.Canonical) :
    '/' ∉ place.fileName := by
  rw [fileName]
  cases hlast : place.names.getLast? with
  | none => simp
  | some name => exact (hplace.names name (List.mem_of_getLast? hlast)).no_slash

/-- The text before the last slash is the stem of the directory, for a root as for a file. -/
theorem toText_eq_fileName (place : Location) :
    place.toText =
      (⟨place.drive, place.names.dropLast⟩ : Location).stem ++ '/' :: place.fileName := by
  rcases List.eq_nil_or_concat place.names with hnil | ⟨names, name, hnames⟩
  · simp [toText_eq, stem, fileName, hnil]
  · simp [toText_eq, stem, fileName, hnames]

/-- A suffix without separators is one of the last name. -/
theorem suffix_toText_iff {place : Location} {suffix : Text} (hsuffix : '/' ∉ suffix) :
    suffix <:+ place.toText ↔ suffix <:+ place.fileName := by
  rw [toText_eq_fileName]
  constructor
  · intro h
    rcases List.suffix_or_suffix_of_suffix h (List.suffix_append _ _) with hshort | hlong
    · rcases List.suffix_cons_iff.mp hshort with rfl | hname
      · simp at hsuffix
      · exact hname
    · exact absurd (hlong.subset List.mem_cons_self) hsuffix
  · intro h
    exact List.suffix_append_of_suffix (h.trans (List.suffix_cons _ _))

theorem canonical_directory {place : Location} (hplace : place.Canonical) :
    Canonical ⟨place.drive, place.names.dropLast⟩ :=
  ⟨hplace.drive, fun name hname => hplace.names name (List.mem_of_mem_dropLast hname)⟩

theorem leads_dirname {place : Location} (hplace : place.Canonical) :
    Leads ⟨place.drive, place.names.dropLast⟩ (dirname place.toText) := by
  rw [Leads, toText_eq_fileName place, dirname_append (fileName_no_slash hplace),
    toText_eq_stem_append]
  by_cases hnames : place.names.dropLast = []
  · by_cases hdrive : place.drive = []
    · simp [stem, hnames, hdrive]
    · simp [stem, hnames, hdrive]
  · cases hcons : place.names.dropLast with
    | nil => exact absurd hcons hnames
    | cons name names => simp [stem]

/-- A path against a base: where its run from the base ends. -/
theorem ofText?_leads_iff {base : Location} (hbase : base.Canonical) {dir : Text}
    (hdir : base.Leads dir) {path : Text} {place : Location} :
    ofText? (dir ++ ("/" : Text) ++ path) = some place ↔
      place.drive = base.drive ∧ Reaches base.names (path.splitOn '/') place.names := by
  rw [ofText?_of_leads hbase hdir, Option.map_eq_some_iff]
  constructor
  · rintro ⟨stack, hwalk, rfl⟩
    exact ⟨rfl, by simpa using reaches_of_walk hwalk⟩
  · rintro ⟨hdrive, hreaches⟩
    refine ⟨place.names.reverse, walk_of_reaches hreaches, ?_⟩
    rw [List.reverse_reverse, ← hdrive]

end Location

end RequireLint
