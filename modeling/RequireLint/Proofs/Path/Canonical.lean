import Mathlib.Data.List.Basic
import RequireLint.Path.Lexical
import RequireLint.Proofs.Text.Affix

/-!
# Canonical places

A canonical path spells a place: a drive and names that are neither empty nor `.` nor `..`.
This file shows that reading an absolute path yields such a place, that the canonical text of
a place reads back as the place, and how the place can be seen in the canonical text alone.
-/

namespace RequireLint

namespace Path

/-- A name of a file or directory: a segment that goes down. -/
structure IsName (segment : Text) : Prop where
  ne_nil : segment ≠ []
  ne_dot : segment ≠ ['.']
  ne_dots : segment ≠ ['.', '.']
  no_slash : '/' ∉ segment

/-- A drive: nothing, or a letter and a colon. -/
def IsDrive (drive : Text) : Prop :=
  drive = [] ∨ ∃ letter : Char, letter.isAlpha = true ∧ drive = [letter, ':']

/-- The names of a place as they are written below its drive. -/
def below (names : List Text) : Text := names.flatMap fun name => '/' :: name

@[simp] theorem below_nil : below [] = [] := rfl

@[simp] theorem below_cons (name : Text) (names : List Text) :
    below (name :: names) = '/' :: (name ++ below names) := by
  simp [below]

@[simp] theorem below_append (names more : List Text) :
    below (names ++ more) = below names ++ below more := by
  simp [below]

theorem below_eq_join {names : List Text} (hne : names ≠ []) :
    below names = '/' :: Text.join "/" names := by
  induction names with
  | nil => exact absurd rfl hne
  | cons name names ih =>
      cases names with
      | nil => simp [Text.join]
      | cons next names =>
          rw [below_cons, ih (by simp)]
          simp [Text.join]

/-- A path text below a directory: its segments, each with a slash before it. -/
theorem below_splitOn (path : Text) : below (path.splitOn '/') = '/' :: path := by
  rw [below_eq_join (List.splitOn_ne_nil _ _)]
  exact congrArg ('/' :: ·) (List.intercalate_splitOn '/')

theorem isDrive_no_slash {drive : Text} (hdrive : IsDrive drive) : '/' ∉ drive := by
  rcases hdrive with rfl | ⟨letter, hletter, rfl⟩
  · simp
  · intro hmem
    have hslash : letter = '/' := by simpa [eq_comm] using hmem
    rw [hslash] at hletter
    exact absurd hletter (by decide)

/-- Splitting off the drive finds a drive with a slash behind it, and nothing else. -/
theorem splitDrive?_eq_some {path drive rest : Text} :
    splitDrive? path = some (drive, rest) ↔
      IsDrive drive ∧ path = drive ++ rest ∧ ∃ tail, rest = '/' :: tail := by
  constructor
  · intro h
    unfold splitDrive? at h
    split at h
    · obtain ⟨rfl, rfl⟩ := Prod.mk.inj (Option.some.inj h)
      exact ⟨.inl rfl, rfl, _, rfl⟩
    · split at h
      next halpha =>
        obtain ⟨rfl, rfl⟩ := Prod.mk.inj (Option.some.inj h)
        exact ⟨.inr ⟨_, halpha, rfl⟩, rfl, _, rfl⟩
      next => simp at h
    · simp at h
  · rintro ⟨rfl | ⟨letter, hletter, rfl⟩, rfl, tail, rfl⟩
    · rfl
    · have hne : letter ≠ '/' := by
        rintro rfl
        exact absurd hletter (by decide)
      unfold splitDrive?
      split
      next heq => exact absurd (List.cons.inj heq).1 hne
      next heq => simp_all
      next hother => exact absurd rfl (hother letter tail)

/-- A segment holds no separator. -/
theorem no_slash_of_mem_splitOn {path segment : Text}
    (hsegment : segment ∈ path.splitOn '/') : '/' ∉ segment := by
  induction path generalizing segment with
  | nil => simp_all
  | cons c rest ih =>
      rw [List.splitOn_cons_eq_if_modifyHead] at hsegment
      by_cases hc : c = '/'
      · rw [if_pos (by simpa using hc), List.mem_cons] at hsegment
        rcases hsegment with rfl | hsegment
        · simp
        · exact ih hsegment
      · rw [if_neg (by simpa using hc)] at hsegment
        cases hsplit : rest.splitOn '/' with
        | nil => exact absurd hsplit (List.splitOn_ne_nil _ _)
        | cons first others =>
            rw [hsplit] at hsegment ih
            rcases List.mem_cons.mp hsegment with rfl | hmem
            · have hfirst := ih (List.mem_cons_self)
              simp [Ne.symm hc, hfirst]
            · exact ih (List.mem_cons_of_mem _ hmem)

/-! ## Walking over segments -/

theorem walk_stay {segment : Text} (h : segment = [] ∨ segment = ['.'])
    (stack rest : List Text) :
    walk stack (segment :: rest) = walk stack rest := by
  rw [walk.eq_def]
  simp [h]

@[simp] theorem walk_up_root (rest : List Text) :
    walk [] (['.', '.'] :: rest) = none := by
  simp [walk]

@[simp] theorem walk_up (top : Text) (up rest : List Text) :
    walk (top :: up) (['.', '.'] :: rest) = walk up rest := by
  simp [walk]

theorem walk_down {segment : Text} (h : ¬ (segment = [] ∨ segment = ['.']))
    (hup : segment ≠ ['.', '.']) (stack rest : List Text) :
    walk stack (segment :: rest) = walk (segment :: stack) rest := by
  rw [walk.eq_def]
  simp [h, hup]

theorem walk_append (stack first second : List Text) :
    walk stack (first ++ second) = (walk stack first).bind fun middle => walk middle second := by
  induction first generalizing stack with
  | nil => simp [walk]
  | cons segment rest ih =>
      rw [List.cons_append]
      by_cases hstay : segment = [] ∨ segment = ['.']
      · rw [walk_stay hstay, walk_stay hstay, ih]
      by_cases hup : segment = ['.', '.']
      · subst hup
        cases stack with
        | nil => simp
        | cons top up => rw [walk_up, walk_up, ih]
      · rw [walk_down hstay hup, walk_down hstay hup, ih]

/-- Names only go down. -/
theorem walk_names {names : List Text} (hnames : ∀ name ∈ names, IsName name)
    (stack : List Text) :
    walk stack names = some (names.reverse ++ stack) := by
  induction names generalizing stack with
  | nil => simp [walk]
  | cons name names ih =>
      have hname := hnames name List.mem_cons_self
      rw [walk_down (by simp [hname.ne_nil, hname.ne_dot]) hname.ne_dots,
        ih fun n hn => hnames n (List.mem_cons_of_mem _ hn)]
      simp

/-- What is left on the stack after a walk has been there before, or is a segment that went
down. -/
theorem forall_of_walk {P : Text → Prop} {stack segments last : List Text}
    (hwalk : walk stack segments = some last) (hstack : ∀ name ∈ stack, P name)
    (hsegments : ∀ segment ∈ segments, segment ≠ [] → segment ≠ ['.'] → segment ≠ ['.', '.'] →
      P segment) :
    ∀ name ∈ last, P name := by
  induction segments generalizing stack with
  | nil =>
      obtain rfl : stack = last := by simpa [walk] using hwalk
      exact hstack
  | cons segment rest ih =>
      rw [List.forall_mem_cons] at hsegments
      by_cases hstay : segment = [] ∨ segment = ['.']
      · rw [walk_stay hstay] at hwalk
        exact ih hwalk hstack hsegments.2
      by_cases hup : segment = ['.', '.']
      · subst hup
        cases stack with
        | nil => simp at hwalk
        | cons top up =>
            rw [walk_up] at hwalk
            exact ih hwalk (fun name hname => hstack name (List.mem_cons_of_mem _ hname))
              hsegments.2
      · rw [walk_down hstay hup] at hwalk
        push Not at hstay
        apply ih hwalk _ hsegments.2
        rw [List.forall_mem_cons]
        exact ⟨hsegments.1 hstay.1 hstay.2 hup, hstack⟩

/-- What is left on the stack after a walk are names, if they were names before. -/
theorem isName_of_walk {stack segments last : List Text}
    (hwalk : walk stack segments = some last)
    (hstack : ∀ name ∈ stack, IsName name)
    (hsegments : ∀ segment ∈ segments, '/' ∉ segment) :
    ∀ name ∈ last, IsName name := by
  apply forall_of_walk hwalk hstack
  intro segment hsegment hne hdot hdots
  exact ⟨hne, hdot, hdots, hsegments segment hsegment⟩

end Path

namespace Location

open RequireLint.Path

/-- The invariant of a place that was read from a path. -/
structure Canonical (place : Location) : Prop where
  drive : IsDrive place.drive
  names : ∀ name ∈ place.names, IsName name

theorem toText_eq (place : Location) :
    place.toText = place.drive ++ if place.names = [] then ['/'] else below place.names := by
  by_cases hnames : place.names = []
  · simp [toText, hnames, Text.join]
  · simp [toText, hnames, below_eq_join hnames]

/-- Reading a path below a drive walks from the root over its segments. -/
theorem ofText?_rooted {drive : Text} (hdrive : IsDrive drive) (tail : Text) :
    ofText? (drive ++ '/' :: tail) =
      (walk [] (tail.splitOn '/')).map fun stack => ⟨drive, stack.reverse⟩ := by
  have hsplit : splitDrive? (drive ++ '/' :: tail) = some (drive, '/' :: tail) :=
    splitDrive?_eq_some.mpr ⟨hdrive, rfl, tail, rfl⟩
  simp [ofText?, hsplit, List.splitOn_cons_eq_if_modifyHead, walk_stay]

theorem ofText?_eq_some {path : Text} {place : Location} (h : ofText? path = some place) :
    ∃ tail stack, IsDrive place.drive ∧ path = place.drive ++ '/' :: tail ∧
      walk [] (tail.splitOn '/') = some stack ∧ place.names = stack.reverse := by
  cases hsplit : splitDrive? path with
  | none => simp [ofText?, hsplit] at h
  | some parts =>
      obtain ⟨drive, rest⟩ := parts
      obtain ⟨hdrive, rfl, tail, rfl⟩ := splitDrive?_eq_some.mp hsplit
      rw [ofText?_rooted hdrive] at h
      obtain ⟨stack, hwalk, rfl⟩ := Option.map_eq_some_iff.mp h
      exact ⟨tail, stack, hdrive, rfl, hwalk, rfl⟩

/-- Whatever is read from a path is canonical. -/
theorem canonical_of_ofText? {path : Text} {place : Location}
    (h : ofText? path = some place) : place.Canonical := by
  obtain ⟨tail, stack, hdrive, -, hwalk, hnames⟩ := ofText?_eq_some h
  refine ⟨hdrive, ?_⟩
  intro name hname
  rw [hnames, List.mem_reverse] at hname
  exact isName_of_walk hwalk (by simp) (fun _ hs => no_slash_of_mem_splitOn hs) name hname

theorem splitOn_join {names : List Text} (hne : names ≠ [])
    (hnames : ∀ name ∈ names, IsName name) :
    (Text.join "/" names).splitOn '/' = names :=
  List.splitOn_intercalate '/' (fun name hname => (hnames name hname).no_slash) hne

/-- A text that is put in front of a relative path to reach it from a place: the canonical
text of the place, or for a root also its bare drive. -/
def Leads (place : Location) (dir : Text) : Prop :=
  dir = place.toText ∨ place.names = [] ∧ dir = place.drive

/-- A path seen from a place is read by walking on from the names of the place. -/
theorem ofText?_of_leads {place : Location} (hplace : place.Canonical) {dir : Text}
    (hdir : place.Leads dir) (path : Text) :
    ofText? (dir ++ ("/" : Text) ++ path) =
      (walk place.names.reverse (path.splitOn '/')).map fun stack =>
        ⟨place.drive, stack.reverse⟩ := by
  rcases hdir with rfl | ⟨hroot, rfl⟩
  · rw [toText_eq]
    by_cases hnames : place.names = []
    · have hread := ofText?_rooted hplace.drive ('/' :: path)
      simpa [hnames, List.splitOn_cons_eq_if_modifyHead, walk_stay] using hread
    · have hread := ofText?_rooted hplace.drive (Text.join "/" place.names ++ '/' :: path)
      rw [List.splitOn_append_cons_self, splitOn_join hnames hplace.names, walk_append,
        walk_names hplace.names] at hread
      simpa [hnames, below_eq_join hnames] using hread
  · simpa [hroot] using ofText?_rooted hplace.drive path

/-- The canonical text of a place reads back as the place. -/
theorem ofText?_toText {place : Location} (hplace : place.Canonical) :
    ofText? place.toText = some place := by
  rw [toText_eq]
  by_cases hnames : place.names = []
  · have hread := ofText?_rooted hplace.drive []
    obtain ⟨drive, names⟩ := place
    simp_all [walk]
  · have hread := ofText?_rooted hplace.drive (Text.join "/" place.names)
    rw [splitOn_join hnames hplace.names, walk_names hplace.names] at hread
    simpa [hnames, below_eq_join hnames] using hread

/-- The place that a canonical text spells: what stands before the first slash is its drive,
and what stands between slashes are its names. -/
def ofCanonical (path : Text) : Location where
  drive := path.takeWhile (· ≠ '/')
  names := (path.splitOn '/').tail.filter (· ≠ [])

/-- The canonical text of a place spells the place. -/
theorem ofCanonical_toText {place : Location} (hplace : place.Canonical) :
    ofCanonical place.toText = place := by
  obtain ⟨drive, names⟩ := place
  have hdrive : '/' ∉ drive := isDrive_no_slash hplace.drive
  have htake : ∀ tail, (drive ++ '/' :: tail).takeWhile (· ≠ '/') = drive := by
    intro tail
    rw [List.takeWhile_append_of_pos (by simpa using fun c hc => ne_of_mem_of_not_mem hc hdrive)]
    simp
  rw [toText_eq, ofCanonical]
  by_cases hnames : names = []
  · subst hnames
    have hsplit := List.splitOn_append_cons_self_of_not_mem hdrive []
    have := htake []
    simp_all
  · have hsplit := List.splitOn_append_cons_self_of_not_mem hdrive (Text.join "/" names)
    rw [splitOn_join hnames hplace.names] at hsplit
    have hfilter : names.filter (· ≠ []) = names := by
      rw [List.filter_eq_self]
      intro name hname
      simpa using (hplace.names name hname).ne_nil
    simp only [hnames, if_false, below_eq_join hnames, htake, hsplit, List.tail_cons, hfilter]

end Location

namespace Path

/-- A normalized path is the canonical text of the place that it spells. -/
theorem normalize_eq_some {path text : Text} (h : normalize path = some text) :
    Location.ofText? path = some (Location.ofCanonical text) ∧
      (Location.ofCanonical text).Canonical ∧ (Location.ofCanonical text).toText = text := by
  obtain ⟨place, hplace, rfl⟩ := Option.map_eq_some_iff.mp h
  have hcanonical := Location.canonical_of_ofText? hplace
  rw [Location.ofCanonical_toText hcanonical]
  exact ⟨hplace, hcanonical, rfl⟩

end Path

end RequireLint
