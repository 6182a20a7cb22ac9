import RequireLint.Proofs.Policy.DecisionTable

/-!
# Load names

The load name of a reference is cut from its path text at the last `/lib/`.  On the canonical
text of a place the cut falls behind the last directory named `lib` above the place.  For a
place in the library that directory is the library itself or a directory in it, unless the place
is the library: then the cut falls above the project, or there is none.
-/

namespace RequireLint

open RequireLint.Path

namespace Reference

/-- The name of a library directory. -/
def libraryName : Text := "lib"

/-- The names `rest` lead from the last directory named `lib` on the way to a place down to the
place. -/
def LeadsFromLibrary (names rest : List Text) : Prop :=
  ∃ above, names = above ++ libraryName :: rest ∧ rest ≠ [] ∧ libraryName ∉ rest.dropLast

theorem not_mem_dropLast_of_cons {name first : Text} {names : List Text}
    (h : name ∉ (first :: names).dropLast) : name ∉ names.dropLast := by
  intro hmem
  cases names with
  | nil => simp at hmem
  | cons next names => exact h (List.mem_cons_of_mem first hmem)

theorem exists_leadsFromLibrary {names : List Text} (h : libraryName ∈ names.dropLast) :
    ∃ rest, LeadsFromLibrary names rest := by
  induction names with
  | nil => simp at h
  | cons name names ih =>
      by_cases hlater : libraryName ∈ names.dropLast
      · obtain ⟨rest, above, rfl, hne, hlast⟩ := ih hlater
        exact ⟨rest, name :: above, rfl, hne, hlast⟩
      · cases names with
        | nil => simp at h
        | cons next names =>
            rw [List.dropLast_cons_cons, List.mem_cons] at h
            have hname : libraryName = name := h.resolve_right hlater
            subst hname
            exact ⟨next :: names, [], rfl, by simp, hlater⟩

/-- No directory named `lib` above the place lies below the last one. -/
theorem prefix_of_leadsFromLibrary {above more above' rest : List Text}
    (heq : above ++ libraryName :: more = above' ++ libraryName :: rest) (hmore : more ≠ [])
    (hlast : libraryName ∉ rest.dropLast) : above <+: above' := by
  rcases List.append_eq_append_iff.mp heq with ⟨between, habove, -⟩ | ⟨between, habove, hrest⟩
  · exact ⟨between, habove.symm⟩
  · cases between with
    | nil => exact ⟨[], by simpa using habove⟩
    | cons name between =>
        rw [List.cons_append, List.cons.injEq] at hrest
        obtain ⟨next, more, rfl⟩ := List.exists_cons_of_ne_nil hmore
        apply absurd _ hlast
        rw [hrest.2, List.dropLast_append_cons]
        simp

theorem leadsFromLibrary_unique {names rest rest' : List Text} (h : LeadsFromLibrary names rest)
    (h' : LeadsFromLibrary names rest') : rest = rest' := by
  obtain ⟨above, rfl, hne, hlast⟩ := h
  obtain ⟨above', heq, hne', hlast'⟩ := h'
  have habove := prefix_of_leadsFromLibrary heq hne hlast'
  have habove' := prefix_of_leadsFromLibrary heq.symm hne' hlast
  obtain rfl : above = above' := habove.eq_of_length_le habove'.length_le
  exact (List.cons.inj (List.append_cancel_left heq)).2

/-! ## The cut in a canonical text -/

theorem name_eq_of_below {name rest : Text} {names : List Text} (hname : IsName name)
    (hcut : '/' :: (name ++ below names) = "/lib/".toList ++ rest) :
    name = libraryName ∧ names ≠ [] ∧ below names = '/' :: rest := by
  have hbelow : name ++ below names = libraryName ++ '/' :: rest := (List.cons.inj hcut).2
  have hopens : Opens (below names) := by
    simpa using opens_below_append names (.inl rfl : Opens [])
  obtain ⟨rfl, htail⟩ := append_cancel_of_opens hname.no_slash (by decide) hopens
    (.inr ⟨rest, rfl⟩) hbelow
  refine ⟨rfl, ?_, htail⟩
  rintro rfl
  simp at htail

theorem afterLast?_below_cons {name : Text} (hname : IsName name) (names : List Text) :
    Text.afterLast? "/lib/" (below (name :: names)) =
      (Text.afterLast? "/lib/" (below names)).orElse fun _ =>
        Text.dropPrefix? "/lib/" (below (name :: names)) := by
  rw [below_cons, Text.afterLast?]
  congr 1
  exact Text.afterLast?_append_of_not_mem hname.no_slash _

theorem afterLast?_below_eq_none {names : List Text} (hnames : ∀ name ∈ names, IsName name)
    (h : libraryName ∉ names.dropLast) : Text.afterLast? "/lib/" (below names) = none := by
  induction names with
  | nil => rfl
  | cons name names ih =>
      rw [List.forall_mem_cons] at hnames
      have hlater := not_mem_dropLast_of_cons h
      have hcut : Text.dropPrefix? "/lib/" (below (name :: names)) = none := by
        rw [Option.eq_none_iff_forall_ne_some]
        intro rest hrest
        rw [Text.dropPrefix?_eq_some, below_cons] at hrest
        obtain ⟨rfl, hne, -⟩ := name_eq_of_below hnames.1 hrest
        obtain ⟨next, names, rfl⟩ := List.exists_cons_of_ne_nil hne
        exact h List.mem_cons_self
      rw [afterLast?_below_cons hnames.1, ih hnames.2 hlater, hcut]
      rfl

theorem afterLast?_below_eq_some {names rest : List Text} (hnames : ∀ name ∈ names, IsName name)
    (h : LeadsFromLibrary names rest) :
    Text.afterLast? "/lib/" (below names) = some (Text.join "/" rest) := by
  obtain ⟨above, rfl, hne, hlast⟩ := h
  induction above with
  | nil =>
      rw [List.nil_append, List.forall_mem_cons] at hnames
      have hcut : Text.dropPrefix? "/lib/" (below (libraryName :: rest)) =
          some (Text.join "/" rest) := by
        rw [Text.dropPrefix?_eq_some, below_cons, below_eq_join hne]
        rfl
      rw [List.nil_append, afterLast?_below_cons hnames.1,
        afterLast?_below_eq_none hnames.2 hlast, hcut]
      rfl
  | cons name above ih =>
      rw [List.cons_append, List.forall_mem_cons] at hnames
      rw [List.cons_append, afterLast?_below_cons hnames.1, ih hnames.2]
      rfl

theorem join_ne_nil {names : List Text} (hne : names ≠ []) (hnames : ∀ name ∈ names, IsName name) :
    Text.join "/" names ≠ [] := by
  intro hnil
  have hbelow := below_eq_join hne
  obtain ⟨name, names, rfl⟩ := List.exists_cons_of_ne_nil hne
  rw [hnil, below_cons, List.cons.injEq, List.append_eq_nil_iff] at hbelow
  exact (hnames name List.mem_cons_self).ne_nil hbelow.2.1

section Canonical

variable {place : Location} (hplace : place.Canonical)
include hplace

theorem afterLast?_toText (hnames : place.names ≠ []) :
    Text.afterLast? "/lib/" place.toText = Text.afterLast? "/lib/" (below place.names) := by
  rw [Location.toText_eq, if_neg hnames]
  exact Text.afterLast?_append_of_not_mem (isDrive_no_slash hplace.drive) _

theorem afterLibrary?_toText_eq_none (h : libraryName ∉ place.names.dropLast) :
    afterLibrary? place.toText = none := by
  have hcut : Text.afterLast? "/lib/" place.toText = none := by
    by_cases hnames : place.names = []
    · rw [Location.toText_eq, if_pos hnames]
      exact Text.afterLast?_append_of_not_mem (isDrive_no_slash hplace.drive) _
    · rw [afterLast?_toText hplace hnames, afterLast?_below_eq_none hplace.names h]
  rw [afterLibrary?, hcut]

/-- What follows the last library directory of a place. -/
theorem afterLibrary?_toText_eq_some {rest : List Text} (h : LeadsFromLibrary place.names rest) :
    afterLibrary? place.toText = some (Text.join "/" rest) := by
  obtain ⟨above, heq, hne, -⟩ := id h
  have hnames : place.names ≠ [] := by
    rw [heq]
    simp
  have hrest : ∀ name ∈ rest, IsName name := by
    intro name hname
    apply hplace.names
    rw [heq]
    exact List.mem_append_right _ (List.mem_cons_of_mem _ hname)
  have hcut := afterLast?_toText hplace hnames
  rw [afterLast?_below_eq_some hplace.names h] at hcut
  rw [afterLibrary?, hcut]
  cases hjoin : Text.join "/" rest with
  | nil => exact absurd hjoin (join_ne_nil hne hrest)
  | cons c text => rfl

end Canonical

/-! ## References into the library -/

theorem exists_normalize_of_target {reference : Reference} {ctx : Context} {text : Text}
    (h : reference.target ctx = some text) : ∃ path, normalize path = some text := by
  have hexpand : ∀ {path base : Text}, expand path base = some text →
      ∃ path, normalize path = some text := by
    intro path base hpath
    unfold expand at hpath
    split at hpath
    · exact ⟨_, hpath⟩
    · exact ⟨_, hpath⟩
  unfold target at h
  split at h
  · exact hexpand h
  · exact hexpand h
  · exact ⟨_, h⟩
  · simp at h

theorem loadName?_of_base_ne_unknown {reference : Reference} (hbase : reference.base ≠ .unknown)
    (ctx : Context) : reference.loadName? ctx = (reference.target ctx).bind afterLibrary? := by
  unfold loadName?
  split
  next hunknown => exact absurd hunknown hbase
  next => rfl

/-- A reference with a known base is replaced by what follows the last library directory of its
target. -/
theorem canonicalReplacement_of_target {reference : Reference} {ctx : Context} {text : Text}
    (hbase : reference.base ≠ .unknown) (h : reference.target ctx = some text) :
    reference.canonicalReplacement ctx = (afterLibrary? text).map requireStatement := by
  rw [canonicalReplacement, loadName?_of_base_ne_unknown hbase, h, Option.bind_some]

section InLibrary

variable {ctx : Context} {root file target : Location}

theorem toText_eq_libraryRoot_iff (h : DecisionTable.Situated ctx root file)
    (htarget : target.Canonical) (hdrive : target.drive = root.drive) {more : List Text}
    (hnames : target.names = root.names ++ libraryName :: more) :
    target.toText = ctx.libraryRoot ↔ more = [] := by
  have hlibrary : DecisionTable.library root = ⟨root.drive, root.names ++ [libraryName]⟩ := rfl
  rw [DecisionTable.libraryRoot_eq h]
  constructor
  · intro htext
    have heq : target = DecisionTable.library root := by
      rw [← Location.ofCanonical_toText htarget, htext,
        Location.ofCanonical_toText (DecisionTable.canonical_library h.root_canonical)]
    rw [heq, hlibrary] at hnames
    exact (List.cons.inj (List.append_cancel_left hnames)).2.symm
  · rintro rfl
    rw [hlibrary, ← hdrive, ← hnames]

/-- The library has a load name only if it lies below another directory of the same name. -/
theorem afterLibrary?_library_eq_none_iff (h : DecisionTable.Situated ctx root file) :
    afterLibrary? ctx.libraryRoot = none ↔ libraryName ∉ root.names := by
  have hcanonical := DecisionTable.canonical_library h.root_canonical
  have habove : (DecisionTable.library root).names.dropLast = root.names := List.dropLast_concat
  rw [DecisionTable.libraryRoot_eq h]
  constructor
  · intro hnone hmem
    rw [← habove] at hmem
    obtain ⟨rest, hrest⟩ := exists_leadsFromLibrary hmem
    rw [afterLibrary?_toText_eq_some hcanonical hrest] at hnone
    simp at hnone
  · intro hmem
    apply afterLibrary?_toText_eq_none hcanonical
    rwa [habove]

/-- The load name of a place below the library leads down to it from the last library directory
on the way. -/
theorem exists_afterLibrary?_below_library (h : DecisionTable.Situated ctx root file)
    (htarget : target.Canonical) (hdrive : target.drive = root.drive) {more : List Text}
    (hmore : more ≠ []) (hnames : target.names = root.names ++ libraryName :: more) :
    ∃ above rest, target.names = above ++ libraryName :: rest ∧ root.names <+: above ∧
      rest ≠ [] ∧ libraryName ∉ rest.dropLast ∧ Text.join "/" rest ≠ [] ∧
      afterLibrary? target.toText = some (Text.join "/" rest) ∧
      (libraryName ∉ more.dropLast →
        Path.join ctx.libraryRoot (Text.join "/" rest) = target.toText) := by
  have hmem : libraryName ∈ target.names.dropLast := by
    obtain ⟨next, more, rfl⟩ := List.exists_cons_of_ne_nil hmore
    rw [hnames, List.dropLast_append_cons]
    simp
  obtain ⟨rest, hrest⟩ := exists_leadsFromLibrary hmem
  obtain ⟨above, heq, hne, hlast⟩ := id hrest
  have hnonempty : Text.join "/" rest ≠ [] := by
    apply join_ne_nil hne
    intro name hname
    apply htarget.names
    rw [heq]
    exact List.mem_append_right _ (List.mem_cons_of_mem _ hname)
  refine ⟨above, rest, heq, prefix_of_leadsFromLibrary (hnames.symm.trans heq) hmore hlast, hne,
    hlast, hnonempty, afterLibrary?_toText_eq_some htarget hrest, ?_⟩
  intro hbetween
  obtain rfl : rest = more := leadsFromLibrary_unique hrest ⟨root.names, hnames, hmore, hbetween⟩
  have hlibrary := DecisionTable.canonical_library h.root_canonical
  rw [DecisionTable.libraryRoot_eq h, Location.join_toText hlibrary, Location.toText_eq,
    Location.toText_eq, hdrive, hnames]
  simp [DecisionTable.library, libraryName, below_eq_join hne]

end InLibrary

/-- What is written for a reference with a known base that resolves into the library.  Nothing is
written exactly for the library itself in a project that has no directory named `lib` above it.
For a place below the library it is the path down to the place from the last directory named
`lib` on the way, which is the library or lies in it, and which is the library when no directory
in between has that name. -/
theorem canonicalReplacement_in_library {rootPath filePath rootText fileText targetText : Text}
    (hroot : normalize rootPath = some rootText) (hfile : normalize filePath = some fileText)
    {reference : Reference} (hbase : reference.base ≠ .unknown)
    (htarget : reference.target (.ofTexts rootPath filePath) = some targetText)
    (hwithin : isWithin targetText (Context.ofTexts rootPath filePath).libraryRoot = true) :
    let ctx := Context.ofTexts rootPath filePath
    let root := Location.ofCanonical rootText
    let target := Location.ofCanonical targetText
    (reference.canonicalReplacement ctx = none ↔
        targetText = ctx.libraryRoot ∧ libraryName ∉ root.names) ∧
      (targetText ≠ ctx.libraryRoot → ∃ above rest,
        target.names = above ++ libraryName :: rest ∧ root.names <+: above ∧ rest ≠ [] ∧
          libraryName ∉ rest.dropLast ∧ Text.join "/" rest ≠ [] ∧
          reference.canonicalReplacement ctx = some (requireStatement (Text.join "/" rest)) ∧
          (libraryName ∉ (target.names.drop (root.names.length + 1)).dropLast →
            Path.join ctx.libraryRoot (Text.join "/" rest) = targetText)) := by
  intro ctx root target
  have h : DecisionTable.Situated ctx root (Location.ofCanonical fileText) :=
    DecisionTable.situated_ofTexts hroot hfile
  obtain ⟨path, hpath⟩ := exists_normalize_of_target htarget
  obtain ⟨-, hcanonical, htext⟩ := normalize_eq_some hpath
  change target.Canonical at hcanonical
  change target.toText = targetText at htext
  rw [← htext] at hwithin
  obtain ⟨hdrive, more, hmore⟩ :=
    (DecisionTable.isWithin_libraryRoot_iff h hcanonical).mp hwithin
  have hnames : target.names = root.names ++ libraryName :: more := by
    rw [← hmore]
    exact List.append_assoc _ _ _
  have hreplacement := canonicalReplacement_of_target hbase htarget
  have hlibrary : targetText = ctx.libraryRoot ↔ more = [] := by
    rw [← htext]
    exact toText_eq_libraryRoot_iff h hcanonical hdrive hnames
  by_cases hbelow : more = []
  · have hself := hlibrary.mpr hbelow
    refine ⟨?_, fun hne => absurd hself hne⟩
    rw [hreplacement, Option.map_eq_none_iff, hself, afterLibrary?_library_eq_none_iff h]
    simp
  · obtain ⟨above, rest, heq, hprefix, hne, hlast, hnonempty, hname, hjoin⟩ :=
      exists_afterLibrary?_below_library h hcanonical hdrive hbelow hnames
    rw [htext] at hname hjoin
    rw [hname, Option.map_some] at hreplacement
    constructor
    · rw [hreplacement, hlibrary]
      simp [hbelow]
    · intro _
      refine ⟨above, rest, heq, hprefix, hne, hlast, hnonempty, hreplacement, ?_⟩
      intro hbetween
      apply hjoin
      have hdrop : target.names.drop (root.names.length + 1) = more := by
        rw [hnames]
        simp
      rwa [hdrop] at hbetween

/-- Two directories named `lib` above the project and two in it: the last one counts. -/
theorem canonicalReplacement_in_nested_library :
    let reference : Reference := ⟨"../lib/lib/x//y", .fileDirectory, .plainLiteral⟩
    let ctx : Context := .ofTexts "/usr/lib/foo" "/usr/lib/foo/spec/a_spec.rb"
    reference.base ≠ .unknown ∧
      reference.target ctx = some "/usr/lib/foo/lib/lib/x/y".toList ∧
      isWithin "/usr/lib/foo/lib/lib/x/y" ctx.libraryRoot = true ∧
      ∃ above rest, ["usr", "lib", "foo", "lib", "lib", "x", "y"].map String.toList =
          above ++ libraryName :: rest ∧
        ["usr", "lib", "foo"].map String.toList <+: above ∧ libraryName ∉ rest.dropLast ∧
        reference.canonicalReplacement ctx = some (requireStatement (Text.join "/" rest)) := by
  intro reference ctx
  have hbase : reference.base ≠ .unknown := by decide
  have htarget : reference.target ctx = some "/usr/lib/foo/lib/lib/x/y".toList := by decide
  have hwithin : isWithin "/usr/lib/foo/lib/lib/x/y" ctx.libraryRoot = true := by decide
  refine ⟨hbase, htarget, hwithin, ?_⟩
  have hroot : normalize "/usr/lib/foo" = some "/usr/lib/foo".toList := by decide
  have hfile : normalize "/usr/lib/foo/spec/a_spec.rb" =
      some "/usr/lib/foo/spec/a_spec.rb".toList := by decide
  obtain ⟨above, rest, hnames, habove, -, hlast, -, hreplacement, -⟩ :=
    (canonicalReplacement_in_library hroot hfile hbase htarget hwithin).2 (by decide)
  exact ⟨above, rest, hnames, habove, hlast, hreplacement⟩

/-- The library of a project below a directory named `lib` is given a load name, although the
reference names no file in it. -/
theorem library_below_lib_is_replaced :
    let reference : Reference := ⟨"lib", .fileDirectory, .plainLiteral⟩
    let ctx : Context := .ofTexts "/usr/lib/foo" "/usr/lib/foo/Rakefile"
    reference.target ctx = some ctx.libraryRoot ∧
      isWithin ctx.libraryRoot ctx.libraryRoot = true ∧
      reference.canonicalReplacement ctx = some "require \"foo/lib\"".toList := by
  decide

end Reference

end RequireLint
