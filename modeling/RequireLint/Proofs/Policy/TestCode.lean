import RequireLint.Proofs.Policy.DecisionTable

/-!
# Names required from test code

The test directories and the library lie side by side in a project.  A plain name that test code
requires is looked up below the directory of the test file, and it does not lead into the library
unless one of its segments starts with `lib`.

This holds for every text that is given for the project root and for the file.  A file without a
canonical form keeps the text it is given.  If a name still leads somewhere from the directory of
such a file, then its last segment alone leaves the file system, and the name leads to a place
right below the root of its drive.
-/

namespace RequireLint

open RequireLint.Path

/-- A path that goes down from where it is seen. -/
structure Path.Descends (path : Text) : Prop where
  relative : isAbsolute path = false
  names : ∀ segment ∈ path.splitOn '/', IsName segment

namespace Location

variable {path : Text}

/-- Only from the root a single segment has nowhere to go. -/
theorem eq_nil_of_walk_eq_none {stack : List Text} {segment : Text}
    (h : walk stack [segment] = none) : stack = [] := by
  by_cases hstay : segment = [] ∨ segment = ['.']
  · rw [walk_stay hstay, walk] at h
    simp at h
  by_cases hup : segment = ['.', '.']
  · cases stack with
    | nil => rfl
    | cons top up =>
        rw [hup, walk_up, walk] at h
        simp at h
  · rw [walk_down hstay hup, walk] at h
    simp at h

/-- Where a name leaves the file system, a path that goes down leads to a place right below the
root. -/
theorem names_eq_of_unreadable (lead : Text) {name : Text} (hname : '/' ∉ name)
    (hpath : Descends path) (hfile : ofText? (lead ++ '/' :: name) = none) {place : Location}
    (h : ofText? (lead ++ '/' :: path) = some place) : place.names = path.splitOn '/' := by
  obtain ⟨rest, hrooted, -⟩ := ofText?_eq_some_iff_reaches.mp h
  obtain ⟨rest', hrooted'⟩ := exists_rooted_append hrooted name
  have hsegment : name.splitOn '/' = [name] := List.splitOn_eq_singleton hname
  rw [ofText?_eq_map_walk hrooted, tail_splitOn_append, walk_append] at h
  rw [ofText?_eq_map_walk hrooted', tail_splitOn_append, walk_append, hsegment] at hfile
  cases hwalk : walk [] (lead.splitOn '/').tail with
  | none => simp [hwalk] at h
  | some stack =>
      rw [hwalk, Option.bind_some] at h hfile
      obtain rfl := eq_nil_of_walk_eq_none (Option.map_eq_none_iff.mp hfile)
      rw [walk_names hpath.names, List.append_nil, Option.map_some] at h
      rw [← Option.some.inj h, List.reverse_reverse]

/-- A second slash at the root changes nothing. -/
theorem ofText?_slash_slash (text : Text) :
    ofText? ('/' :: '/' :: text) = ofText? ('/' :: text) := by
  have hroot : IsDrive [] := .inl rfl
  have htwice := ofText?_rooted hroot ('/' :: text)
  rw [List.splitOn_cons_eq_if_modifyHead, if_pos (beq_self_eq_true '/'),
    walk_stay (.inl rfl)] at htwice
  exact htwice.trans (ofText?_rooted hroot text).symm

/-- A path that goes down from a file without a canonical form leads to a place right below the
root. -/
theorem names_eq_of_unreadable_file {filePath : Text} (hpath : Descends path)
    (hunreadable : ofText? filePath = none) {place : Location}
    (h : ofText? (dirname filePath ++ '/' :: path) = some place) :
    place.names = path.splitOn '/' := by
  by_cases hslash : '/' ∈ filePath
  · obtain ⟨lead, name, rfl, hname⟩ := Text.exists_append_of_mem hslash
    rw [dirname_append hname] at h
    cases lead with
    | nil =>
        have hread : ofText? ('/' :: path) = some place := (ofText?_slash_slash path).symm.trans h
        exact names_eq_of_unreadable [] hname hpath hunreadable hread
    | cons c lead =>
        have hread : ofText? (c :: lead ++ '/' :: path) = some place := by simpa using h
        exact names_eq_of_unreadable (c :: lead) hname hpath hunreadable hread
  · have hdot : dirname filePath = ['.'] := by
      rw [dirname, Text.beforeLast?_eq_none.mpr hslash]
      rfl
    rw [hdot, ofText?_eq_some_iff_reaches] at h
    obtain ⟨rest, hrooted, -⟩ := h
    exact absurd hrooted (not_rooted_dot _ _ _)

/-- A path that goes down from the directory of a file stands in the place of the file, or right
below the root of a drive if the file has no canonical form. -/
theorem target_cases_of_descends (hpath : Descends path) (filePath : Text) {target : Text}
    (h : expand path (dirname (Context.canonical filePath)) = some target) :
    (∃ stem name, Context.canonical filePath = stem ++ '/' :: name ∧
        target = stem ++ '/' :: path) ∨
      ∃ drive, IsDrive drive ∧ target = drive ++ '/' :: path := by
  have hrelative : ∀ drive rest, ¬ Rooted path drive rest := by
    intro drive rest hrooted
    have habsolute := isAbsolute_iff.mpr ⟨drive, rest, hrooted⟩
    rw [hpath.relative] at habsolute
    exact absurd habsolute (by decide)
  have hsegments : below (path.splitOn '/') = '/' :: path := below_splitOn path
  have hne : path.splitOn '/' ≠ [] := List.splitOn_ne_nil _ _
  rw [expand_of_not_rooted hrelative] at h
  obtain ⟨place, hread, rfl⟩ := Option.map_eq_some_iff.mp h
  cases hfile : normalize filePath with
  | some fileText =>
      obtain ⟨-, hcanonical, htext⟩ := normalize_eq_some hfile
      rw [Context.canonical, hfile, Option.getD_some] at hread ⊢
      generalize ofCanonical fileText = file at hcanonical htext
      obtain rfl := htext
      rw [ofText?_of_leads (canonical_directory hcanonical) (leads_dirname hcanonical),
        walk_names hpath.names, Option.map_some] at hread
      obtain rfl := Option.some.inj hread
      refine .inl ⟨_, _, toText_eq_fileName file, ?_⟩
      rw [toText_eq_stem_append]
      simp [stem, hne, hsegments]
  | none =>
      rw [Context.canonical, hfile, Option.getD_none] at hread ⊢
      have hunreadable : ofText? filePath = none := Option.map_eq_none_iff.mp hfile
      have hread' : ofText? (dirname filePath ++ '/' :: path) = some place := by simpa using hread
      have hnames : place.names = path.splitOn '/' :=
        names_eq_of_unreadable_file hpath hunreadable hread'
      refine .inr ⟨place.drive, (canonical_of_ofText? hread).drive, ?_⟩
      rw [toText_eq_stem_append]
      simp [stem, hnames, hne, hsegments]

end Location

/-! ## Names required from test code -/

/-- The library directory does not start in a path without a segment that starts with `lib`, so
it starts above it. -/
theorem Path.exists_of_append_lib_eq {path stem project rest : Text}
    (hlib : ¬ "/lib".toList <:+: '/' :: path)
    (h : stem ++ '/' :: path = project ++ '/' :: ("lib".toList ++ rest)) :
    ∃ between, stem = project ++ '/' :: 'l' :: between := by
  rcases List.append_eq_append_iff.mp h with ⟨more, -, hmore⟩ | ⟨more, rfl, hmore⟩
  · exact absurd ⟨more, rest, by simpa using hmore.symm⟩ hlib
  · match more with
    | [] => exact absurd ⟨[], rest, by simpa using hmore⟩ hlib
    | [c] => exact absurd (List.cons.inj (List.cons.inj hmore).2).1 (by decide)
    | c :: d :: between =>
        obtain ⟨rfl, htail⟩ := List.cons.inj hmore
        obtain rfl : 'l' = d := (List.cons.inj htail).1
        exact ⟨between, rfl⟩

/-- The names of the test directories do not start as that of the library does. -/
theorem Context.plain_of_mem_testDirectories {dir : Text} (h : dir ∈ testDirectories) :
    dir ≠ [] ∧ '/' ∉ dir ∧ dir.head? ≠ some 'l' := by
  simp only [testDirectories, List.mem_cons, List.not_mem_nil, or_false] at h
  rcases h with rfl | rfl | rfl | rfl <;> decide

/-- A path that goes down does not lead from test code into the library, unless one of its segments
starts with `lib`. -/
theorem Context.target_not_inLibrary {rootPath filePath path target : Text}
    (hpath : Descends path) (hlib : ¬ "/lib".toList <:+: '/' :: path)
    (htest : (Context.ofTexts rootPath filePath).inTestDirectory = true)
    (htarget : expand path (Context.ofTexts rootPath filePath).fileDirectory = some target) :
    isWithin target (Context.ofTexts rootPath filePath).libraryRoot = false := by
  rw [← Bool.not_eq_true]
  intro hwithin
  obtain ⟨rest, hrest, -⟩ := (isWithin_join_iff (by decide) (by decide) _ _).mp hwithin
  obtain ⟨dir, hdir, hfile⟩ := List.any_eq_true.mp htest
  have hplain := plain_of_mem_testDirectories hdir
  obtain ⟨rest', hrest', -⟩ := (isWithin_join_iff hplain.1 hplain.2.1 _ _).mp hfile
  obtain ⟨project, hjoin⟩ := exists_join_eq (Context.canonical rootPath)
  change target = join (Context.canonical rootPath) "lib" ++ rest at hrest
  change Context.canonical filePath = join (Context.canonical rootPath) dir ++ rest' at hrest'
  rw [hjoin, List.append_assoc, List.cons_append] at hrest hrest'
  rcases Location.target_cases_of_descends hpath filePath htarget with
    ⟨stem, name, hname, rfl⟩ | ⟨drive, hdrive, rfl⟩
  · -- The directory of the file starts both with the library and with a test directory.
    obtain ⟨between, rfl⟩ := exists_of_append_lib_eq hlib hrest
    have hfile' := hname.symm.trans hrest'
    rw [List.append_assoc] at hfile'
    have hhead := congrArg List.head? (List.cons.inj (List.append_cancel_left hfile')).2
    obtain ⟨c, dir, rfl⟩ := List.exists_cons_of_ne_nil hplain.1
    exact hplain.2.2 hhead.symm
  · obtain ⟨between, rfl⟩ := exists_of_append_lib_eq hlib hrest
    exact isDrive_no_slash hdrive (by simp)

/-- A name that test code requires is not taken for a path into the library. -/
theorem Policy.evaluate_hardcodingLib_of_testCode {rootPath filePath path : Text}
    (hpath : Descends path) (hlib : ¬ "/lib".toList <:+: '/' :: path)
    (htest : (Context.ofTexts rootPath filePath).inTestDirectory = true) (kind : Directive) :
    hardcodingLib.evaluate kind (.str path) (.ofTexts rootPath filePath) = .pass := by
  have hreference : Reference.ofExpr? (.str path) =
      some ⟨path, .fileDirectory, .plainLiteral⟩ := by
    simp [Reference.ofExpr?, Reference.resolved, hpath.relative]
  have houtside : Reference.inLibrary ⟨path, .fileDirectory, .plainLiteral⟩
      (.ofTexts rootPath filePath) = false := by
    cases htarget : expand path (Context.ofTexts rootPath filePath).fileDirectory with
    | none => simp [Reference.inLibrary, Reference.target, htarget]
    | some target =>
        simpa [Reference.inLibrary, Reference.target, htarget] using
          Context.target_not_inLibrary hpath hlib htest htarget
  simp [evaluate, hreference, decide, isMatch, houtside]

end RequireLint
