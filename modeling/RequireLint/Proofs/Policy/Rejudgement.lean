import RequireLint.Proofs.Policy.LoadName

/-!
# Judging a replacement

A replacement is a `require` of a load name, and the policy that wrote it judges that call like
any other.  A load name is cut at the last `/lib/`, so only its last segment can be `lib`.  A run
over its segments from a directory outside the library therefore enters the library with its last
step, if at all: the replacement offends exactly when its load name denotes the library itself.
-/

namespace RequireLint

open RequireLint.Path

namespace Reference

/-! ## The segments of a load name -/

/-- What follows the last `/lib/` of a text has no segment `lib`, except perhaps its last. -/
theorem libraryName_not_mem_of_afterLast? {path name : Text}
    (h : Text.afterLast? "/lib/" path = some name) :
    libraryName ∉ (name.splitOn '/').dropLast := by
  intro hmem
  obtain ⟨rest, above, hsegments, hne, -⟩ := exists_leadsFromLibrary hmem
  obtain ⟨next, rest, rfl⟩ := List.exists_cons_of_ne_nil hne
  have hname : '/' :: name = below above ++ "/lib/".toList ++ (next ++ below rest) := by
    rw [← below_splitOn, hsegments]
    simp [libraryName]
  have hinfix : "/lib/".toList <:+: "lib".toList ++ '/' :: name :=
    ⟨"lib".toList ++ below above, next ++ below rest, by rw [hname]; simp⟩
  exact Text.not_infix_of_afterLast?_eq_some (by decide) h hinfix

theorem libraryName_not_mem_of_loadName? {reference : Reference} {ctx : Context} {name : Text}
    (h : reference.loadName? ctx = some name) : libraryName ∉ (name.splitOn '/').dropLast := by
  have hcut : ∀ {path : Text}, afterLibrary? path = some name →
      libraryName ∉ (name.splitOn '/').dropLast := by
    intro path hpath
    unfold afterLibrary? at hpath
    split at hpath
    · simp at hpath
    · simp at hpath
    next hlast =>
      rw [hpath] at hlast
      exact libraryName_not_mem_of_afterLast? hlast
  unfold loadName? at h
  split at h
  · exact hcut h
  · obtain ⟨place, -, hplace⟩ := Option.bind_eq_some_iff.mp h
    exact hcut hplace

theorem libraryName_not_mem_of_replacement {policy : Policy} {kind : Directive}
    {reference : Reference} {ctx : Context} {name : Text}
    (h : policy.decide kind reference ctx = ⟨true, some (requireStatement name)⟩) :
    libraryName ∉ (name.splitOn '/').dropLast := by
  unfold Policy.decide at h
  split at h
  · obtain ⟨-, hreplacement⟩ := Decision.mk.inj h
    split at hreplacement
    · obtain ⟨written, hwritten, heq⟩ := Option.map_eq_some_iff.mp hreplacement
      obtain rfl : written = name := List.append_cancel_left (List.append_cancel_right heq)
      exact libraryName_not_mem_of_loadName? hwritten
    · simp at hreplacement
  · simp [Decision.pass] at h

/-- The segments of a text behind a slash, whatever single segment stands before it. -/
theorem splitOn_append_slash {lead : Text} (hlead : '/' ∉ lead) (tail : Text) :
    ((lead ++ '/' :: tail).splitOn '/').dropLast = lead :: (tail.splitOn '/').dropLast ∧
      ((lead ++ '/' :: tail).splitOn '/').getLast? = (tail.splitOn '/').getLast? := by
  obtain ⟨first, rest, hsplit⟩ := List.exists_cons_of_ne_nil (List.splitOn_ne_nil '/' tail)
  rw [List.splitOn_append_cons_self_of_not_mem hlead, hsplit]
  exact ⟨List.dropLast_cons_cons, List.getLast?_cons_cons⟩

/-! ## Entering a directory -/

theorem eq_of_reaches_nil {start finish : List Text} (h : Reaches start [] finish) :
    start = finish := by
  cases h
  rfl

/-- A run enters a directory by a segment that is the name of the directory.  If only the last
segment can be that name, the run ends at the directory. -/
theorem eq_of_reaches {dir start segments finish : List Text} {name : Text}
    (h : Reaches start segments finish) (hlast : name ∉ segments.dropLast)
    (hstart : ¬ dir ++ [name] <+: start) (hfinish : dir ++ [name] <+: finish) :
    finish = dir ++ [name] ∧ segments.getLast? = some name := by
  have hend : ∀ {segment : Text} {rest : List Text}, rest.getLast? = some name →
      (segment :: rest).getLast? = some name := by
    intro segment rest hrest
    rw [List.getLast?_cons, hrest, Option.getD_some]
  induction h with
  | done names => exact absurd hfinish hstart
  | stay _ _ ih => exact (ih (not_mem_dropLast_of_cons hlast) hstart hfinish).imp_right hend
  | up _ ih =>
      apply (ih (not_mem_dropLast_of_cons hlast) _ hfinish).imp_right hend
      intro hbelow
      exact hstart (hbelow.trans (List.prefix_append _ _))
  | @down segment start rest finish _ _ _ hrun ih =>
      by_cases henters : dir ++ [name] <+: start ++ [segment]
      · have hthere : dir ++ [name] = start ++ [segment] :=
          (List.prefix_concat_iff.mp henters).resolve_right hstart
        obtain rfl : name = segment := by
          simpa using (List.append_inj' hthere rfl).2
        cases rest with
        | nil =>
            rw [hthere]
            exact ⟨(eq_of_reaches_nil hrun).symm, rfl⟩
        | cons next rest => exact absurd List.mem_cons_self hlast
      · exact (ih (not_mem_dropLast_of_cons hlast) henters hfinish).imp_right hend

end Reference

namespace DecisionTable

section Situated

variable {root file : Location}

/-- The run of a load name from a file outside the library starts outside the library, and only
its last segment can be `lib`. -/
theorem starts_outside_library {name path : Text} {start : Location}
    (hname : Reference.libraryName ∉ (name.splitOn '/').dropLast)
    (houtside : ¬ file.LiesIn (library root)) (hdrive : root.drive = start.drive)
    (hstarts : Starts file (.str name) start path) :
    Reference.libraryName ∉ (path.splitOn '/').dropLast ∧
      (path.splitOn '/').getLast? = (name.splitOn '/').getLast? ∧
      ¬ (library root).names <+: start.names := by
  cases hstarts with
  | literal =>
      refine ⟨hname, rfl, ?_⟩
      intro hbelow
      exact houtside ⟨hdrive.symm, hbelow.trans (List.dropLast_prefix _)⟩
  | rootedLiteral hrooted =>
      obtain ⟨hletter, rfl, tail, rfl⟩ := hrooted
      obtain ⟨hsegments, hlast⟩ := Reference.splitOn_append_slash (isDrive_no_slash hletter) tail
      have hempty : '/' ∉ ([] : Text) := by simp
      obtain ⟨hsegments', hlast'⟩ := Reference.splitOn_append_slash hempty tail
      rw [List.nil_append] at hsegments' hlast'
      rw [hsegments, List.mem_cons, not_or] at hname
      refine ⟨?_, hlast'.trans hlast.symm, by simp [library]⟩
      rw [hsegments', List.mem_cons, not_or]
      exact ⟨by decide, hname.2⟩

/-- A load name leads from a file outside the library into the library only by denoting the
library itself, and then its last segment is `lib`. -/
theorem denotes_library_of_leadsIntoLibrary {name : Text}
    (hname : Reference.libraryName ∉ (name.splitOn '/').dropLast)
    (houtside : ¬ file.LiesIn (library root))
    (hleads : LeadsIntoLibrary root file (.str name)) :
    Denotes file (.str name) (library root) ∧
      (name.splitOn '/').getLast? = some Reference.libraryName := by
  rcases hleads with ⟨target, ⟨start, path, hstarts, hdrive, hrun⟩, hlies⟩ | ⟨text, hother, -⟩
  · obtain ⟨hlibrary, hprefix⟩ := hlies
    have hroot : root.drive = start.drive := hlibrary.symm.trans hdrive
    obtain ⟨hsegments, hlast, hstart⟩ := starts_outside_library hname houtside hroot hstarts
    obtain ⟨hplace, hend⟩ := Reference.eq_of_reaches hrun hsegments hstart hprefix
    refine ⟨⟨start, path, hstarts, hroot, ?_⟩, hlast.symm.trans hend⟩
    rwa [hplace] at hrun
  · cases hother

end Situated

/-- A replacement is no offense exactly when its load name, required from the file, does not
denote the library itself, which takes a last segment `lib`. -/
theorem replacement_passes_iff {rootPath filePath rootText fileText : Text}
    (hroot : normalize rootPath = some rootText) (hfile : normalize filePath = some fileText)
    {argument : Expr} {reference : Reference}
    (href : Reference.ofExpr? argument = some reference) {name : Text}
    (hoffense : Policy.hardcodingLib.decide .require reference (.ofTexts rootPath filePath) =
      ⟨true, some (Reference.requireStatement name)⟩) :
    let root := Location.ofCanonical rootText
    let file := Location.ofCanonical fileText
    let again := Policy.hardcodingLib.evaluate .require (.str name) (.ofTexts rootPath filePath)
    (again.offense = false ↔ ¬ Denotes file (.str name) (library root)) ∧
      ((name.splitOn '/').getLast? ≠ some Reference.libraryName → again.offense = false) := by
  intro root file again
  have h : Situated (.ofTexts rootPath filePath) root file := situated_ofTexts hroot hfile
  have hoffends : (Policy.hardcodingLib.decide .require reference
      (.ofTexts rootPath filePath)).offense = true := by rw [hoffense]
  have hexempt : ¬ Exempt root file :=
    ((decide_offense_iff_objects h .hardcodingLib .require href).mp hoffends).2.2
  have hname : Reference.libraryName ∉ (name.splitOn '/').dropLast :=
    Reference.libraryName_not_mem_of_replacement hoffense
  have hread : Reference.ofExpr? (.str name) =
      some (Reference.resolved name .fileDirectory .plainLiteral) := rfl
  have hagain : again.offense = true ↔ LeadsIntoLibrary root file (.str name) := by
    refine (decide_offense_iff_objects h .hardcodingLib .require hread).trans ?_
    exact ⟨fun hobjects => hobjects.2.1, fun hleads => ⟨rfl, hleads, hexempt⟩⟩
  have houtside : ¬ file.LiesIn (library root) := fun hlies => hexempt (.inl hlies)
  have hself : (library root).LiesIn (library root) := ⟨rfl, List.prefix_rfl⟩
  constructor
  · rw [← Bool.not_eq_true, hagain, not_iff_not]
    constructor
    · intro hleads
      exact (denotes_library_of_leadsIntoLibrary hname houtside hleads).1
    · intro hdenotes
      exact .inl ⟨library root, hdenotes, hself⟩
  · intro hlast
    rw [← Bool.not_eq_true, hagain]
    intro hleads
    exact hlast (denotes_library_of_leadsIntoLibrary hname houtside hleads).2

/-- From a test a load name `lib` denotes a file next to the test. -/
theorem replacement_named_lib_passes :
    let reference : Reference := ⟨"../lib/x/../lib", .fileDirectory, .plainLiteral⟩
    let ctx : Context := .ofTexts "/p" "/p/spec/a_spec.rb"
    Reference.ofExpr? (.str "../lib/x/../lib") = some reference ∧
      Policy.hardcodingLib.decide .require reference ctx =
        ⟨true, some (Reference.requireStatement "lib")⟩ ∧
      ¬ Denotes (.ofCanonical "/p/spec/a_spec.rb") (.str "lib") (library (.ofCanonical "/p")) := by
  intro reference ctx
  have hroot : normalize "/p" = some "/p".toList := by decide
  have hfile : normalize "/p/spec/a_spec.rb" = some "/p/spec/a_spec.rb".toList := by decide
  have href : Reference.ofExpr? (.str "../lib/x/../lib") = some reference := by decide
  have hoffense : Policy.hardcodingLib.decide .require reference ctx =
      ⟨true, some (Reference.requireStatement "lib")⟩ := by decide
  exact ⟨href, hoffense, (replacement_passes_iff hroot hfile href hoffense).1.mp (by decide)⟩

/-- From the root of the project it denotes the library, and the call that was written for a file
in the library offends again. -/
theorem replacement_named_lib_offends :
    let reference : Reference := ⟨"./lib/lib", .fileDirectory, .plainLiteral⟩
    let ctx : Context := .ofTexts "/p" "/p/Rakefile"
    Reference.ofExpr? (.str "./lib/lib") = some reference ∧
      Policy.hardcodingLib.decide .require reference ctx =
        ⟨true, some (Reference.requireStatement "lib")⟩ ∧
      (Policy.hardcodingLib.evaluate .require (.str "lib") ctx).offense = true := by
  decide

end DecisionTable

end RequireLint
