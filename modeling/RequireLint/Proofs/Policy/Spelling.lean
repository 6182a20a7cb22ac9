import RequireLint.Proofs.Policy.LoadName

/-!
# Spellings of a path

A path below the directory of a file can be written as a bare literal, expanded against the
directory or against the file itself, and put behind the directory of the file.  All these
arguments are resolved by one run, over the segments of the path from the directory, so a policy
that looks at the resolved path alone comes to one decision on all of them.

The segment `..` in front of a path that is expanded against the file leaves the name of the file.
A root has no such name, which is why the file has to lie below its root.
-/

namespace RequireLint

open RequireLint.Path

/-! ## References with one target -/

namespace Reference

variable {reference reference' : Reference} {ctx : Context}

theorem inLibrary_congr (hbase : reference.base ≠ .unknown) (hbase' : reference'.base ≠ .unknown)
    (htarget : reference.target ctx = reference'.target ctx) :
    reference.inLibrary ctx = reference'.inLibrary ctx := by
  rw [Bool.eq_iff_iff, DecisionTable.inLibrary_of_base_ne_unknown hbase,
    DecisionTable.inLibrary_of_base_ne_unknown hbase', htarget]

theorem canonicalReplacement_congr (hbase : reference.base ≠ .unknown)
    (hbase' : reference'.base ≠ .unknown)
    (htarget : reference.target ctx = reference'.target ctx) :
    reference.canonicalReplacement ctx = reference'.canonicalReplacement ctx := by
  rw [canonicalReplacement, canonicalReplacement, loadName?_of_base_ne_unknown hbase,
    loadName?_of_base_ne_unknown hbase', htarget]

end Reference

/-- The policy on the library judges a `require` by where it leads, however it is written. -/
theorem Policy.decide_hardcodingLib_congr {reference reference' : Reference} {ctx : Context}
    (hbase : reference.base ≠ .unknown) (hbase' : reference'.base ≠ .unknown)
    (htarget : reference.target ctx = reference'.target ctx) (kind : Directive) :
    Policy.hardcodingLib.decide kind reference ctx =
      Policy.hardcodingLib.decide kind reference' ctx := by
  have hshape : hardcodingLib.appliesTo kind reference.shape =
      hardcodingLib.appliesTo kind reference'.shape := rfl
  have hmatch : hardcodingLib.isMatch reference ctx = hardcodingLib.isMatch reference' ctx :=
    Reference.inLibrary_congr hbase hbase' htarget
  rw [decide, decide, hshape, hmatch, Reference.canonicalReplacement_congr hbase hbase' htarget]

/-! ## The spellings -/

/-- The arguments that spell `path` from the directory of the inspected file. -/
inductive Spells (path : Text) : Expr → Prop
  | literal : Spells path (.str path)
  | fromDir : Spells path (.expandPathFrom (.str path) .currentDir)
  | fromFile : Spells path (.expandPathFrom (.str (("../" : Text) ++ path)) .currentFile)
  | sum : Spells path (.concat (.dirname .currentFile) (.str (("/" : Text) ++ path)))
  | interpolation : Spells path
      (.interpolated (.expr (.dirname .currentFile) (.text (("/" : Text) ++ path) .nil)))

namespace Location

variable {file : Location}

/-- From a directory, a dot in front of a path changes nothing. -/
theorem ofText?_dot (hfile : file.Canonical) {dir : Text} (hdir : file.Leads dir) (path : Text) :
    ofText? (dir ++ ("/" : Text) ++ (("./" : Text) ++ path)) =
      ofText? (dir ++ ("/" : Text) ++ path) := by
  have hsegments : (("./" : Text) ++ path).splitOn '/' = ['.'] :: path.splitOn '/' :=
    List.splitOn_append_cons_self_of_not_mem (show '/' ∉ ['.'] by decide) path
  rw [ofText?_of_leads hfile hdir, ofText?_of_leads hfile hdir, hsegments, walk_stay (.inr rfl)]

/-- From a file, two dots in front of a path lead to what the path is seen as from the directory
of the file. -/
theorem ofText?_dots (hfile : file.Canonical) (hbelow : file.names ≠ []) (path : Text) :
    ofText? (file.toText ++ ("/" : Text) ++ (("../" : Text) ++ path)) =
      ofText? (dirname file.toText ++ ("/" : Text) ++ path) := by
  have hsegments : (("../" : Text) ++ path).splitOn '/' = ['.', '.'] :: path.splitOn '/' :=
    List.splitOn_append_cons_self_of_not_mem (show '/' ∉ ['.', '.'] by decide) path
  have hnames : file.names.reverse = file.names.getLast hbelow :: file.names.dropLast.reverse := by
    conv_lhs => rw [← List.dropLast_concat_getLast hbelow]
    simp
  rw [ofText?_of_leads hfile (.inl rfl),
    ofText?_of_leads (canonical_directory hfile) (leads_dirname hfile), hsegments, hnames, walk_up]

end Location

/-- Every spelling of a path is resolved to where the path leads from the directory of the file. -/
theorem Spells.target {ctx : Context} {file : Location} {path : Text} {argument : Expr}
    (h : Spells path argument) (hfile : file.Canonical) (htext : ctx.filePath = file.toText)
    (hbelow : file.names ≠ []) (hpath : isAbsolute path = false) :
    ∃ reference, Reference.ofExpr? argument = some reference ∧ reference.base ≠ .unknown ∧
      reference.target ctx = normalize (ctx.fileDirectory ++ ("/" : Text) ++ path) := by
  have hrelative : ∀ drive rest, ¬ Rooted path drive rest := by
    intro drive rest hrooted
    rw [isAbsolute_iff.mpr ⟨drive, rest, hrooted⟩] at hpath
    exact absurd hpath (by decide)
  have hdir : (⟨file.drive, file.names.dropLast⟩ : Location).Leads ctx.fileDirectory := by
    rw [Context.fileDirectory, htext]
    exact Location.leads_dirname hfile
  have hsuffix : normalize (ctx.fileDirectory ++ ("/" : Text) ++ (("./" : Text) ++ path)) =
      normalize (ctx.fileDirectory ++ ("/" : Text) ++ path) :=
    congrArg (Option.map Location.toText)
      (Location.ofText?_dot (Location.canonical_directory hfile) hdir path)
  cases h with
  | literal =>
      refine ⟨_, congrArg some (DecisionTable.resolved_of_not_rooted hrelative _ _), by simp, ?_⟩
      exact expand_of_not_rooted hrelative _
  | fromDir =>
      refine ⟨_, congrArg some (DecisionTable.resolved_of_not_rooted hrelative _ _), by simp, ?_⟩
      exact expand_of_not_rooted hrelative _
  | fromFile =>
      have hdots : ∀ drive rest, ¬ Rooted (("../" : Text) ++ path) drive rest :=
        not_rooted_dot (("./" : Text) ++ path)
      refine ⟨_, congrArg some (DecisionTable.resolved_of_not_rooted hdots _ _), by simp, ?_⟩
      rw [Reference.target, expand_of_not_rooted hdots, htext, Context.fileDirectory, htext]
      exact congrArg (Option.map Location.toText) (Location.ofText?_dots hfile hbelow path)
  | sum =>
      refine ⟨_, rfl, by simp, ?_⟩
      exact (expand_of_not_rooted (not_rooted_dot _) _).trans hsuffix
  | interpolation =>
      refine ⟨_, rfl, by simp, ?_⟩
      exact (expand_of_not_rooted (not_rooted_dot _) _).trans hsuffix

/-- All spellings of a relative path get the same decision, replacement included: whatever the
project root is, in every file that lies below its root. -/
theorem evaluate_hardcodingLib_of_spells {filePath fileText : Text}
    (hfile : normalize filePath = some fileText)
    (hbelow : (Location.ofCanonical fileText).names ≠ []) {path : Text}
    (hpath : isAbsolute path = false) {argument argument' : Expr} (h : Spells path argument)
    (h' : Spells path argument') (rootPath : Text) :
    Policy.hardcodingLib.evaluate .require argument (.ofTexts rootPath filePath) =
      Policy.hardcodingLib.evaluate .require argument' (.ofTexts rootPath filePath) := by
  obtain ⟨-, hcanonical, htext⟩ := normalize_eq_some hfile
  have hcontext : (Context.ofTexts rootPath filePath).filePath =
      (Location.ofCanonical fileText).toText := by
    rw [htext, Context.ofTexts, Context.canonical, Context.canonical, hfile, Option.getD_some]
  obtain ⟨reference, href, hbase, htarget⟩ := h.target hcanonical hcontext hbelow hpath
  obtain ⟨reference', href', hbase', htarget'⟩ := h'.target hcanonical hcontext hbelow hpath
  rw [Policy.evaluate, Policy.evaluate, href, href']
  exact Policy.decide_hardcodingLib_congr hbase hbase' (htarget.trans htarget'.symm) .require

/-- A detour from a file on a drive, expanded against the file and put behind its directory. -/
theorem evaluate_hardcodingLib_of_spells_detour :
    let path : Text := "../x/..//lib/./a"
    let expanded : Expr := .expandPathFrom (.str "../../x/..//lib/./a") .currentFile
    let suffixed : Expr := .concat (.dirname .currentFile) (.str "/../x/..//lib/./a")
    let ctx : Context := .ofTexts "C:/p" "C:/p/./spec//a_spec.rb"
    normalize "C:/p/./spec//a_spec.rb" = some "C:/p/spec/a_spec.rb".toList ∧
      (Location.ofCanonical "C:/p/spec/a_spec.rb").names ≠ [] ∧ isAbsolute path = false ∧
      Spells path expanded ∧ Spells path suffixed ∧
      Policy.hardcodingLib.evaluate .require expanded ctx =
        Policy.hardcodingLib.evaluate .require suffixed ctx ∧
      Policy.hardcodingLib.evaluate .require suffixed ctx =
        ⟨true, some "require \"a\"".toList⟩ := by
  intro path expanded suffixed ctx
  have hfile : normalize "C:/p/./spec//a_spec.rb" = some "C:/p/spec/a_spec.rb".toList := by decide
  have hbelow : (Location.ofCanonical "C:/p/spec/a_spec.rb").names ≠ [] := by decide
  have hpath : isAbsolute path = false := by decide
  have hexpanded : Spells path expanded := .fromFile
  have hsuffixed : Spells path suffixed := .sum
  refine ⟨hfile, hbelow, hpath, hexpanded, hsuffixed, ?_, by decide⟩
  exact evaluate_hardcodingLib_of_spells hfile hbelow hpath hexpanded hsuffixed "C:/p"

end RequireLint
