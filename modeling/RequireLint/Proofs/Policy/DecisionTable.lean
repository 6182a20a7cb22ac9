import RequireLint.Policy.Decision
import RequireLint.Proofs.Path.Expansion

/-!
# The decision table

The table says which inclusion calls a policy objects to, in terms of the names that lead to
the project root, to the inspected file and to the path that is included.  It mentions neither
path texts nor their normalization.  The main statement is that judging a call by text comes to
the same decision.
-/

namespace RequireLint

namespace DecisionTable

open RequireLint.Path

/-! ## Arguments -/

/-- An operand of `File.dirname` that is taken to be the inspected file. -/
inductive StandsForFile : Expr → Prop
  | currentFile : StandsForFile .currentFile
  | currentDir : StandsForFile .currentDir
  | literal (text : Text) : StandsForFile (.str text)
  | ident (name : Text) : StandsForFile (.ident name)

/-- The four shapes of an argument, with the path text that is written in it. -/
inductive Recognized : Expr → Shape → (written : Text) → Prop
  | literal (text : Text) : Recognized (.str text) .plainLiteral text
  | fromFile (text : Text) :
      Recognized (.expandPathFrom (.str text) .currentFile) .expandPathFromMarker text
  | fromDir (text : Text) :
      Recognized (.expandPathFrom (.str text) .currentDir) .expandPathFromMarker text
  | fromOther (text : Text) {base : Expr} : base ≠ .currentFile → base ≠ .currentDir →
      Recognized (.expandPathFrom (.str text) base) .expandPathFromOther text
  | sum {path : Expr} (suffix : Text) : StandsForFile path →
      Recognized (.concat (.dirname path) (.str suffix)) .dirnameConcat suffix
  | interpolation {path : Expr} (suffix : Text) : StandsForFile path →
      Recognized (.interpolated (.expr (.dirname path) (.text suffix .nil))) .dirnameConcat suffix

/-- The directory of a place. -/
def directory (place : Location) : Location := ⟨place.drive, place.names.dropLast⟩

/-- Where the path of an argument is run, and which text is run there.  A rooted path is run
from the root of its own drive. -/
inductive Starts (file : Location) : Expr → (start : Location) → (path : Text) → Prop
  | literal {text : Text} : (∀ drive rest, ¬ Rooted text drive rest) →
      Starts file (.str text) (directory file) text
  | rootedLiteral {text drive rest : Text} : Rooted text drive rest →
      Starts file (.str text) ⟨drive, []⟩ rest
  | fromFile {text : Text} : (∀ drive rest, ¬ Rooted text drive rest) →
      Starts file (.expandPathFrom (.str text) .currentFile) file text
  | fromDir {text : Text} : (∀ drive rest, ¬ Rooted text drive rest) →
      Starts file (.expandPathFrom (.str text) .currentDir) (directory file) text
  | rootedFromFile {text drive rest : Text} : Rooted text drive rest →
      Starts file (.expandPathFrom (.str text) .currentFile) ⟨drive, []⟩ rest
  | rootedFromDir {text drive rest : Text} : Rooted text drive rest →
      Starts file (.expandPathFrom (.str text) .currentDir) ⟨drive, []⟩ rest
  | sum {path : Expr} {suffix : Text} : StandsForFile path →
      Starts file (.concat (.dirname path) (.str suffix)) (directory file) ('.' :: suffix)
  | interpolation {path : Expr} {suffix : Text} : StandsForFile path →
      Starts file (.interpolated (.expr (.dirname path) (.text suffix .nil)))
        (directory file) ('.' :: suffix)

/-- An argument denotes the place where its run ends. -/
def Denotes (file : Location) (argument : Expr) (target : Location) : Prop :=
  ∃ start path, Starts file argument start path ∧ target.drive = start.drive ∧
    Reaches start.names (path.splitOn '/') target.names

/-! ## The table -/

/-- The library directory of a project. -/
def library (root : Location) : Location := ⟨root.drive, root.names ++ ["lib".toList]⟩

/-- An argument leads into the library: it denotes a place there, or its base is not known and
its literal names a library directory. -/
def LeadsIntoLibrary (root file : Location) (argument : Expr) : Prop :=
  (∃ target, Denotes file argument target ∧ target.LiesIn (library root)) ∨
    ∃ text, Recognized argument .expandPathFromOther text ∧
      ("lib/".toList <+: text ∨ "/lib/".toList <:+: text)

/-- The inspected file is a package manifest. -/
def IsManifest (file : Location) : Prop :=
  ∃ name ∈ file.names.getLast?, ".gemspec".toList <:+ name

/-- The inspected file is library code or a manifest. -/
def Exempt (root file : Location) : Prop :=
  file.LiesIn (library root) ∨ IsManifest file

/-- The inspected file is test code. -/
def IsTest (root file : Location) : Prop :=
  ∃ dir ∈ ["spec", "specs", "test", "tests"],
    file.LiesIn ⟨root.drive, root.names ++ [dir.toList]⟩

/-- The calls that a policy objects to. -/
def Objects (root file : Location) (policy : Policy) (kind : Directive) (argument : Expr) :
    Prop :=
  match policy with
  | .hardcodingLib =>
    kind = .require ∧ LeadsIntoLibrary root file argument ∧ ¬ Exempt root file
  | .relativeHardcodingLib allowInTests =>
    kind = .requireRelative ∧ (∃ text, Recognized argument .plainLiteral text) ∧
      LeadsIntoLibrary root file argument ∧ ¬ Exempt root file ∧
        ¬ (allowInTests = true ∧ IsTest root file)
  | .textualRelativeLib =>
    ∃ text, Recognized argument .plainLiteral text ∧ "../lib/".toList <:+: text
  | .textualRelativePath =>
    kind = .require ∧ ∃ shape text, Recognized argument shape text ∧ "./lib/".toList <:+: text

/-! ## The inspected file in its project -/

/-- A context is situated at places when its two paths are their canonical texts. -/
structure Situated (ctx : Context) (root file : Location) : Prop where
  root_canonical : root.Canonical
  file_canonical : file.Canonical
  projectRoot_eq : ctx.projectRoot = root.toText
  filePath_eq : ctx.filePath = file.toText

theorem situated_ofTexts {rootPath filePath rootText fileText : Text}
    (hroot : normalize rootPath = some rootText) (hfile : normalize filePath = some fileText) :
    Situated (.ofTexts rootPath filePath) (.ofCanonical rootText) (.ofCanonical fileText) := by
  obtain ⟨-, hrootCanonical, hrootText⟩ := normalize_eq_some hroot
  obtain ⟨-, hfileCanonical, hfileText⟩ := normalize_eq_some hfile
  refine ⟨hrootCanonical, hfileCanonical, ?_, ?_⟩
  · simp [Context.ofTexts, Context.canonical, hroot, hrootText]
  · simp [Context.ofTexts, Context.canonical, hfile, hfileText]

section Situated

variable {ctx : Context} {root file : Location}

theorem canonical_child (hroot : root.Canonical) {name : Text} (hname : IsName name) :
    (⟨root.drive, root.names ++ [name]⟩ : Location).Canonical := by
  refine ⟨hroot.drive, ?_⟩
  intro n hn
  rcases List.mem_append.mp hn with hn | hn
  · exact hroot.names n hn
  · rwa [List.mem_singleton.mp hn]

theorem isName_of_plain {name : Text} (hne : name ≠ []) (hdot : '.' ∉ name)
    (hslash : '/' ∉ name) : IsName name := by
  refine ⟨hne, ?_, ?_, hslash⟩
  · rintro rfl
    simp at hdot
  · rintro rfl
    simp at hdot

theorem canonical_library (hroot : root.Canonical) : (library root).Canonical :=
  canonical_child hroot (isName_of_plain (by decide) (by decide) (by decide))

theorem libraryRoot_eq (h : Situated ctx root file) :
    ctx.libraryRoot = (library root).toText := by
  rw [Context.libraryRoot, h.projectRoot_eq]
  exact Location.join_toText h.root_canonical _

theorem isWithin_libraryRoot_iff (h : Situated ctx root file) {place : Location}
    (hplace : place.Canonical) :
    isWithin place.toText ctx.libraryRoot = true ↔ place.LiesIn (library root) := by
  rw [libraryRoot_eq h, Location.isWithin_toText hplace (canonical_library h.root_canonical),
    Location.isWithin_iff]

theorem inLibrary_iff (h : Situated ctx root file) :
    ctx.inLibrary = true ↔ file.LiesIn (library root) := by
  rw [Context.inLibrary, h.filePath_eq, isWithin_libraryRoot_iff h h.file_canonical]

theorem inTestDirectory_iff (h : Situated ctx root file) :
    ctx.inTestDirectory = true ↔ IsTest root file := by
  have hdir : ∀ dir ∈ ["spec", "specs", "test", "tests"], IsName dir.toList := by
    intro dir hdir
    simp only [List.mem_cons, List.not_mem_nil, or_false] at hdir
    rcases hdir with rfl | rfl | rfl | rfl <;>
      exact isName_of_plain (by decide) (by decide) (by decide)
  have hlist : Context.testDirectories =
      ["spec", "specs", "test", "tests"].map String.toList := rfl
  rw [Context.inTestDirectory, hlist, List.any_map, List.any_eq_true]
  refine exists_congr fun dir => and_congr_right fun hmem => ?_
  have hchild := canonical_child h.root_canonical (hdir dir hmem)
  rw [Function.comp_apply, h.projectRoot_eq, h.filePath_eq,
    Location.join_toText h.root_canonical, Location.isWithin_toText h.file_canonical hchild,
    Location.isWithin_iff]

theorem isManifest_iff (h : Situated ctx root file) :
    ctx.isManifest = true ↔ IsManifest file := by
  rw [Context.isManifest, Text.endsWith_iff, h.filePath_eq,
    Location.suffix_toText_iff (by decide), Location.fileName, IsManifest]
  cases file.names.getLast? with
  | none => simp
  | some name => simp

theorem exempt_iff (h : Situated ctx root file) :
    (ctx.inLibrary || ctx.isManifest) = true ↔ Exempt root file := by
  rw [Bool.or_eq_true, inLibrary_iff h, isManifest_iff h, Exempt]

end Situated

/-! ## The recognized arguments -/

theorem ofDirname?_of_standsForFile {path : Expr} (h : StandsForFile path) (suffix : Text) :
    Reference.ofDirname? path suffix = some ⟨'.' :: suffix, .fileDirectory, .dirnameConcat⟩ := by
  cases h <;> rfl

theorem standsForFile_of_ofDirname? {path : Expr} {suffix : Text} {reference : Reference}
    (h : Reference.ofDirname? path suffix = some reference) : StandsForFile path := by
  unfold Reference.ofDirname? at h
  split at h
  · exact .currentFile
  · exact .currentDir
  · exact .literal _
  · exact .ident _
  · simp at h

theorem ofExpandPath_of_other {base : Expr} (hfile : base ≠ .currentFile)
    (hdir : base ≠ .currentDir) (text : Text) :
    Reference.ofExpandPath text base = ⟨text, .unknown, .expandPathFromOther⟩ := by
  unfold Reference.ofExpandPath
  split
  · exact absurd rfl hfile
  · exact absurd rfl hdir
  · rfl

/-- An argument is recognized in a shape just when a reference of that shape is made of it, and
the reference keeps the written text. -/
theorem recognized_iff {argument : Expr} {shape : Shape} {text : Text} :
    Recognized argument shape text ↔
      ∃ reference, Reference.ofExpr? argument = some reference ∧
        reference.shape = shape ∧ reference.written = text := by
  constructor
  · intro h
    cases h with
    | literal => exact ⟨_, rfl, rfl, rfl⟩
    | fromFile => exact ⟨_, rfl, rfl, rfl⟩
    | fromDir => exact ⟨_, rfl, rfl, rfl⟩
    | fromOther _ hfile hdir =>
        exact ⟨_, congrArg some (ofExpandPath_of_other hfile hdir text), rfl, rfl⟩
    | sum _ hpath => exact ⟨_, ofDirname?_of_standsForFile hpath text, rfl, rfl⟩
    | interpolation _ hpath => exact ⟨_, ofDirname?_of_standsForFile hpath text, rfl, rfl⟩
  · rintro ⟨reference, href, rfl, rfl⟩
    unfold Reference.ofExpr? at href
    split at href
    · obtain rfl := Option.some.inj href
      exact .literal _
    · next text base =>
        by_cases hfile : base = .currentFile
        · subst hfile
          obtain rfl := Option.some.inj href
          exact .fromFile _
        by_cases hdir : base = .currentDir
        · subst hdir
          obtain rfl := Option.some.inj href
          exact .fromDir _
        · rw [ofExpandPath_of_other hfile hdir] at href
          obtain rfl := Option.some.inj href
          exact .fromOther _ hfile hdir
    · have hpath := standsForFile_of_ofDirname? href
      rw [ofDirname?_of_standsForFile hpath] at href
      obtain rfl := Option.some.inj href
      exact .sum _ hpath
    · have hpath := standsForFile_of_ofDirname? href
      rw [ofDirname?_of_standsForFile hpath] at href
      obtain rfl := Option.some.inj href
      exact .interpolation _ hpath
    · simp at href

theorem resolved_of_rooted {text drive rest : Text} (h : Rooted text drive rest) (base : Base)
    (shape : Shape) : Reference.resolved text base shape = ⟨text, .rooted, shape⟩ := by
  rw [Reference.resolved, if_pos (isAbsolute_iff.mpr ⟨drive, rest, h⟩)]

theorem resolved_of_not_rooted {text : Text} (h : ∀ drive rest, ¬ Rooted text drive rest)
    (base : Base) (shape : Shape) : Reference.resolved text base shape = ⟨text, base, shape⟩ := by
  have habsolute : ¬ isAbsolute text = true := by
    rw [isAbsolute_iff]
    rintro ⟨drive, rest, hrooted⟩
    exact h drive rest hrooted
  rw [Reference.resolved, if_neg habsolute]

section Situated

variable {ctx : Context} {root file : Location}

theorem target_fileDirectory {text : Text} (hrelative : ∀ drive rest, ¬ Rooted text drive rest)
    (ctx : Context) (shape : Shape) :
    Reference.target ⟨text, .fileDirectory, shape⟩ ctx =
      normalize (ctx.fileDirectory ++ ("/" : Text) ++ text) :=
  expand_of_not_rooted hrelative _

/-- The target of a reference of a known base is read from one absolute text, and the places
that this text denotes are those where the run of the argument ends. -/
theorem target_of_starts (h : Situated ctx root file) {argument : Expr} {start : Location}
    {path : Text} (hstarts : Starts file argument start path) :
    ∃ reference text, Reference.ofExpr? argument = some reference ∧ reference.base ≠ .unknown ∧
      reference.target ctx = normalize text ∧
        ∀ place, Location.ofText? text = some place ↔
          place.drive = start.drive ∧ Reaches start.names (path.splitOn '/') place.names := by
  have hdirectory : (directory file).Canonical := Location.canonical_directory h.file_canonical
  have hfile : file.Leads ctx.filePath := .inl h.filePath_eq
  have hdir : (directory file).Leads ctx.fileDirectory := by
    rw [Context.fileDirectory, h.filePath_eq]
    exact Location.leads_dirname h.file_canonical
  cases hstarts with
  | literal hrelative =>
      refine ⟨_, _, congrArg some (resolved_of_not_rooted hrelative _ _), by simp,
        target_fileDirectory hrelative ctx _, fun place => ?_⟩
      exact Location.ofText?_leads_iff hdirectory hdir
  | rootedLiteral hrooted =>
      refine ⟨_, _, congrArg some (resolved_of_rooted hrooted _ _), by simp, rfl, fun place => ?_⟩
      exact ofText?_rooted_iff hrooted
  | fromFile hrelative =>
      refine ⟨_, _, congrArg some (resolved_of_not_rooted hrelative _ _), by simp,
        expand_of_not_rooted hrelative _, fun place => ?_⟩
      exact Location.ofText?_leads_iff h.file_canonical hfile
  | fromDir hrelative =>
      refine ⟨_, _, congrArg some (resolved_of_not_rooted hrelative _ _), by simp,
        target_fileDirectory hrelative ctx _, fun place => ?_⟩
      exact Location.ofText?_leads_iff hdirectory hdir
  | rootedFromFile hrooted =>
      refine ⟨_, _, congrArg some (resolved_of_rooted hrooted _ _), by simp, rfl, fun place => ?_⟩
      exact ofText?_rooted_iff hrooted
  | rootedFromDir hrooted =>
      refine ⟨_, _, congrArg some (resolved_of_rooted hrooted _ _), by simp, rfl, fun place => ?_⟩
      exact ofText?_rooted_iff hrooted
  | sum hpath =>
      refine ⟨_, _, ofDirname?_of_standsForFile hpath _, by simp,
        target_fileDirectory (not_rooted_dot _) ctx _, fun place => ?_⟩
      exact Location.ofText?_leads_iff hdirectory hdir
  | interpolation hpath =>
      refine ⟨_, _, ofDirname?_of_standsForFile hpath _, by simp,
        target_fileDirectory (not_rooted_dot _) ctx _, fun place => ?_⟩
      exact Location.ofText?_leads_iff hdirectory hdir

/-- A recognized argument has a run, unless its base is not known. -/
theorem exists_starts {argument : Expr} {shape : Shape} {text : Text}
    (h : Recognized argument shape text) (hshape : shape ≠ .expandPathFromOther)
    (file : Location) : ∃ start path, Starts file argument start path := by
  have hroot : (∃ drive rest, Rooted text drive rest) ∨ ∀ drive rest, ¬ Rooted text drive rest := by
    by_cases hrooted : ∃ drive rest, Rooted text drive rest
    · exact .inl hrooted
    · exact .inr fun drive rest h => hrooted ⟨drive, rest, h⟩
  cases h with
  | literal =>
      rcases hroot with ⟨drive, rest, hrooted⟩ | hrelative
      · exact ⟨_, _, .rootedLiteral hrooted⟩
      · exact ⟨_, _, .literal hrelative⟩
  | fromFile =>
      rcases hroot with ⟨drive, rest, hrooted⟩ | hrelative
      · exact ⟨_, _, .rootedFromFile hrooted⟩
      · exact ⟨_, _, .fromFile hrelative⟩
  | fromDir =>
      rcases hroot with ⟨drive, rest, hrooted⟩ | hrelative
      · exact ⟨_, _, .rootedFromDir hrooted⟩
      · exact ⟨_, _, .fromDir hrelative⟩
  | fromOther => exact absurd rfl hshape
  | sum _ hpath => exact ⟨_, _, .sum hpath⟩
  | interpolation _ hpath => exact ⟨_, _, .interpolation hpath⟩

theorem namesLibrary_iff {text : Text} :
    Reference.namesLibrary text = true ↔ "lib/".toList <+: text ∨ "/lib/".toList <:+: text := by
  rw [Reference.namesLibrary, Bool.or_eq_true, Text.startsWith_iff, Text.contains_iff]

theorem inLibrary_of_base_ne_unknown {reference : Reference} (hbase : reference.base ≠ .unknown)
    (ctx : Context) :
    reference.inLibrary ctx = true ↔
      ∃ place ∈ reference.target ctx, isWithin place ctx.libraryRoot = true := by
  have hknown : reference.inLibrary ctx =
      (reference.target ctx).elim false fun place => isWithin place ctx.libraryRoot := by
    unfold Reference.inLibrary
    split
    next hunknown => exact absurd hunknown hbase
    next => cases reference.target ctx <;> rfl
  rw [hknown]
  cases reference.target ctx <;> simp

/-- A reference resolves into the library just when its argument leads there. -/
theorem inLibrary_reference_iff (h : Situated ctx root file) {argument : Expr}
    {reference : Reference} (href : Reference.ofExpr? argument = some reference) :
    reference.inLibrary ctx = true ↔ LeadsIntoLibrary root file argument := by
  obtain ⟨written, hrecognized⟩ : ∃ written, Recognized argument reference.shape written :=
    ⟨_, recognized_iff.mpr ⟨reference, href, rfl, rfl⟩⟩
  by_cases hshape : reference.shape = .expandPathFromOther
  · rw [hshape] at hrecognized
    cases hrecognized with
    | fromOther _ hfile hdir =>
        obtain rfl := Option.some.inj (href.symm.trans
          (congrArg some (ofExpandPath_of_other hfile hdir _)))
        rw [LeadsIntoLibrary, Reference.inLibrary, namesLibrary_iff]
        constructor
        · intro hnames
          exact .inr ⟨_, .fromOther _ hfile hdir, hnames⟩
        · rintro (⟨target, ⟨start, path, hstarts, -⟩, -⟩ | ⟨text, htext, hnames⟩)
          · cases hstarts <;> contradiction
          · cases htext
            exact hnames
  · constructor
    · intro hin
      obtain ⟨start, path, hstarts⟩ := exists_starts hrecognized hshape file
      obtain ⟨_, text, href', hbase, htarget, hplaces⟩ := target_of_starts h hstarts
      obtain rfl := Option.some.inj (href.symm.trans href')
      obtain ⟨_, hmem, hwithin⟩ := (inLibrary_of_base_ne_unknown hbase ctx).mp hin
      rw [htarget] at hmem
      obtain ⟨target, hread, rfl⟩ := Option.map_eq_some_iff.mp hmem
      have hcanonical := Location.canonical_of_ofText? hread
      exact .inl ⟨target, ⟨start, path, hstarts, (hplaces target).mp hread⟩,
        (isWithin_libraryRoot_iff h hcanonical).mp hwithin⟩
    · rintro (⟨target, ⟨start, path, hstarts, hrun⟩, hlies⟩ | ⟨text, hother, -⟩)
      · obtain ⟨_, text, href', hbase, htarget, hplaces⟩ := target_of_starts h hstarts
        obtain rfl := Option.some.inj (href.symm.trans href')
        have hread := (hplaces target).mpr hrun
        have hcanonical := Location.canonical_of_ofText? hread
        rw [inLibrary_of_base_ne_unknown hbase, htarget]
        exact ⟨target.toText, congrArg (Option.map Location.toText) hread,
          (isWithin_libraryRoot_iff h hcanonical).mpr hlies⟩
      · obtain ⟨_, href', hshape', -⟩ := recognized_iff.mp hother
        obtain rfl := Option.some.inj (href.symm.trans href')
        exact absurd hshape' hshape

/-- Judging a reference offends when the policy applies, matches and does not exempt. -/
theorem decide_offense_iff (policy : Policy) (kind : Directive) (reference : Reference)
    (ctx : Context) :
    (policy.decide kind reference ctx).offense = true ↔
      policy.appliesTo kind reference.shape = true ∧ policy.isMatch reference ctx = true ∧
        policy.exempts ctx = false := by
  rw [Policy.decide]
  by_cases hjudged : (policy.appliesTo kind reference.shape && policy.isMatch reference ctx
      && !policy.exempts ctx) = true
  · rw [if_pos hjudged]
    simpa [and_assoc] using hjudged
  · rw [if_neg hjudged]
    simpa [Decision.pass, and_assoc] using hjudged

theorem recognized_of_leadsIntoLibrary (h : Situated ctx root file) {argument : Expr}
    (hleads : LeadsIntoLibrary root file argument) :
    ∃ shape text, Recognized argument shape text := by
  rcases hleads with ⟨target, ⟨start, path, hstarts, -⟩, -⟩ | ⟨text, hrecognized, -⟩
  · obtain ⟨reference, -, href, -⟩ := target_of_starts h hstarts
    exact ⟨_, _, recognized_iff.mpr ⟨reference, href, rfl, rfl⟩⟩
  · exact ⟨_, _, hrecognized⟩

theorem recognized_of_objects (h : Situated ctx root file) {policy : Policy} {kind : Directive}
    {argument : Expr} (hobjects : Objects root file policy kind argument) :
    ∃ shape text, Recognized argument shape text := by
  cases policy with
  | hardcodingLib => exact recognized_of_leadsIntoLibrary h hobjects.2.1
  | relativeHardcodingLib allowInTests => exact recognized_of_leadsIntoLibrary h hobjects.2.2.1
  | textualRelativeLib =>
      obtain ⟨text, hrecognized, -⟩ := hobjects
      exact ⟨_, _, hrecognized⟩
  | textualRelativePath =>
      obtain ⟨-, shape, text, hrecognized, -⟩ := hobjects
      exact ⟨_, _, hrecognized⟩

/-- On a recognized argument, the judgement by its reference is the one of the table. -/
theorem decide_offense_iff_objects (h : Situated ctx root file) (policy : Policy)
    (kind : Directive) {argument : Expr} {reference : Reference}
    (href : Reference.ofExpr? argument = some reference) :
    (policy.decide kind reference ctx).offense = true ↔ Objects root file policy kind argument := by
  have hrecognized : ∀ shape text, Recognized argument shape text ↔
      reference.shape = shape ∧ reference.written = text := by
    intro shape text
    rw [recognized_iff]
    simp [href]
  have hexempt : ∀ b : Bool, (b = false ↔ ¬ b = true) := by simp
  rw [decide_offense_iff, hexempt]
  cases policy with
  | hardcodingLib =>
      rw [Policy.appliesTo, Policy.isMatch, Policy.exempts, exempt_iff h,
        inLibrary_reference_iff h href, Objects, beq_iff_eq]
  | relativeHardcodingLib allowInTests =>
      simp only [Policy.appliesTo, Policy.isMatch, Policy.exempts, Bool.or_eq_true _ (_ && _),
        exempt_iff h, inLibrary_reference_iff h href, Objects, hrecognized, Bool.and_eq_true,
        beq_iff_eq, inTestDirectory_iff h, not_or, exists_and_left, exists_eq', and_true, and_assoc]
  | textualRelativeLib =>
      simp [Policy.appliesTo, Policy.isMatch, Policy.exempts, Text.contains_iff, Objects,
        hrecognized]
  | textualRelativePath =>
      simp [Policy.appliesTo, Policy.isMatch, Policy.exempts, Text.contains_iff, Objects,
        hrecognized]

end Situated

/-- The decision by texts is the decision of the table: for every root and file that have a
canonical form, a policy objects to a call exactly when the table does, on the places that the
canonical forms spell. -/
theorem evaluate_offense_iff_objects {rootPath filePath rootText fileText : Text}
    (hroot : normalize rootPath = some rootText) (hfile : normalize filePath = some fileText)
    (policy : Policy) (kind : Directive) (argument : Expr) :
    (policy.evaluate kind argument (.ofTexts rootPath filePath)).offense = true ↔
      Objects (.ofCanonical rootText) (.ofCanonical fileText) policy kind argument := by
  have h := situated_ofTexts hroot hfile
  rw [Policy.evaluate]
  cases href : Reference.ofExpr? argument with
  | none =>
      simp only [Decision.pass, Bool.false_eq_true, false_iff]
      intro hobjects
      obtain ⟨shape, text, hrecognized⟩ := recognized_of_objects h hobjects
      obtain ⟨reference, href', -⟩ := recognized_iff.mp hrecognized
      rw [href] at href'
      exact absurd href' (by simp)
  | some reference => exact decide_offense_iff_objects h policy kind href

/-- A detour from a file on a drive that ends in the library of the project. -/
theorem objects_to_detour_on_drive :
    normalize "C:/p/./x/.." = some "C:/p".toList ∧
      normalize "C://p/spec/a_spec.rb" = some "C:/p/spec/a_spec.rb".toList ∧
      Objects (.ofCanonical "C:/p") (.ofCanonical "C:/p/spec/a_spec.rb") .hardcodingLib .require
        (.concat (.dirname (.ident "here")) (.str "/x/./..//../lib/a")) := by
  have hroot : normalize "C:/p/./x/.." = some "C:/p".toList := by decide
  have hfile : normalize "C://p/spec/a_spec.rb" = some "C:/p/spec/a_spec.rb".toList := by decide
  refine ⟨hroot, hfile, ?_⟩
  exact (evaluate_offense_iff_objects hroot hfile .hardcodingLib .require _).mp (by decide)

end DecisionTable

end RequireLint
