import RequireLint.Proofs.Command.Collection

/-!
# What a check writes

A check reads all files from the tree it is started in and writes the corrected ones when all have
been read.  It may as well treat them one after the other, in any order: the files of a check are
distinct, and no file is judged by the content of another one.  So a corrected file holds its
content after one round of corrections.  A file that cannot be written to keeps its content and is
passed over.

What can go wrong before the report is written goes wrong before the files are read.
-/

namespace RequireLint

open FileTree

/-! ## One file -/

/-- The text to write to a file that has been checked, if it was corrected. -/
def writtenText? : Except Failure FileResult → Option Text
  | .ok result => result.corrected
  | .error _ => none

/-- A file is to be corrected from one text to another: it can be read, it has an offense that can
be corrected, and the corrections of all its offenses are applied once. -/
structure Workspace.Corrects (ws : Workspace) (rules : RuleSet) (root : Option Text)
    (place : Place) (old new : Text) : Prop where
  read_eq : ws.tree.readPlace place = .ok old
  exists_correctable :
    ∃ offense ∈ rules.check (ws.rootFor root place.toText) place.toText old,
      offense.correction ≠ none
  new_eq : new = (Correction.applyAll old
    (rules.check (ws.rootFor root place.toText) place.toText old)).1

namespace Workspace

variable {ws : Workspace} {rules : RuleSet} {root : Option Text} {fix : Bool} {place : Place}
  {old new : Text}

theorem Corrects.file_eq (h : ws.Corrects rules root place old new) :
    ws.tree.file? place = some (.text old) :=
  (readPlace_eq_ok.mp h.read_eq).1

/-- A corrected text is written, and the check of the file fails if that is refused. -/
theorem checkFile_of_corrects (h : ws.Corrects rules root place old new) :
    ws.checkFile rules root true place =
      match ws.tree.writePlace place new with
      | .error cause => .error (.fileWrite place.toText cause)
      | .ok _ => .ok
          ⟨⟨place.toText, rules.check (ws.rootFor root place.toText) place.toText new,
            (Correction.applyAll old
              (rules.check (ws.rootFor root place.toText) place.toText old)).2⟩, some new⟩ := by
  obtain ⟨hread, ⟨offense, hoffense, hne⟩, rfl⟩ := h
  rw [checkFile, hread]
  apply if_pos
  rw [Bool.true_and, List.any_eq_true]
  exact ⟨offense, hoffense, Option.isSome_iff_ne_none.mpr hne⟩

theorem writtenText?_checkFile_of_not_corrects
    (h : ∀ old new, fix = true → ¬ ws.Corrects rules root place old new) :
    writtenText? (ws.checkFile rules root fix place) = none := by
  rw [checkFile]
  cases hread : ws.tree.readPlace place with
  | error cause => rfl
  | ok old =>
      dsimp only
      split
      next hcorrect =>
        rw [Bool.and_eq_true, List.any_eq_true] at hcorrect
        obtain ⟨hfix, offense, hoffense, hsome⟩ := hcorrect
        refine absurd ⟨hread, ?_, rfl⟩ (h old _ hfix)
        exact ⟨offense, hoffense, Option.isSome_iff_ne_none.mp hsome⟩
      next => rfl

theorem writtenText?_checkFile_iff :
    writtenText? (ws.checkFile rules root fix place) = some new ↔
      fix = true ∧ ws.tree.writeRefusal place = none ∧
        ∃ old, ws.Corrects rules root place old new := by
  by_cases hcorrects : ∃ old text, fix = true ∧ ws.Corrects rules root place old text
  · obtain ⟨old, text, rfl, hcorrects⟩ := hcorrects
    have hunique : ∀ old', ws.Corrects rules root place old' new → text = new := by
      intro old' hcorrects'
      have hsame : old = old' :=
        Except.ok.inj (hcorrects.read_eq.symm.trans hcorrects'.read_eq)
      rw [hcorrects.new_eq, hcorrects'.new_eq, hsame]
    rw [checkFile_of_corrects hcorrects]
    cases hrefusal : ws.tree.writeRefusal place with
    | some cause => simp [writePlace_of_refusal hrefusal, writtenText?]
    | none =>
        simp only [writePlace_of_no_refusal hrefusal, writtenText?, true_and, Option.some.injEq]
        constructor
        · rintro rfl
          exact ⟨old, hcorrects⟩
        · rintro ⟨old', hcorrects'⟩
          exact hunique old' hcorrects'
  · rw [writtenText?_checkFile_of_not_corrects fun old text hfix h =>
      hcorrects ⟨old, text, hfix, h⟩]
    apply iff_of_false
    · simp
    · rintro ⟨hfix, -, old, h⟩
      exact hcorrects ⟨old, new, hfix, h⟩

/-- A workspace in which the files may have changed. -/
def withTree (ws : Workspace) (tree : FileTree) : Workspace := { ws with tree := tree }

section Congr

variable {tree : FileTree} (hshape : tree.SameShape ws.tree)
include hshape

theorem rootFor_withTree (root : Option Text) (path : Text) :
    (ws.withTree tree).rootFor root path = ws.rootFor root path := by
  have hmarker : (ws.withTree tree).hasMarker = ws.hasMarker := by
    funext dir
    simp only [hasMarker, withTree, contains_congr hshape.directory?_eq]
  cases root with
  | none => rw [rootFor, rootFor, projectRoot, projectRoot, hmarker]; rfl
  | some root => simp only [rootFor, withTree, absolute, resolve_congr hshape.directory?_eq]

/-- The check of a file depends on its content and on which files and directories there are. -/
theorem checkFile_withTree (hplace : tree.node? place = ws.tree.node? place) :
    (ws.withTree tree).checkFile rules root fix place = ws.checkFile rules root fix place := by
  have hread : (ws.withTree tree).tree.readPlace place = ws.tree.readPlace place :=
    readPlace_congr hshape hplace
  rw [checkFile, checkFile, hread, rootFor_withTree hshape]
  simp only [withTree, writePlace, hshape.writeRefusal_eq]
  cases ws.tree.writeRefusal place <;> rfl

end Congr

end Workspace

/-! ## All files -/

/-- A tree after the result of one file has been written to it. -/
def FileTree.putResult (tree : FileTree) (place : Place) (result : Except Failure FileResult) :
    FileTree :=
  match writtenText? result with
  | some text => (tree.writePlace place text).toOption.getD tree
  | none => tree

/-- Writing a result puts a text somewhere, or it changes nothing. -/
theorem FileTree.putResult_cases (tree : FileTree) (place : Place)
    (result : Except Failure FileResult) :
    tree.putResult place result = tree ∨
      ∃ text, tree.putResult place result = tree.put place (.file (.text text)) := by
  rw [putResult]
  cases writtenText? result with
  | none => exact .inl rfl
  | some text =>
      dsimp only
      cases hwrite : tree.writePlace place text with
      | error cause => exact .inl rfl
      | ok written => exact .inr ⟨text, eq_put_of_writePlace_eq_ok hwrite⟩

theorem FileTree.refusals_putResult (tree : FileTree) (place : Place)
    (result : Except Failure FileResult) :
    (tree.putResult place result).readRefusal = tree.readRefusal ∧
      (tree.putResult place result).writeRefusal = tree.writeRefusal := by
  rcases tree.putResult_cases place result with h | ⟨text, h⟩
  · simp [h]
  · simp [h]

theorem CheckResults.writeTo_cons (place : Place) (result : Except Failure FileResult)
    (results : CheckResults) (tree : FileTree) :
    writeTo ((place, result) :: results) tree = writeTo results (tree.putResult place result) := by
  rcases result with cause | ⟨report, _ | text⟩ <;> rfl

namespace Workspace

variable {ws : Workspace} {rules : RuleSet} {root : Option Text} {fix : Bool}

/-- What stands at a place when its file has been checked: the corrected text, else what was
there. -/
def checkedNode? (ws : Workspace) (rules : RuleSet) (root : Option Text) (fix : Bool)
    (tree : FileTree) (place : Place) : Option Node :=
  match writtenText? (ws.checkFile rules root fix place) with
  | some text => some (.file (.text text))
  | none => tree.node? place

theorem file?_of_written {place : Place} {new : Text}
    (h : writtenText? (ws.checkFile rules root fix place) = some new) :
    ∃ old, ws.tree.file? place = some old := by
  obtain ⟨-, -, old, hcorrects⟩ := writtenText?_checkFile_iff.mp h
  exact ⟨.text old, hcorrects.file_eq⟩

section Writing

variable {tree : FileTree} (hrefusal : tree.writeRefusal = ws.tree.writeRefusal)
include hrefusal

/-- What has been checked well can be written. -/
theorem putResult_of_written {place : Place} {new : Text}
    (h : writtenText? (ws.checkFile rules root fix place) = some new) :
    tree.putResult place (ws.checkFile rules root fix place) =
      tree.put place (.file (.text new)) := by
  obtain ⟨-, hallowed, -⟩ := writtenText?_checkFile_iff.mp h
  rw [putResult, h]
  simp only [writePlace_of_no_refusal (hrefusal ▸ hallowed)]
  rfl

theorem node?_putResult (place p : Place) :
    (tree.putResult place (ws.checkFile rules root fix place)).node? p =
      if p = place then ws.checkedNode? rules root fix tree p else tree.node? p := by
  rw [checkedNode?]
  cases hwritten : writtenText? (ws.checkFile rules root fix place) with
  | none =>
      rw [putResult, hwritten]
      by_cases hp : p = place
      · rw [if_pos hp, hp, hwritten]
      · rw [if_neg hp]
  | some new =>
      obtain ⟨old, hold⟩ := file?_of_written hwritten
      rw [putResult_of_written hrefusal hwritten, node?_put]
      by_cases hp : p = place
      · rw [if_pos hp, hp, hwritten, if_pos ⟨ne_nil_of_file? hold, rfl⟩]
      · rw [if_neg hp, if_neg fun h => hp h.2]

theorem node?_writeTo (places : List Place) (p : Place) :
    (CheckResults.writeTo (places.map fun place =>
        (place, ws.checkFile rules root fix place)) tree).node? p =
      if p ∈ places then ws.checkedNode? rules root fix tree p else tree.node? p := by
  induction places generalizing tree with
  | nil => rfl
  | cons place places ih =>
      have hrest := (refusals_putResult tree place (ws.checkFile rules root fix place)).2
      rw [List.map_cons, CheckResults.writeTo_cons, ih (hrest.trans hrefusal), checkedNode?,
        node?_putResult hrefusal]
      simp only [List.mem_cons]
      by_cases hp : p = place
      · simp only [hp, if_true, true_or, checkedNode?]
        split
        · split <;> rfl
        · rfl
      · simp only [hp, if_false, false_or, checkedNode?]

end Writing

/-! ## One file after the other -/

/-- The file at a place is read and checked, and written if it was corrected. -/
def treat (rules : RuleSet) (root : Option Text) (fix : Bool) (ws : Workspace) (place : Place) :
    Workspace :=
  ws.withTree (ws.tree.putResult place (ws.checkFile rules root fix place))

theorem node?_treat (place p : Place) :
    (ws.treat rules root fix place).tree.node? p =
      if p = place then ws.checkedNode? rules root fix ws.tree p else ws.tree.node? p :=
  node?_putResult rfl place p

theorem sameShape_treat (place : Place) :
    (ws.treat rules root fix place).tree.SameShape ws.tree := by
  obtain ⟨hread, hwrite⟩ :=
    ws.tree.refusals_putResult place (ws.checkFile rules root fix place)
  refine ⟨?_, hread, hwrite⟩
  intro p
  rw [directory?, directory?, node?_treat]
  split
  next hp =>
    rw [checkedNode?]
    split
    next hwritten =>
      obtain ⟨old, hold⟩ := file?_of_written hwritten
      rw [file?_eq_some.mp hold]
      rfl
    next => rfl
  next => rfl

/-- The treatment of one file makes no difference to that of another one. -/
theorem checkFile_treat {place p : Place} (hp : p ≠ place) :
    (ws.treat rules root fix place).checkFile rules root fix p =
      ws.checkFile rules root fix p := by
  apply checkFile_withTree (sameShape_treat place)
  show (ws.treat rules root fix place).tree.node? p = ws.tree.node? p
  rw [node?_treat, if_neg hp]

/-- Files that are treated one after the other are treated as if each were the first. -/
theorem node?_foldl_treat {places : List Place} (hplaces : places.Nodup) (p : Place) :
    (places.foldl (treat rules root fix) ws).tree.node? p =
      if p ∈ places then ws.checkedNode? rules root fix ws.tree p else ws.tree.node? p := by
  induction places generalizing ws with
  | nil => rfl
  | cons place places ih =>
      obtain ⟨hfirst, hplaces⟩ := List.nodup_cons.mp hplaces
      rw [List.foldl_cons, ih hplaces]
      by_cases hp : p = place
      · rw [hp, if_neg hfirst, node?_treat, if_pos rfl, if_pos List.mem_cons_self]
      · rw [checkedNode?, checkFile_treat hp, node?_treat, if_neg hp]
        simp only [List.mem_cons, hp, false_or, checkedNode?]

end Workspace

/-! ## A whole check -/

/-- Whether a failure is one of those that come before anything is written. -/
def Failure.precedesWriting : Failure → Bool
  | .config _ | .tomlParse | .unknownRule _ | .invalidPattern _ _ | .fileRead _ _ => true
  | .fileWrite _ _ | .io _ => false

theorem Scanner.nodup_collect (scanner : Scanner) (ws : Workspace) (paths : List Text) :
    (scanner.collect ws paths).Nodup :=
  Place.nodup_distinct_sorted _

namespace CheckOptions

/-- The rules and the scanner that a check comes to use. -/
def Settles (options : CheckOptions) (ws : Workspace) (call : Invocation) (rules : RuleSet)
    (scanner : Scanner) : Prop :=
  ∃ config, options.settle ws call = .ok (config, rules) ∧ options.scanner config = .ok scanner

/-- A check is to put a corrected text in the place of a file: that is asked for, the file is
among those it selects, and there is something to correct. -/
def IsToRewrite (options : CheckOptions) (ws : Workspace) (call : Invocation) (place : Place)
    (new : Text) : Prop :=
  ∃ rules scanner old, options.Settles ws call rules scanner ∧ options.fix = true ∧
    place ∈ scanner.collect ws options.paths ∧ ws.Corrects rules options.root place old new

/-- A check puts a corrected text in the place of a file: it is to do that, and the tree does not
refuse it. -/
def Rewrites (options : CheckOptions) (ws : Workspace) (call : Invocation) (place : Place)
    (new : Text) : Prop :=
  options.IsToRewrite ws call place new ∧ ws.tree.writeRefusal place = none

/-- The place of the file that the report of a check goes to. -/
def IsReport (options : CheckOptions) (ws : Workspace) (place : Place) : Prop :=
  ∃ path ∈ options.output, place = Place.named ws.current path

/-! ### The report -/

theorem file?_makeReportDirectory (tree : FileTree) (current : Place) (path : Text)
    (place : Place) : (makeReportDirectory tree current path).1.file? place = tree.file? place := by
  rw [makeReportDirectory]
  split
  · rfl
  · rfl
  · exact file?_makeAlong _ _ _ _ _

/-- The report is written to its own place and nowhere else. -/
theorem file?_writeReport {tree : FileTree} {current place : Place} {path : Text}
    (hplace : place ≠ Place.named current path) (report : Text) :
    (writeReport tree current path report).1.file? place = tree.file? place := by
  rw [← file?_makeReportDirectory tree current path place, writeReport]
  rcases makeReportDirectory tree current path with ⟨made, _ | cause⟩
  · cases hwrite : made.write current path report with
    | ok written =>
        simp only [hwrite]
        exact file?_congr (node?_of_write_eq_ok hwrite hplace)
    | error cause => simp only [hwrite]
  · rfl

theorem precedesWriting_of_writeReport {tree : FileTree} {current : Place} {path report : Text}
    {failure : Failure} (h : (writeReport tree current path report).2 = some failure) :
    failure.precedesWriting = false := by
  rw [writeReport] at h
  split at h
  · obtain rfl := Option.some.inj h
    rfl
  · split at h
    · simp at h
    · obtain rfl := Option.some.inj h
      rfl

/-! ### The steps of a check -/

variable {options : CheckOptions} {ws : Workspace} {call : Invocation} {rules : RuleSet}
  {scanner : Scanner} {place : Place}

/-- A check settles on rules and a scanner, or it fails and leaves the tree as it is. -/
theorem attempt_cases (options : CheckOptions) (ws : Workspace) (call : Invocation) :
    ((options.attempt ws call).tree = ws.tree ∧
        ∀ rules scanner, ¬ options.Settles ws call rules scanner) ∨
      ∃ rules scanner warnings, options.Settles ws call rules scanner ∧
        options.attempt ws call = options.attemptWith ws call rules scanner warnings := by
  rw [attempt]
  cases hsettle : options.settle ws call with
  | error failure =>
      refine .inl ⟨rfl, ?_⟩
      rintro rules scanner ⟨config, hsettled, -⟩
      simp [hsettle] at hsettled
  | ok settled =>
      obtain ⟨config, rules⟩ := settled
      dsimp only
      cases hscanner : options.scanner config with
      | error failure =>
          refine .inl ⟨rfl, ?_⟩
          rintro rules' scanner ⟨config', hsettled, hother⟩
          rw [hsettle] at hsettled
          obtain ⟨rfl, rfl⟩ := Prod.mk.inj (Except.ok.inj hsettled)
          simp [hscanner] at hother
      | ok scanner => exact .inr ⟨rules, scanner, _, ⟨config, hsettle, hscanner⟩, rfl⟩

theorem Settles.unique {rules' : RuleSet} {scanner' : Scanner}
    (h : options.Settles ws call rules scanner) (h' : options.Settles ws call rules' scanner') :
    rules = rules' ∧ scanner = scanner' := by
  obtain ⟨config, hsettle, hscanner⟩ := h
  obtain ⟨config', hsettle', hscanner'⟩ := h'
  rw [hsettle] at hsettle'
  obtain ⟨rfl, rfl⟩ := Prod.mk.inj (Except.ok.inj hsettle')
  rw [hscanner] at hscanner'
  exact ⟨rfl, Except.ok.inj hscanner'⟩

/-- Apart from the report, a check leaves what its results say. -/
theorem file?_attemptWith (hreport : ¬ options.IsReport ws place) (warnings : Text) :
    (options.attemptWith ws call rules scanner warnings).tree.file? place =
      ((options.results ws rules scanner).writeTo ws.tree).file? place := by
  rw [attemptWith]
  cases houtput : options.output with
  | none => rfl
  | some path =>
      apply file?_writeReport
      intro heq
      exact hreport ⟨path, houtput, heq⟩

/-- Once the files have been read, only writing the report can fail. -/
theorem precedesWriting_of_attemptWith {warnings : Text} {failure : Failure}
    (h : (options.attemptWith ws call rules scanner warnings).result = .error failure) :
    failure.precedesWriting = false := by
  have helim : ∀ {problem : Option Failure} {code : Nat},
      problem.elim (.ok code) .error = Except.error failure → problem = some failure := by
    intro problem code heq
    cases problem with
    | none => simp at heq
    | some other => simpa using heq
  rw [attemptWith] at h
  cases houtput : options.output with
  | none => simp [houtput] at h
  | some path =>
      rw [houtput] at h
      exact precedesWriting_of_writeReport (helim h)

/-- The results of a check are those of treating its files one after the other. -/
theorem node?_results {order : List Place}
    (horder : order.Perm (scanner.collect ws options.paths)) (place : Place) :
    ((options.results ws rules scanner).writeTo ws.tree).node? place =
      (order.foldl (Workspace.treat rules options.root options.fix) ws).tree.node? place := by
  have hnodup := horder.nodup_iff.mpr (scanner.nodup_collect ws options.paths)
  rw [results, Workspace.node?_writeTo rfl, Workspace.node?_foldl_treat hnodup]
  simp only [horder.mem_iff]

theorem file?_results_of_corrects {old new : Text} (hfix : options.fix = true)
    (hmem : place ∈ scanner.collect ws options.paths)
    (hcorrects : ws.Corrects rules options.root place old new)
    (hallowed : ws.tree.writeRefusal place = none) :
    ((options.results ws rules scanner).writeTo ws.tree).file? place = some (.text new) := by
  have hwritten := Workspace.writtenText?_checkFile_iff.mpr ⟨hfix, hallowed, old, hcorrects⟩
  rw [file?_eq_some, results, Workspace.node?_writeTo rfl, if_pos hmem, Workspace.checkedNode?,
    hwritten]

theorem file?_results_of_not_corrects
    (h : ∀ old new, options.fix = true → place ∈ scanner.collect ws options.paths →
      ws.tree.writeRefusal place = none → ¬ ws.Corrects rules options.root place old new) :
    ((options.results ws rules scanner).writeTo ws.tree).file? place = ws.tree.file? place := by
  apply file?_congr
  rw [results, Workspace.node?_writeTo rfl]
  split
  next hmem =>
    rw [Workspace.checkedNode?]
    split
    next new hwritten =>
      obtain ⟨hfix, hallowed, old, hcorrects⟩ := Workspace.writtenText?_checkFile_iff.mp hwritten
      exact absurd hcorrects (h old new hfix hmem hallowed)
    next => rfl
  next => rfl

/-- A file whose correction is refused is passed over. -/
theorem mem_skipped_results {old new : Text} {cause : FileError} (hfix : options.fix = true)
    (hmem : place ∈ scanner.collect ws options.paths)
    (hcorrects : ws.Corrects rules options.root place old new)
    (hrefusal : ws.tree.writeRefusal place = some cause) :
    (place, .fileWrite place.toText cause) ∈ (options.results ws rules scanner).skipped := by
  rw [CheckResults.skipped, List.mem_filterMap, results]
  refine ⟨_, List.mem_map_of_mem hmem, ?_⟩
  rw [hfix, Workspace.checkFile_of_corrects hcorrects]
  simp only [writePlace_of_refusal hrefusal]

/-- Every file that is passed over has its warning. -/
theorem warning_infix_attemptWith {entry : Place × Failure}
    (h : entry ∈ (options.results ws rules scanner).skipped) (warnings : Text) :
    ws.warning (passedOver ws entry) <:+:
      (options.attemptWith ws call rules scanner warnings).err := by
  obtain ⟨before, after, hsplit⟩ := List.append_of_mem h
  have herr : (options.attemptWith ws call rules scanner warnings).err =
      warnings ++ options.missingPaths ws ++
        (options.results ws rules scanner).skipped.flatMap fun entry =>
          ws.warning (passedOver ws entry) := by
    rw [attemptWith]
    cases options.output <;> rfl
  rw [herr, hsplit, List.flatMap_append, List.flatMap_cons, ← List.append_assoc,
    ← List.append_assoc]
  exact List.infix_append _ _ _

/-! ### Main statement -/

/-- A check changes a file only if it is the report, or if it is among the selected files, is to
be corrected and can be written to; it then holds its content after one round of corrections, in
whatever order the files are treated.  A file that cannot be written to is warned about.  If the
check fails before the report is written, the tree stays as it is. -/
theorem attempt_writes (options : CheckOptions) (ws : Workspace) (call : Invocation) :
    (∀ place, ¬ options.IsReport ws place →
      (∀ new, options.Rewrites ws call place new →
        (options.attempt ws call).tree.file? place = some (.text new)) ∧
      ((∀ new, ¬ options.Rewrites ws call place new) →
        (options.attempt ws call).tree.file? place = ws.tree.file? place) ∧
      ∀ rules scanner (order : List Place), options.Settles ws call rules scanner →
        order.Perm (scanner.collect ws options.paths) →
        (options.attempt ws call).tree.file? place =
          (order.foldl (Workspace.treat rules options.root options.fix) ws).tree.file? place) ∧
    (∀ place new cause, options.IsToRewrite ws call place new →
      ws.tree.writeRefusal place = some cause →
      ws.warning (passedOver ws (place, .fileWrite place.toText cause)) <:+:
        (options.attempt ws call).err) ∧
    ∀ failure, (options.attempt ws call).result = .error failure →
      failure.precedesWriting = true → (options.attempt ws call).tree = ws.tree := by
  rcases attempt_cases options ws call with
    ⟨htree, hnone⟩ | ⟨rules, scanner, warnings, hsettles, hattempt⟩
  · have hidle : ∀ place new, ¬ options.IsToRewrite ws call place new := by
      rintro place new ⟨rules, scanner, -, hsettles, -⟩
      exact hnone rules scanner hsettles
    refine ⟨?_, ?_, fun _ _ _ => htree⟩
    · intro place _
      refine ⟨?_, ?_, ?_⟩
      · intro new hrewrites
        exact absurd hrewrites.1 (hidle place new)
      · intro _
        rw [htree]
      · intro rules scanner _ hsettles
        exact absurd hsettles (hnone rules scanner)
    · intro place new _ hrewrite
      exact absurd hrewrite (hidle place new)
  · rw [hattempt]
    refine ⟨?_, ?_, ?_⟩
    · intro place hreport
      rw [file?_attemptWith hreport]
      refine ⟨?_, ?_, ?_⟩
      · rintro new ⟨⟨rules', scanner', old, hsettles', hfix, hmem, hcorrects⟩, hallowed⟩
        obtain ⟨rfl, rfl⟩ := hsettles.unique hsettles'
        exact file?_results_of_corrects hfix hmem hcorrects hallowed
      · intro hkept
        apply file?_results_of_not_corrects
        intro old new hfix hmem hallowed hcorrects
        exact hkept new ⟨⟨rules, scanner, old, hsettles, hfix, hmem, hcorrects⟩, hallowed⟩
      · intro rules' scanner' order hsettles' horder
        obtain ⟨rfl, rfl⟩ := hsettles.unique hsettles'
        exact file?_congr (node?_results horder place)
    · rintro place new cause ⟨rules', scanner', old, hsettles', hfix, hmem, hcorrects⟩ hrefusal
      obtain ⟨rfl, rfl⟩ := hsettles.unique hsettles'
      exact warning_infix_attemptWith (mem_skipped_results hfix hmem hcorrects hrefusal) warnings
    · intro failure hfailure hprecedes
      rw [precedesWriting_of_attemptWith hfailure] at hprecedes
      exact absurd hprecedes (by decide)

/-- Of a scanned file and a named one, both with something to correct, the one that cannot be
written to keeps its content.  The report goes to a file as well. -/
theorem attempt_writes_scanned_spec :
    let place : Place := ["p", "spec", "a_spec.rb"]
    let guarded : Place := ["p", "test", "b_test.rb"]
    let content : FileContent := .text "require '../lib/a'\n"
    let tree : FileTree :=
      { entries := [(["p"], .directory), (["p", "Gemfile"], .file (.text [])),
          (["p", "spec"], .directory), (place, .file content), (["p", "test"], .directory),
          (guarded, .file content)]
        nodup := by decide
        writeRefusal := fun p => if p = guarded then some .denied else none }
    let ws : Workspace := ⟨tree, ["p"], none, false, false, false⟩
    let options : CheckOptions :=
      ⟨["spec", "test/b_test.rb"], none, none, true, .text, some "report.txt", [], [], [], false⟩
    let call : Invocation := ⟨0, true, true, .never, .check options⟩
    (options.attempt ws call).tree.file? place = some (.text "require \"a\"\n") ∧
      (options.attempt ws call).tree.file? guarded = some content ∧
      ws.warning (passedOver ws (guarded, .fileWrite "/p/test/b_test.rb" .denied)) <:+:
        (options.attempt ws call).err := by
  intro place guarded content tree ws options call
  have hsettles : options.Settles ws call .default
      ⟨⟨ScannerConfig.default.extensions, ScannerConfig.default.fileNames, []⟩, true⟩ :=
    ⟨.default, rfl, rfl⟩
  have hreport : ∀ p : Place, p ≠ ["p", "report.txt"] → ¬ options.IsReport ws p := by
    rintro p hp ⟨path, hpath, hplace⟩
    obtain rfl := Option.some.inj hpath
    exact hp (hplace.trans (by decide +kernel))
  have hplace : options.IsToRewrite ws call place "require \"a\"\n" := by
    refine ⟨_, _, "require '../lib/a'\n", hsettles, rfl, ?_, rfl, ?_, ?_⟩
    · exact Scanner.mem_collect_iff.mpr
        ⟨"spec", by decide, Scanner.mem_filesAt_iff.mp (by decide +kernel)⟩
    · decide +kernel
    · decide +kernel
  have hguarded : options.IsToRewrite ws call guarded "require \"a\"\n" := by
    refine ⟨_, _, "require '../lib/a'\n", hsettles, rfl, ?_, rfl, ?_, ?_⟩
    · exact Scanner.mem_collect_iff.mpr
        ⟨"test/b_test.rb", by decide, Scanner.mem_filesAt_iff.mp (by decide +kernel)⟩
    · decide +kernel
    · decide +kernel
  obtain ⟨hfiles, hwarned, -⟩ := attempt_writes options ws call
  refine ⟨(hfiles place (hreport _ (by decide))).1 _ ⟨hplace, by decide⟩, ?_, ?_⟩
  · apply (hfiles guarded (hreport _ (by decide))).2.1
    rintro new ⟨-, hallowed⟩
    exact absurd hallowed (by decide)
  · exact hwarned guarded _ .denied hguarded (by decide)

end CheckOptions

end RequireLint
