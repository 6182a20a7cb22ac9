import RequireLint.Command.Check
import RequireLint.Proofs.Scan.Walk

/-!
# The files of a check

The paths of a check select files: a path to a file selects that file, whatever the filter says of
it, and a path to a directory selects what a scan of the directory finds.  All selected files are
checked in the order of their paths, each of them once.  So the files of a check depend on the set
of files that are selected, and not on how often, in which order or by which paths that is done.
-/

namespace RequireLint

namespace Scanner

variable {scanner : Scanner} {ws : Workspace} {place : Place}

/-- A path selects a file to be checked. -/
inductive Selects (scanner : Scanner) (ws : Workspace) (path : Text) : Place → Prop
  | file {place : Place} {content : FileContent}
      (hpath : ws.tree.locate ws.current path = .ok place)
      (hfile : ws.tree.file? place = some content) : Selects scanner ws path place
  | scanned {root below : Place} (hpath : ws.tree.locate ws.current path = .ok root)
      (hroot : ws.tree.node? root = some .directory) (hbelow : below ∈ scanner.scan ws root) :
      Selects scanner ws path (root ++ below)

theorem mem_filesAt_iff {path : Text} :
    place ∈ scanner.filesAt ws path ↔ scanner.Selects ws path place := by
  rw [filesAt]
  constructor
  · intro h
    split at h
    · simp at h
    next found hpath =>
      split at h
      next content hnode =>
        obtain rfl := List.mem_singleton.mp h
        exact .file hpath (FileTree.file?_eq_some.mpr hnode)
      next hnode =>
        obtain ⟨below, hbelow, rfl⟩ := List.mem_map.mp h
        exact .scanned hpath hnode hbelow
      next => simp at h
  · intro h
    cases h with
    | file hpath hfile =>
        simp only [hpath, FileTree.file?_eq_some.mp hfile]
        exact List.mem_singleton_self _
    | scanned hpath hroot hbelow =>
        simp only [hpath, hroot]
        exact List.mem_map_of_mem hbelow

theorem mem_collect_iff {paths : List Text} :
    place ∈ scanner.collect ws paths ↔ ∃ path ∈ paths, scanner.Selects ws path place := by
  rw [collect, Place.mem_distinct, Place.sorted, List.mem_mergeSort, List.mem_flatMap]
  simp only [mem_filesAt_iff]

theorem pairwise_collect (scanner : Scanner) (ws : Workspace) (paths : List Text) :
    (scanner.collect ws paths).Pairwise (· < ·) :=
  Place.pairwise_distinct (Place.pairwise_sorted _)

theorem Selects.exists_file (hws : ws.tree.WellFormed) {path : Text}
    (h : scanner.Selects ws path place) : ∃ content, ws.tree.file? place = some content := by
  cases h with
  | file hpath hfile => exact ⟨_, hfile⟩
  | scanned hpath hroot hbelow => exact exists_file_of_mem_scan hws hbelow

/-- The same selection makes the same list. -/
theorem collect_congr {paths paths' : List Text}
    (h : ∀ place, (∃ path ∈ paths', scanner.Selects ws path place) ↔
      ∃ path ∈ paths, scanner.Selects ws path place) :
    scanner.collect ws paths' = scanner.collect ws paths := by
  apply (pairwise_collect scanner ws paths').eq_of_mem_iff (pairwise_collect scanner ws paths)
  intro place
  rw [mem_collect_iff, mem_collect_iff]
  exact h place

/-! ## Main statement -/

/-- The files of a check are the selected ones.  Their paths are strictly increasing.  They stay
the same when paths are reordered or repeated, and whenever other paths select the same files, as
when one of them leads to a file that a scan finds anyway. -/
theorem collect_selected (ws : Workspace) (hws : ws.tree.WellFormed) (scanner : Scanner)
    (paths : List Text) :
    ((scanner.collect ws paths).map Place.toText).Pairwise Path.Lt ∧
    (∀ place, place ∈ scanner.collect ws paths ↔
      ∃ path ∈ paths, scanner.Selects ws path place) ∧
    (∀ paths', (∀ path, path ∈ paths' ↔ path ∈ paths) →
      scanner.collect ws paths' = scanner.collect ws paths) ∧
    ∀ paths', (∀ place, (∃ path ∈ paths', scanner.Selects ws path place) ↔
        ∃ path ∈ paths, scanner.Selects ws path place) →
      scanner.collect ws paths' = scanner.collect ws paths := by
  refine ⟨?_, fun place => mem_collect_iff, ?_, fun paths' h => collect_congr h⟩
  · have hnames : ∀ place ∈ scanner.collect ws paths, ∀ name ∈ place, Path.IsName name := by
      intro place hplace
      obtain ⟨path, -, hselects⟩ := mem_collect_iff.mp hplace
      obtain ⟨content, hfile⟩ := hselects.exists_file hws
      exact hws.isName_of_file? hfile
    apply List.pairwise_map.mpr
    apply (pairwise_collect scanner ws paths).imp_of_mem
    intro first second hfirst hsecond hlt
    exact (Path.lt_toText_iff (hnames first hfirst) (hnames second hsecond)).mpr hlt
  · intro paths' hpaths
    apply collect_congr
    intro place
    simp only [hpaths]

/-- A file that is named as well as found by a scan is checked once, together with one that only
its name selects. -/
theorem collect_selected_overlapping :
    let source : Place := ["p", "lib", "a.rb"]
    let note : Place := ["p", "a.md"]
    let tree : FileTree :=
      { entries := [(["p"], .directory), (note, .file (.text [])), (["p", "lib"], .directory),
          (source, .file (.text []))]
        nodup := by decide }
    let ws : Workspace := ⟨tree, ["p"], none, false, false, false⟩
    let scanner : Scanner := ⟨⟨["rb"], [], []⟩, true⟩
    tree.WellFormed ∧ scanner.filesAt ws "a.md" = [note] ∧ scanner.filesAt ws "." = [source] ∧
      scanner.collect ws ["lib/a.rb", "a.md", ".", "./lib//a.rb"] =
        scanner.collect ws ["a.md", "."] := by
  intro source note tree ws scanner
  have htree : tree.WellFormed := ⟨by decide, by decide, by decide⟩
  have hnamed : scanner.filesAt ws "lib/a.rb" = [source] := by decide +kernel
  have hspelled : scanner.filesAt ws "./lib//a.rb" = [source] := by decide +kernel
  have hscanned : scanner.filesAt ws "." = [source] := by decide +kernel
  refine ⟨htree, by decide +kernel, hscanned, ?_⟩
  apply (collect_selected ws htree scanner ["a.md", "."]).2.2.2
  intro place
  simp only [← mem_filesAt_iff, List.mem_cons, List.not_mem_nil, or_false, exists_eq_or_imp,
    exists_eq_left, hnamed, hspelled, hscanned]
  tauto

end Scanner

end RequireLint
