import Mathlib.Data.List.Sort
import RequireLint.Proofs.File.Walk
import RequireLint.Proofs.Path.Order
import RequireLint.Scan.Walk

/-!
# What a scan finds

The two kinds of scan walk through a tree in different ways.  Without a look at ignore files a scan
finds all files that have no name of the version control on their way and that the filter accepts.
Ignore files take some of these away and change nothing else.
-/

namespace RequireLint

/-! ## Ignore files on the way -/

/-- An ignore file has a scan of `root` turn away on the way to the file `below` it. -/
def Workspace.Ignores (ws : Workspace) (root below : Place) : Prop :=
  ∃ lead node, lead ≠ [] ∧ lead <+: below ∧ ws.tree.node? (root ++ lead) = some node ∧
    ws.verdict? Scanner.ignoreSettings root lead (node = .directory) = some .ignored

namespace Workspace

variable {ws : Workspace} {settings : IgnoreSettings} {root : Place} {entry : WalkEntry}

theorem passesOver_iff (hhidden : settings.hidden = false) :
    ws.passesOver settings root entry = true ↔
      ws.verdict? settings root entry.below (entry.node = .directory) = some .ignored := by
  rw [passesOver]
  split
  next verdict hverdict => simp [hverdict]
  next hverdict => simp [hverdict, hhidden]

end Workspace

namespace Scanner

variable {scanner : Scanner} {ws : Workspace} {root below : Place}

/-! ## The files of a walk -/

theorem listed?_eq_some {entry : WalkEntry} :
    scanner.listed? entry = some below ↔
      entry.below = below ∧ scanner.filter.accepts below.toRelative = true ∧
        ∃ content, entry.node = .file content := by
  rw [listed?]
  cases entry.node with
  | directory => simp
  | file content =>
      rw [Option.ite_none_right_eq_some, Option.some.injEq]
      constructor
      · rintro ⟨haccepts, rfl⟩
        exact ⟨rfl, haccepts, content, rfl⟩
      · rintro ⟨rfl, haccepts, -⟩
        exact ⟨haccepts, rfl⟩

theorem mem_accepted_iff {entries : List WalkEntry} :
    below ∈ scanner.accepted entries ↔
      scanner.filter.accepts below.toRelative = true ∧
        ∃ content, ⟨below, .file content⟩ ∈ entries := by
  rw [accepted, List.mem_filterMap]
  constructor
  · rintro ⟨⟨found, node⟩, hmem, hlisted⟩
    obtain ⟨rfl, haccepts, content, rfl⟩ := listed?_eq_some.mp hlisted
    exact ⟨haccepts, content, hmem⟩
  · rintro ⟨haccepts, content, hmem⟩
    exact ⟨_, hmem, listed?_eq_some.mpr ⟨rfl, haccepts, content, rfl⟩⟩

theorem nodup_accepted {entries : List WalkEntry} (h : (entries.map WalkEntry.below).Nodup) :
    (scanner.accepted entries).Nodup := by
  apply (List.pairwise_map.mp h).filterMap
  rintro entry entry' hne found hlisted found' hlisted' rfl
  exact hne ((listed?_eq_some.mp hlisted).1.trans (listed?_eq_some.mp hlisted').1.symm)

theorem isVersionControl_iff {entry : WalkEntry} (hbelow : entry.below ≠ []) :
    isVersionControl root entry = true ↔ entry.below.getLast? = some versionControlName := by
  simp [isVersionControl, List.getLast?_append, hbelow]

/-- A path has no name of the version control if no part of the way along it ends in one. -/
theorem versionControlName_not_mem_iff (hws : ws.tree.WellFormed) {node : Node}
    (hnode : ws.tree.node? (root ++ below) = some node) :
    versionControlName ∉ below ↔
      ∀ lead node, lead <+: below → ws.tree.node? (root ++ lead) = some node → lead ≠ [] →
        isVersionControl root ⟨lead, node⟩ = false := by
  constructor
  · intro hnot lead node hlead _ hne
    rw [← Bool.not_eq_true, isVersionControl_iff hne]
    intro hlast
    exact hnot (hlead.mem (List.mem_of_getLast? hlast))
  · intro hall hmem
    obtain ⟨before, after, rfl⟩ := List.append_of_mem hmem
    have hlead : before ++ [versionControlName] <+: before ++ versionControlName :: after :=
      ⟨after, by simp⟩
    obtain ⟨node, hstands⟩ := hws.exists_node?_of_prefix hnode
      ((List.prefix_append_right_inj root).mpr hlead)
    have hother := hall _ node hlead hstands (by simp)
    rw [← Bool.not_eq_true, isVersionControl_iff (by simp)] at hother
    simp at hother

/-! ## The files of a scan -/

theorem mem_accepted_walk_iff (hws : ws.tree.WellFormed) {keeps : WalkEntry → Bool} :
    below ∈ scanner.accepted (ws.tree.walk root keeps) ↔
      (∃ content, ws.tree.file? (root ++ below) = some content) ∧
        scanner.filter.accepts below.toRelative = true ∧
          ∀ lead node, lead <+: below → ws.tree.node? (root ++ lead) = some node →
            keeps ⟨lead, node⟩ = true := by
  simp only [mem_accepted_iff, FileTree.mem_walk_iff hws, FileTree.file?_eq_some,
    exists_and_right]
  exact and_left_comm

theorem mem_scanPlainly_iff (hws : ws.tree.WellFormed) :
    below ∈ scanner.scanPlainly ws root ↔
      (∃ content, ws.tree.file? (root ++ below) = some content) ∧
        scanner.filter.accepts below.toRelative = true ∧ versionControlName ∉ below := by
  rw [scanPlainly, mem_accepted_walk_iff hws]
  apply and_congr_right
  rintro ⟨content, hfile⟩
  rw [versionControlName_not_mem_iff hws (FileTree.file?_eq_some.mp hfile)]
  simp only [Bool.or_eq_true, beq_iff_eq, List.length_eq_zero_iff, Bool.not_eq_true',
    or_iff_not_imp_left, ne_eq]

/-- On the way of a scan that respects ignore files, what is kept is neither of the version
control nor ignored. -/
theorem forall_kept_iff (hws : ws.tree.WellFormed) {node : Node}
    (hnode : ws.tree.node? (root ++ below) = some node) :
    (∀ lead node, lead <+: below → ws.tree.node? (root ++ lead) = some node →
        (lead.isEmpty || (!ws.passesOver ignoreSettings root ⟨lead, node⟩ &&
          !isVersionControl root ⟨lead, node⟩)) = true) ↔
      versionControlName ∉ below ∧ ¬ ws.Ignores root below := by
  have hcontrol := versionControlName_not_mem_iff hws hnode
  have hpassed : ∀ entry, ws.passesOver ignoreSettings root entry = true ↔
      ws.verdict? ignoreSettings root entry.below (entry.node = .directory) = some .ignored :=
    fun entry => Workspace.passesOver_iff rfl
  constructor
  · intro hall
    have hkept : ∀ lead node, lead <+: below → ws.tree.node? (root ++ lead) = some node →
        lead ≠ [] → ws.passesOver ignoreSettings root ⟨lead, node⟩ = false ∧
          isVersionControl root ⟨lead, node⟩ = false := by
      intro lead node hlead hstands hne
      simpa [hne] using hall lead node hlead hstands
    refine ⟨hcontrol.mpr fun lead node hlead hstands hne =>
      (hkept lead node hlead hstands hne).2, ?_⟩
    rintro ⟨lead, node, hne, hlead, hstands, hverdict⟩
    have hspared := (hkept lead node hlead hstands hne).1
    rw [(hpassed ⟨lead, node⟩).mpr hverdict] at hspared
    simp at hspared
  · rintro ⟨hnot, hspared⟩ lead node hlead hstands
    by_cases hne : lead = []
    · simp [hne]
    · have hpast : ws.passesOver ignoreSettings root ⟨lead, node⟩ = false := by
        rw [← Bool.not_eq_true, hpassed]
        intro hverdict
        exact hspared ⟨lead, node, hne, hlead, hstands, hverdict⟩
      simp [hpast, hcontrol.mp hnot lead node hlead hstands hne]

theorem mem_scanRespectfully_iff (hws : ws.tree.WellFormed) :
    below ∈ scanner.scanRespectfully ws root ↔
      (∃ content, ws.tree.file? (root ++ below) = some content) ∧
        scanner.filter.accepts below.toRelative = true ∧ versionControlName ∉ below ∧
          ¬ ws.Ignores root below := by
  rw [scanRespectfully, Workspace.respectingWalk, mem_accepted_walk_iff hws]
  apply and_congr_right
  rintro ⟨content, hfile⟩
  apply and_congr_right
  intro _
  exact forall_kept_iff hws (FileTree.file?_eq_some.mp hfile)

variable {filter : FileFilter}

theorem mem_scan_plain_iff (hws : ws.tree.WellFormed) :
    below ∈ scan ⟨filter, false⟩ ws root ↔
      (∃ content, ws.tree.file? (root ++ below) = some content) ∧
        filter.accepts below.toRelative = true ∧ versionControlName ∉ below := by
  have hplain : below ∈ scan ⟨filter, false⟩ ws root ↔
      below ∈ scanPlainly ⟨filter, false⟩ ws root := List.mem_mergeSort
  rw [hplain, mem_scanPlainly_iff hws]

/-- Ignore files take away what they have the scan turn away from, and nothing else. -/
theorem mem_scan_respecting_iff (hws : ws.tree.WellFormed) :
    below ∈ scan ⟨filter, true⟩ ws root ↔
      below ∈ scan ⟨filter, false⟩ ws root ∧ ¬ ws.Ignores root below := by
  have hrespecting : below ∈ scan ⟨filter, true⟩ ws root ↔
      below ∈ scanRespectfully ⟨filter, true⟩ ws root := List.mem_mergeSort
  rw [hrespecting, mem_scanRespectfully_iff hws, mem_scan_plain_iff hws, and_assoc, and_assoc]

theorem exists_file_of_mem_scan (hws : ws.tree.WellFormed) (h : below ∈ scanner.scan ws root) :
    ∃ content, ws.tree.file? (root ++ below) = some content := by
  obtain ⟨filter, _ | _⟩ := scanner
  · exact ((mem_scan_plain_iff hws).mp h).1
  · exact ((mem_scan_plain_iff hws).mp ((mem_scan_respecting_iff hws).mp h).1).1

theorem pairwise_scan (scanner : Scanner) (ws : Workspace) (root : Place) :
    (scanner.scan ws root).Pairwise (· < ·) := by
  have hnodup : (scanner.scan ws root).Nodup := by
    rw [scan, Place.sorted, (List.mergeSort_perm _ _).nodup_iff]
    split
    · exact nodup_accepted (ws.tree.nodup_walk root _)
    · exact nodup_accepted (ws.tree.nodup_walk root _)
  exact (Place.pairwise_sorted _).imp₂ (fun _ _ => lt_of_le_of_ne) hnodup

/-- The paths of a scan of a directory are in order, and none comes twice. -/
theorem pairwise_scanPath (hws : ws.tree.WellFormed)
    (hroot : ws.tree.node? root = some .directory) {path : Text}
    (hpath : ws.tree.resolve ws.current path = .ok root) :
    (scanner.scanPath ws path).Pairwise Path.Lt := by
  obtain ⟨lead, hjoin⟩ := Path.exists_join_eq path
  have hnames : ∀ below ∈ scanner.scan ws root,
      below ≠ [] ∧ ∀ name ∈ below, Path.IsName name := by
    intro below hbelow
    obtain ⟨content, hfile⟩ := exists_file_of_mem_scan hws hbelow
    constructor
    · rintro rfl
      rw [List.append_nil, FileTree.file?_eq_some, hroot] at hfile
      simp at hfile
    · intro name hname
      exact hws.isName_of_file? hfile name (List.mem_append_right _ hname)
  simp only [scanPath, hpath]
  apply List.pairwise_map.mpr
  apply (pairwise_scan scanner ws root).imp_of_mem
  intro first second hfirst hsecond hlt
  obtain ⟨hfirstNe, hfirstNames⟩ := hnames first hfirst
  obtain ⟨hsecondNe, hsecondNames⟩ := hnames second hsecond
  rw [if_neg (by simpa using hfirstNe), if_neg (by simpa using hsecondNe), hjoin, hjoin]
  exact (Path.lt_append_names_iff lead hfirstNames hsecondNames).mpr hlt

end Scanner

/-! ## Ignore files that have something to say -/

/-- A rule of an ignore file fits a path. -/
def IgnoreRule.Fits (rule : IgnoreRule) (path : Text) (isDirectory : Bool) : Prop :=
  (isDirectory = true ∨ rule.directoriesOnly = false) ∧ rule.glob.isMatch path = true

theorem IgnoreRule.exists_fits_of_decide? {rules : List IgnoreRule} {path : Text}
    {isDirectory : Bool} {verdict : Verdict} (h : decide? rules path isDirectory = some verdict) :
    ∃ rule ∈ rules, rule.Fits path isDirectory := by
  obtain ⟨rule, hfind, -⟩ := Option.map_eq_some_iff.mp h
  refine ⟨rule, List.mem_reverse.mp (List.mem_of_find?_eq_some hfind), ?_⟩
  simpa [Fits] using List.find?_some hfind

theorem FileTree.exists_content_of_mem_ignoreRules {tree : FileTree} {place : Place}
    {rule : IgnoreRule} (h : rule ∈ tree.ignoreRules place) :
    ∃ content, tree.contentAt place = .ok content ∧ rule ∈ IgnoreRule.ofContent content := by
  rw [ignoreRules] at h
  split at h
  next content hcontent => exact ⟨content, hcontent, h⟩
  next => simp at h

namespace Workspace

/-- The ignore files of a directory. -/
def ignoreFiles : List Place :=
  [[".ignore"], [".gitignore"], [versionControlName, "info", "exclude"]]

/-- An ignore file applies to the path `below` the directory `root`: it can be read, and it stands
in `root` or in a directory on the way and has a rule for the rest of the way, or it is that of the
user and has a rule for the path as seen from the current directory. -/
inductive IgnoreFileApplies (ws : Workspace) (root below : Place) (isDirectory : Bool) : Prop
  | own {depth : Nat} {name : Place} {content : FileContent} {rule : IgnoreRule}
      (hdepth : depth < below.length) (hname : name ∈ ignoreFiles)
      (hcontent : ws.tree.contentAt (root ++ below.take depth ++ name) = .ok content)
      (hrule : rule ∈ IgnoreRule.ofContent content)
      (hfits : rule.Fits (Place.toRelative (below.drop depth)) isDirectory)
  | user {settings : UserSettings} {place : Place} {content : FileContent} {rule : IgnoreRule}
      (hsettings : ws.settings = some settings)
      (hplace : ws.tree.resolve ws.current settings.ignoreFile = .ok place)
      (hcontent : ws.tree.contentAt place = .ok content)
      (hrule : rule ∈ IgnoreRule.ofContent content)
      (hfits : rule.Fits (ws.seenFromCurrent (root ++ below).toText) isDirectory)

variable {ws : Workspace} {root below : Place} {isDirectory : Bool} {verdict : Verdict}

theorem ignoreFileApplies_of_verdictBy? {name : Place} {depths : List Nat}
    (hname : name ∈ ignoreFiles) (hdepths : ∀ depth ∈ depths, depth < below.length)
    (h : ws.verdictBy? root name below isDirectory depths = some verdict) :
    ws.IgnoreFileApplies root below isDirectory := by
  obtain ⟨depth, hdepth, hdecide⟩ := List.exists_of_findSome?_eq_some h
  obtain ⟨rule, hrule, hfits⟩ := IgnoreRule.exists_fits_of_decide? hdecide
  obtain ⟨content, hcontent, hrule⟩ := FileTree.exists_content_of_mem_ignoreRules hrule
  exact .own (hdepths depth hdepth) hname hcontent hrule hfits

theorem ignoreFileApplies_of_userIgnoreRules
    (h : IgnoreRule.decide? ws.userIgnoreRules
      (ws.seenFromCurrent (root ++ below).toText) isDirectory = some verdict) :
    ws.IgnoreFileApplies root below isDirectory := by
  obtain ⟨rule, hrule, hfits⟩ := IgnoreRule.exists_fits_of_decide? h
  rw [userIgnoreRules] at hrule
  split at hrule
  next => simp at hrule
  next settings hsettings =>
    split at hrule
    next place hplace =>
      obtain ⟨content, hcontent, hrule⟩ := FileTree.exists_content_of_mem_ignoreRules hrule
      exact .user hsettings hplace hcontent hrule hfits
    next => simp at hrule

theorem ignoreFileApplies_of_verdict?
    (h : ws.verdict? Scanner.ignoreSettings root below isDirectory = some verdict) :
    ws.IgnoreFileApplies root below isDirectory := by
  have hdepths : ∀ depth ∈ (List.range below.length).reverse, depth < below.length := by
    simp
  simp only [verdict?, Scanner.ignoreSettings, IgnoreSettings.standard, controlledDepths,
    Bool.false_eq_true, if_false, if_true, Option.orElse_eq_some] at h
  rcases h with h | ⟨-, h | ⟨-, h | ⟨-, h⟩⟩⟩
  · exact ignoreFileApplies_of_verdictBy? (by simp [ignoreFiles]) hdepths h
  · exact ignoreFileApplies_of_verdictBy? (by simp [ignoreFiles]) hdepths h
  · exact ignoreFileApplies_of_verdictBy? (by simp [ignoreFiles]) hdepths h
  · exact ignoreFileApplies_of_userIgnoreRules (Option.ite_none_right_eq_some.mp h).2

end Workspace

/-! ## Main statement -/

namespace Scanner

/-- Both kinds of scan come in the order of paths, with none twice.  Without a look at ignore files
a scan finds the files that have no name of the version control on their way and that the filter
accepts.  If ignore files are respected, a part of these is left: those that none has the scan turn
away from.  It is all of them if no ignore file applies on the way to any of them. -/
theorem scan_respecting_sublist (ws : Workspace) {root : Place} (hws : ws.tree.WellFormed)
    (hroot : ws.tree.node? root = some .directory) (filter : FileFilter) :
    let plain : Scanner := ⟨filter, false⟩
    let respecting : Scanner := ⟨filter, true⟩
    (∀ scanner ∈ [plain, respecting], ∀ path, ws.tree.resolve ws.current path = .ok root →
      (scanner.scanPath ws path).Pairwise Path.Lt) ∧
    (∀ below, below ∈ plain.scan ws root ↔
      (∃ content, ws.tree.file? (root ++ below) = some content) ∧
        filter.accepts below.toRelative = true ∧ versionControlName ∉ below) ∧
    (respecting.scan ws root).Sublist (plain.scan ws root) ∧
    (∀ below, below ∈ respecting.scan ws root ↔
      below ∈ plain.scan ws root ∧ ¬ ws.Ignores root below) ∧
    ((∀ below ∈ plain.scan ws root, ∀ lead node, lead ≠ [] → lead <+: below →
        ws.tree.node? (root ++ lead) = some node →
          ¬ ws.IgnoreFileApplies root lead (node = .directory)) →
      respecting.scan ws root = plain.scan ws root) := by
  intro plain respecting
  have hmem : ∀ below, below ∈ respecting.scan ws root ↔
      below ∈ plain.scan ws root ∧ ¬ ws.Ignores root below :=
    fun below => mem_scan_respecting_iff hws
  refine ⟨?_, fun below => mem_scan_plain_iff hws, ?_, hmem, ?_⟩
  · intro scanner _ path hpath
    exact pairwise_scanPath hws hroot hpath
  · classical
    have hfilter : respecting.scan ws root =
        (plain.scan ws root).filter fun below => ¬ ws.Ignores root below := by
      apply (pairwise_scan respecting ws root).eq_of_mem_iff
        ((pairwise_scan plain ws root).filter _)
      intro below
      rw [hmem, List.mem_filter, decide_eq_true_eq]
    rw [hfilter]
    exact List.filter_sublist
  · intro hnone
    apply (pairwise_scan respecting ws root).eq_of_mem_iff (pairwise_scan plain ws root)
    intro below
    rw [hmem, and_iff_left_iff_imp]
    rintro hbelow ⟨lead, node, hne, hlead, hstands, hverdict⟩
    exact hnone below hbelow lead node hne hlead hstands
      (Workspace.ignoreFileApplies_of_verdict? hverdict)

/-- An ignore file takes a directory away from a scan, and that of the user a file; the other files
come as they do without them. -/
theorem scan_respecting_sublist_of_temporary :
    let tree : FileTree :=
      { entries := [(["p"], .directory), (["p", ".git"], .directory),
          (["p", ".git", "hook.rb"], .file (.text [])),
          (["p", ".gitignore"], .file (.text "tmp/\n")), (["p", "lib"], .directory),
          (["p", "lib", "a.rb"], .file (.text [])), (["p", "lib", "old.rb"], .file (.text [])),
          (["p", "tmp"], .directory), (["p", "tmp", "b.rb"], .file (.text [])),
          (["u"], .directory), (["u", "ignored"], .file (.text "old.*\n"))]
        nodup := by decide }
    let ws : Workspace := ⟨tree, ["p"], some ⟨"/u", "/u/ignored"⟩, false, false, false⟩
    let filter : FileFilter := ⟨["rb"], [], []⟩
    let source : Place := ["lib", "a.rb"]
    let temporary : Place := ["tmp", "b.rb"]
    let old : Place := ["lib", "old.rb"]
    tree.WellFormed ∧ tree.node? ["p"] = some .directory ∧
      scan ⟨filter, true⟩ ws ["p"] = [source] ∧ temporary ∈ scan ⟨filter, false⟩ ws ["p"] ∧
      old ∈ scan ⟨filter, false⟩ ws ["p"] ∧
      (scan ⟨filter, true⟩ ws ["p"]).Sublist (scan ⟨filter, false⟩ ws ["p"]) := by
  intro tree ws filter source temporary old
  have htree : tree.WellFormed := ⟨by decide, by decide, by decide⟩
  have hroot : tree.node? ["p"] = some .directory := by decide
  obtain ⟨-, hplain, hsublist, -⟩ := scan_respecting_sublist ws htree hroot filter
  have htemporary : temporary ∈ scan ⟨filter, false⟩ ws ["p"] :=
    (hplain temporary).mpr ⟨⟨.text [], by decide⟩, by decide +kernel, by decide⟩
  have hold : old ∈ scan ⟨filter, false⟩ ws ["p"] :=
    (hplain old).mpr ⟨⟨.text [], by decide⟩, by decide +kernel, by decide⟩
  exact ⟨htree, hroot, by decide +kernel, htemporary, hold, hsublist⟩

end Scanner

end RequireLint
