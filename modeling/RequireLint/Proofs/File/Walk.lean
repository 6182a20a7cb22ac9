import Mathlib.Data.List.MinMax
import Mathlib.Data.List.Nodup
import RequireLint.File.Walk
import RequireLint.Proofs.File.Tree
import RequireLint.Proofs.Path.Canonical

/-!
# What a walk comes to

In a tree as a disk holds one, a walk comes to all that it keeps together with every directory on
the way, and it comes to nothing twice.
-/

namespace RequireLint

/-! ## Trees as on a disk -/

instance (segment : Text) : Decidable (Path.IsName segment) :=
  decidable_of_iff (segment ≠ [] ∧ segment ≠ ['.'] ∧ segment ≠ ['.', '.'] ∧ '/' ∉ segment)
    ⟨fun ⟨hnil, hdot, hdots, hslash⟩ => ⟨hnil, hdot, hdots, hslash⟩,
      fun h => ⟨h.ne_nil, h.ne_dot, h.ne_dots, h.no_slash⟩⟩

namespace FileTree

/-- A tree as a disk holds one: what is listed has a name, and it stands in a directory. -/
structure WellFormed (tree : FileTree) : Prop where
  ne_nil : ∀ entry ∈ tree.entries, entry.1 ≠ []
  isName : ∀ entry ∈ tree.entries, ∀ name ∈ entry.1, Path.IsName name
  parent : ∀ entry ∈ tree.entries, tree.node? entry.1.dropLast = some .directory

variable {tree : FileTree} {root below place lead : Place} {node : Node}

theorem mem_entries_of_node? (hplace : place ≠ [])
    (h : tree.node? place = some node) : (place, node) ∈ tree.entries := by
  rw [node?, if_neg (by simpa using hplace)] at h
  obtain ⟨entry, hfind, rfl⟩ := Option.map_eq_some_iff.mp h
  obtain rfl : entry.1 = place := by simpa using List.find?_some hfind
  exact List.mem_of_find?_eq_some hfind

namespace WellFormed

variable (htree : tree.WellFormed)
include htree

theorem mem_file_iff {content : FileContent} :
    (place, Node.file content) ∈ tree.entries ↔ tree.file? place = some content := by
  rw [file?_eq_some]
  constructor
  · intro hmem
    exact node?_of_mem hmem (htree.ne_nil _ hmem)
  · intro hnode
    exact mem_entries_of_node? (ne_nil_of_file? (file?_eq_some.mpr hnode)) hnode

theorem isName_of_file? {content : FileContent} (h : tree.file? place = some content) :
    ∀ name ∈ place, Path.IsName name :=
  htree.isName _ (htree.mem_file_iff.mpr h)

/-- What stands somewhere stands in a directory. -/
theorem node?_of_node?_concat {name : Text}
    (h : tree.node? (place ++ [name]) = some node) : tree.node? place = some .directory := by
  have hparent := htree.parent _ (mem_entries_of_node? (by simp) h)
  simpa using hparent

/-- There is a directory everywhere on the way to a place. -/
theorem node?_of_prefix (h : tree.node? place = some node) (hlead : lead <+: place)
    (hne : lead ≠ place) : tree.node? lead = some .directory := by
  obtain ⟨rest, rfl⟩ := hlead
  induction rest using List.reverseRecOn generalizing node with
  | nil => simp at hne
  | append_singleton rest name ih =>
      rw [← List.append_assoc] at h
      have hparent := htree.node?_of_node?_concat h
      by_cases hrest : rest = []
      · simpa [hrest] using hparent
      · exact ih hparent (by simpa using hrest)

theorem exists_node?_of_prefix (h : tree.node? place = some node) (hlead : lead <+: place) :
    ∃ node, tree.node? lead = some node := by
  by_cases heq : lead = place
  · exact ⟨node, heq ▸ h⟩
  · exact ⟨.directory, htree.node?_of_prefix h hlead heq⟩

end WellFormed

/-! ## The directories of a walk -/

theorem mem_namesIn {name : Text} (htree : tree.WellFormed) :
    name ∈ tree.namesIn place ↔ ∃ node, tree.node? (place ++ [name]) = some node := by
  rw [namesIn, List.mem_filterMap]
  constructor
  · rintro ⟨⟨found, node⟩, hmem, hname⟩
    rw [Option.ite_none_right_eq_some] at hname
    obtain ⟨rfl, hlast⟩ := hname
    refine ⟨node, ?_⟩
    rw [List.dropLast_append_getLast? name hlast]
    exact node?_of_mem hmem (htree.ne_nil _ hmem)
  · rintro ⟨node, hnode⟩
    exact ⟨_, mem_entries_of_node? (by simp) hnode, by simp⟩

theorem nodup_namesIn (tree : FileTree) (place : Place) : (tree.namesIn place).Nodup := by
  have hentries := List.pairwise_map.mp tree.nodup
  apply hentries.filterMap
  intro first second hne name hname name' hname' heq
  -- Two entries with one name in one directory stand at one place.
  rw [Option.ite_none_right_eq_some] at hname hname'
  apply hne
  rw [← List.dropLast_append_getLast? _ hname.2, ← List.dropLast_append_getLast? _ hname'.2,
    hname.1, hname'.1, heq]

theorem length_le_depth (hplace : place ≠ []) (h : tree.node? place = some node) :
    place.length ≤ tree.depth := by
  have hmem : place.length ∈ tree.entries.map fun entry => entry.1.length :=
    List.mem_map_of_mem (mem_entries_of_node? hplace h)
  exact List.le_max_of_le' 0 hmem le_rfl

/-! ## All that a walk comes to -/

variable {keeps : WalkEntry → Bool} {levels : Nat} {entry : WalkEntry}

theorem visit?_eq_some :
    tree.visit? root keeps below = some entry ↔
      entry.below = below ∧ tree.node? (root ++ below) = some entry.node ∧ keeps entry = true := by
  rw [visit?, Option.filter_eq_some_iff, Option.map_eq_some_iff]
  constructor
  · rintro ⟨⟨node, hnode, rfl⟩, hkept⟩
    exact ⟨rfl, hnode, hkept⟩
  · rintro ⟨rfl, hnode, hkept⟩
    exact ⟨⟨entry.node, hnode, rfl⟩, hkept⟩

theorem exists_concat_of_mem_steps {next : Place} (h : next ∈ tree.steps root entry) :
    ∃ name, next = entry.below ++ [name] := by
  rw [steps] at h
  split at h
  · obtain ⟨name, -, rfl⟩ := List.mem_map.mp h
    exact ⟨name, rfl⟩
  · simp at h

theorem mem_steps (htree : tree.WellFormed) {next : Place} :
    next ∈ tree.steps root entry ↔ entry.node = .directory ∧
      ∃ name node, next = entry.below ++ [name] ∧ tree.node? (root ++ next) = some node := by
  rw [steps]
  cases entry.node with
  | file content => simp
  | directory =>
      simp only [List.mem_map, mem_namesIn htree, List.append_assoc, true_and]
      constructor
      · rintro ⟨name, ⟨node, hnode⟩, rfl⟩
        exact ⟨name, node, rfl, hnode⟩
      · rintro ⟨name, node, rfl, hnode⟩
        exact ⟨name, ⟨node, hnode⟩, rfl⟩

/-- A walk comes to a path first, and then to what it finds one step further on. -/
theorem mem_walkFrom_succ :
    entry ∈ tree.walkFrom root keeps (levels + 1) below ↔
      ∃ first, tree.visit? root keeps below = some first ∧
        (entry = first ∨
          ∃ next ∈ tree.steps root first, entry ∈ tree.walkFrom root keeps levels next) := by
  rw [walkFrom]
  cases tree.visit? root keeps below with
  | none => simp
  | some first => simp

/-- All that stands on the way from the path `below` to what a walk comes to is kept. -/
structure Reaches (tree : FileTree) (root : Place) (keeps : WalkEntry → Bool) (below : Place)
    (entry : WalkEntry) : Prop where
  isPrefix : below <+: entry.below
  node?_eq : tree.node? (root ++ entry.below) = some entry.node
  kept : ∀ lead node, below <+: lead → lead <+: entry.below →
    tree.node? (root ++ lead) = some node → keeps ⟨lead, node⟩ = true

theorem reaches_of_visit? (h : tree.visit? root keeps below = some entry) :
    tree.Reaches root keeps below entry := by
  obtain ⟨rfl, hnode, hkept⟩ := visit?_eq_some.mp h
  refine ⟨List.prefix_rfl, hnode, ?_⟩
  intro lead node hlead hlead' hstands
  obtain rfl := hlead'.eq_of_length_le hlead.length_le
  rw [hnode] at hstands
  obtain rfl := Option.some.inj hstands
  exact hkept

/-- What is reached from one of the next steps is reached from the start. -/
theorem Reaches.of_step {first : WalkEntry} {next : Place}
    (h : tree.Reaches root keeps next entry) (hfirst : tree.visit? root keeps below = some first)
    (hnext : next ∈ tree.steps root first) : tree.Reaches root keeps below entry := by
  obtain ⟨rfl, hhere, hkept⟩ := visit?_eq_some.mp hfirst
  obtain ⟨name, rfl⟩ := exists_concat_of_mem_steps hnext
  refine ⟨(List.prefix_append _ _).trans h.isPrefix, h.node?_eq, ?_⟩
  intro lead node hlead hlead' hstands
  by_cases hstart : lead = first.below
  · rw [hstart, hhere] at hstands
    obtain rfl := Option.some.inj hstands
    rwa [hstart]
  · -- All but the first on the way is on the way from `next`, too.
    apply h.kept lead node _ hlead' hstands
    apply List.prefix_of_prefix_length_le h.isPrefix hlead'
    have hlength : first.below.length ≠ lead.length := fun heq =>
      hstart (hlead.eq_of_length heq).symm
    have hle := hlead.length_le
    simp only [List.length_append, List.length_singleton]
    omega

/-- What lies further on is reached by way of one of the next steps. -/
theorem Reaches.exists_step (htree : tree.WellFormed) (h : tree.Reaches root keeps below entry)
    (hne : below ≠ entry.below) :
    ∃ first, tree.visit? root keeps below = some first ∧
      ∃ next ∈ tree.steps root first, tree.Reaches root keeps next entry := by
  obtain ⟨⟨rest, hrest⟩, hnode, hkept⟩ := h
  cases rest with
  | nil => exact absurd (by simpa using hrest) hne
  | cons name rest =>
      have hlead : root ++ below <+: root ++ entry.below :=
        (List.prefix_append_right_inj root).mpr ⟨_, hrest⟩
      have hnext : below ++ [name] <+: entry.below := ⟨rest, by simpa using hrest⟩
      have hhere : tree.node? (root ++ below) = some .directory :=
        htree.node?_of_prefix hnode hlead (by simpa using hne)
      obtain ⟨node, hstands⟩ := htree.exists_node?_of_prefix hnode
        ((List.prefix_append_right_inj root).mpr hnext)
      have hfirst : keeps ⟨below, .directory⟩ = true :=
        hkept _ _ List.prefix_rfl ⟨_, hrest⟩ hhere
      refine ⟨⟨below, .directory⟩, visit?_eq_some.mpr ⟨rfl, hhere, hfirst⟩, below ++ [name],
        (mem_steps htree).mpr ⟨rfl, name, node, rfl, hstands⟩, hnext, hnode, ?_⟩
      intro lead node hlead
      exact hkept lead node ((List.prefix_append _ _).trans hlead)

/-- What is reached is the start or is reached by way of one of the next steps. -/
theorem reaches_iff (htree : tree.WellFormed) :
    tree.Reaches root keeps below entry ↔
      ∃ first, tree.visit? root keeps below = some first ∧
        (entry = first ∨ ∃ next ∈ tree.steps root first, tree.Reaches root keeps next entry) := by
  constructor
  · intro h
    by_cases heq : below = entry.below
    · refine ⟨entry, visit?_eq_some.mpr ⟨heq.symm, heq ▸ h.node?_eq, ?_⟩, .inl rfl⟩
      exact h.kept _ _ h.isPrefix List.prefix_rfl h.node?_eq
    · obtain ⟨first, hfirst, hstep⟩ := h.exists_step htree heq
      exact ⟨first, hfirst, .inr hstep⟩
  · rintro ⟨first, hfirst, rfl | ⟨next, hnext, hreaches⟩⟩
    · exact reaches_of_visit? hfirst
    · exact hreaches.of_step hfirst hnext

/-- A walk passes nothing over for which it goes down deep enough. -/
theorem mem_walkFrom_iff (htree : tree.WellFormed)
    (hlevels : tree.depth ≤ levels + (root ++ below).length) :
    entry ∈ tree.walkFrom root keeps levels below ↔ tree.Reaches root keeps below entry := by
  induction levels generalizing below with
  | zero =>
      rw [walkFrom, reaches_iff htree, Option.mem_toList]
      constructor
      · intro h
        exact ⟨entry, h, .inl rfl⟩
      · rintro ⟨first, hfirst, rfl | ⟨next, hnext, -⟩⟩
        · exact hfirst
        · -- A further step would lead deeper than the tree is.
          obtain ⟨rfl, -, -⟩ := visit?_eq_some.mp hfirst
          obtain ⟨-, name, node, rfl, hstands⟩ := (mem_steps htree).mp hnext
          have hdepth := length_le_depth (by simp) hstands
          simp only [List.length_append, List.length_singleton] at hdepth hlevels
          omega
  | succ levels ih =>
      rw [mem_walkFrom_succ, reaches_iff htree]
      apply exists_congr
      intro first
      apply and_congr_right
      intro hfirst
      obtain ⟨rfl, -, -⟩ := visit?_eq_some.mp hfirst
      apply or_congr_right
      apply exists_congr
      intro next
      apply and_congr_right
      intro hnext
      obtain ⟨-, name, node, rfl, -⟩ := (mem_steps htree).mp hnext
      apply ih
      simp only [List.length_append, List.length_singleton] at hlevels ⊢
      omega

/-- A walk comes to all that stands below its start, unless that or a directory on the way to it
is not kept. -/
theorem mem_walk_iff (htree : tree.WellFormed) :
    entry ∈ tree.walk root keeps ↔
      tree.node? (root ++ entry.below) = some entry.node ∧
        ∀ lead node, lead <+: entry.below → tree.node? (root ++ lead) = some node →
          keeps ⟨lead, node⟩ = true := by
  rw [walk, mem_walkFrom_iff htree (Nat.le_add_right _ _)]
  constructor
  · rintro ⟨-, hnode, hkept⟩
    exact ⟨hnode, fun lead node hlead => hkept lead node (List.nil_prefix) hlead⟩
  · rintro ⟨hnode, hkept⟩
    exact ⟨List.nil_prefix, hnode, fun lead node _ => hkept lead node⟩

/-! ## Nothing twice -/

theorem prefix_of_mem_walkFrom (h : entry ∈ tree.walkFrom root keeps levels below) :
    below <+: entry.below := by
  induction levels generalizing below with
  | zero =>
      rw [walkFrom, Option.mem_toList] at h
      exact (reaches_of_visit? h).isPrefix
  | succ levels ih =>
      obtain ⟨first, hfirst, rfl | ⟨next, hnext, hmem⟩⟩ := mem_walkFrom_succ.mp h
      · exact (reaches_of_visit? hfirst).isPrefix
      · obtain ⟨name, rfl⟩ := exists_concat_of_mem_steps hnext
        rw [← (visit?_eq_some.mp hfirst).1]
        exact (List.prefix_append _ _).trans (ih hmem)

theorem nodup_steps (tree : FileTree) (root : Place) (entry : WalkEntry) :
    (tree.steps root entry).Nodup := by
  rw [steps]
  split
  · apply (tree.nodup_namesIn _).map
    intro name name' heq
    simpa using heq
  · exact List.nodup_nil

/-- No way goes by two paths of one length. -/
theorem disjoint_walkFrom {next next' : Place} (hlength : next.length = next'.length)
    (hne : next ≠ next') :
    ((tree.walkFrom root keeps levels next).map WalkEntry.below).Disjoint
      ((tree.walkFrom root keeps levels next').map WalkEntry.below) := by
  intro place hplace hplace'
  obtain ⟨entry, hentry, rfl⟩ := List.mem_map.mp hplace
  obtain ⟨entry', hentry', heq⟩ := List.mem_map.mp hplace'
  have hlead' := prefix_of_mem_walkFrom hentry'
  rw [heq] at hlead'
  have hlead := List.prefix_of_prefix_length_le (prefix_of_mem_walkFrom hentry) hlead' hlength.le
  exact hne (hlead.eq_of_length hlength)

theorem nodup_walkFrom (tree : FileTree) (root : Place) (keeps : WalkEntry → Bool) (levels : Nat)
    (below : Place) : ((tree.walkFrom root keeps levels below).map WalkEntry.below).Nodup := by
  induction levels generalizing below with
  | zero =>
      rw [walkFrom]
      cases tree.visit? root keeps below <;> simp
  | succ levels ih =>
      rw [walkFrom]
      cases hfirst : tree.visit? root keeps below with
      | none => simp
      | some first =>
          obtain ⟨rfl, -, -⟩ := visit?_eq_some.mp hfirst
          rw [List.map_cons, List.map_flatMap, List.nodup_cons, List.nodup_flatMap]
          refine ⟨?_, fun next _ => ih next, ?_⟩
          · -- The way further on is longer than the one to the start.
            intro hmem
            obtain ⟨next, hnext, hmem⟩ := List.mem_flatMap.mp hmem
            obtain ⟨entry, hentry, heq⟩ := List.mem_map.mp hmem
            obtain ⟨name, rfl⟩ := exists_concat_of_mem_steps hnext
            have hlength := (prefix_of_mem_walkFrom hentry).length_le
            rw [heq, List.length_append, List.length_singleton] at hlength
            omega
          · apply (tree.nodup_steps root first).imp_of_mem
            intro next next' hnext hnext' hne
            obtain ⟨name, rfl⟩ := exists_concat_of_mem_steps hnext
            obtain ⟨name', rfl⟩ := exists_concat_of_mem_steps hnext'
            exact disjoint_walkFrom (by simp) hne

theorem nodup_walk (tree : FileTree) (root : Place) (keeps : WalkEntry → Bool) :
    ((tree.walk root keeps).map WalkEntry.below).Nodup :=
  tree.nodup_walkFrom root keeps _ _

end FileTree

end RequireLint
