import RequireLint.Proofs.File.Place

/-!
# What a change leaves alone

Files are written by `put`, which changes one place.  A file is written to the place that its path
names, and making the directories on the way changes no file.  Overwriting files does not change
where paths lead either.
-/

namespace RequireLint

theorem bind_eq_ok {ε α β : Type} {first : Except ε α} {next : α → Except ε β} {b : β} :
    (first >>= next) = .ok b ↔ ∃ a, first = .ok a ∧ next a = .ok b := by
  cases first with
  | error _ => simp [bind, Except.bind]
  | ok _ => simp [bind, Except.bind]

theorem eq_ok_of_toOption {ε α : Type} {result : Except ε α} {a : α}
    (h : result.toOption = some a) : result = .ok a := by
  cases result with
  | error _ => exact absurd h (by simp [Except.toOption])
  | ok _ => exact congrArg Except.ok (Option.some.inj h)

namespace FileTree

variable {tree other : FileTree} {here place current : Place} {path : Text}

/-- The content of the file at a place, if there is one. -/
def file? (tree : FileTree) (place : Place) : Option FileContent :=
  match tree.node? place with
  | some (.file content) => some content
  | _ => none

theorem file?_eq_some {content : FileContent} :
    tree.file? place = some content ↔ tree.node? place = some (.file content) := by
  rw [file?]
  split
  next h => simp [h]
  next h => simpa using h content

theorem ne_nil_of_file? {content : FileContent} (h : tree.file? place = some content) :
    place ≠ [] := by
  rintro rfl
  rw [file?_eq_some, node?] at h
  simp at h

theorem file?_congr (h : other.node? place = tree.node? place) :
    other.file? place = tree.file? place := by
  rw [file?, file?, h]

theorem asText_eq_ok {content : FileContent} {text : Text} :
    content.asText = .ok text ↔ content = .text text := by
  cases content <;> simp [FileContent.asText]

theorem contentAt_eq_ok {content : FileContent} :
    tree.contentAt place = .ok content ↔
      tree.file? place = some content ∧ tree.readRefusal place = none := by
  rw [contentAt, file?]
  rcases tree.node? place with _ | ⟨found⟩ | _
  · simp
  · cases tree.readRefusal place <;> simp
  · simp

theorem readPlace_eq_ok {content : Text} :
    tree.readPlace place = .ok content ↔
      tree.file? place = some (.text content) ∧ tree.readRefusal place = none := by
  simp only [readPlace, bind_eq_ok, asText_eq_ok, exists_eq_right, contentAt_eq_ok]

/-! ## Writing to a place -/

theorem writePlace_of_refusal {text : Text} {cause : FileError}
    (h : tree.writeRefusal place = some cause) : tree.writePlace place text = .error cause := by
  simp only [writePlace, h]

theorem writePlace_of_no_refusal {text : Text} (h : tree.writeRefusal place = none) :
    tree.writePlace place text = .ok (tree.put place (.file (.text text))) := by
  simp only [writePlace, h]

theorem eq_put_of_writePlace_eq_ok {text : Text} {written : FileTree}
    (h : tree.writePlace place text = .ok written) :
    written = tree.put place (.file (.text text)) := by
  cases hrefusal : tree.writeRefusal place with
  | some cause => simp [writePlace_of_refusal hrefusal] at h
  | none => simpa [writePlace_of_no_refusal hrefusal] using h.symm

/-! ## Writing to a path -/

theorem file?_put_directory (hfree : tree.node? here = none) (place : Place) :
    (tree.put here .directory).file? place = tree.file? place := by
  by_cases hplace : place ≠ [] ∧ place = here
  · have hnone : tree.node? place = none := by rw [hplace.2, hfree]
    rw [file?, file?, node?_put, if_pos hplace, hnone]
  · apply file?_congr
    rw [node?_put, if_neg hplace]

/-- Making directories changes no file. -/
theorem file?_makeAlong (tree : FileTree) (made : Bool) (here : Place) (segments : List Text)
    (place : Place) : (tree.makeAlong made here segments).1.file? place = tree.file? place := by
  fun_induction makeAlong tree made here segments with
  | case1 => rfl
  | case2 tree made here segment rest hsame ih => exact ih
  | case3 tree made here rest hsame ih => exact ih
  | case4 tree made here segment rest hsame hup next hnode ih => exact ih
  | case5 => rfl
  | case6 => rfl
  | case7 tree made here segment rest hsame hup next hfree hallowed ih =>
      rw [ih, file?_put_directory hfree]

/-- Where a path leads is what it names. -/
theorem eq_of_follow_eq_ok {segments : List Text} (h : tree.follow here segments = .ok place) :
    place = segments.foldl Place.step here := by
  fun_induction follow tree here segments with
  | case1 here => simpa using h.symm
  | case2 | case3 | case7 => simp at h
  | case4 here segment rest hnode hsame ih =>
      rw [List.foldl_cons, Place.step, if_pos hsame]
      exact ih h
  | case5 here rest hnode hsame ih =>
      rw [List.foldl_cons, Place.step, if_neg hsame, if_pos rfl]
      exact ih h
  | case6 here segment rest hnode hsame hup next hnext ih =>
      rw [List.foldl_cons, Place.step, if_neg hsame, if_neg hup]
      exact ih h

/-- A list that keeps its length loses nothing. -/
theorem eq_dropWhile_of_length_le {α : Type} {p : α → Bool} {l kept : List α}
    (h : l.reverse.dropWhile p = kept) (hlength : ¬ kept.length < l.length) :
    l.reverse = kept := by
  have hle : l.reverse.length ≤ (l.reverse.dropWhile p).length := by
    rw [List.length_reverse, h]
    omega
  rw [← h]
  exact ((List.dropWhile_suffix p).eq_of_length_le hle).symm

/-- A file is written to the place that its path names. -/
theorem eq_of_target_eq_ok (h : tree.target current path = .ok place) :
    place = Place.named current path := by
  rw [target] at h
  split at h
  · simp [bind, Except.bind] at h
  · obtain ⟨directory, hfollow, h⟩ := bind_eq_ok.mp h
    split at h
    · split at h
      · simp at h
      next name tail hnamed =>
        split at h
        · simp at h
        next hname =>
          split at h
          · simp at h
          · -- No empty segment has been dropped behind the name, so the path ends with it.
            obtain rfl := Except.ok.inj h
            rw [not_or, not_or, hnamed] at hname
            obtain ⟨hlength, hdot, hdots⟩ := hname
            have hempty := List.head?_dropWhile_not (·.isEmpty) (path.splitOn '/').reverse
            have hsplit : (path.splitOn '/').reverse = name :: tail :=
              eq_dropWhile_of_length_le hnamed hlength
            rw [hnamed, List.tail_cons] at hfollow
            rw [hnamed] at hempty
            have hstep : Place.step directory name = directory ++ [name] := by
              have hne : name ≠ [] := by simpa using hempty
              rw [Place.step, if_neg (not_or.mpr ⟨hne, hdot⟩), if_neg hdots]
            rw [Place.named, List.reverse_eq_cons_iff.mp hsplit, List.foldl_append,
              ← eq_of_follow_eq_ok hfollow]
            exact hstep.symm
    · simp at h
    · simp at h

theorem node?_of_write_eq_ok {content : Text} {written : FileTree}
    (h : tree.write current path content = .ok written)
    (hother : place ≠ Place.named current path) : written.node? place = tree.node? place := by
  rw [write] at h
  obtain ⟨goal, htarget, hwrite⟩ := bind_eq_ok.mp h
  obtain rfl := eq_of_target_eq_ok htarget
  rw [eq_put_of_writePlace_eq_ok hwrite, node?_put, if_neg fun hplace => hother hplace.2]

/-! ## Where paths lead -/

/-- Whether a directory stands at a place, if anything does. -/
def directory? (tree : FileTree) (place : Place) : Option Bool :=
  (tree.node? place).map (· = .directory)

theorem follow_congr (h : ∀ place, other.directory? place = tree.directory? place)
    (here : Place) (segments : List Text) :
    other.follow here segments = tree.follow here segments := by
  induction segments generalizing here with
  | nil => rfl
  | cons segment rest ih =>
      have hhere := h here
      have hnext := h (here ++ [segment])
      simp only [directory?] at hhere hnext
      have hsome : (other.node? (here ++ [segment])).isSome =
          (tree.node? (here ++ [segment])).isSome := by
        simpa using congrArg Option.isSome hnext
      rw [follow, follow]
      cases htree : tree.node? here with
      | none =>
          rw [htree, Option.map_none, Option.map_eq_none_iff] at hhere
          rw [hhere]
      | some node =>
          rw [htree, Option.map_some, Option.map_eq_some_iff] at hhere
          obtain ⟨node', hother, hsame⟩ := hhere
          rw [hother]
          cases node with
          | file content =>
              cases node' with
              | file content' => rfl
              | directory => simp at hsame
          | directory =>
              obtain rfl : node' = .directory := by simpa using hsame
              simp only [ih, hsome]

theorem resolve_congr (h : ∀ place, other.directory? place = tree.directory? place)
    (current : Place) (path : Text) : other.resolve current path = tree.resolve current path := by
  rw [resolve, resolve, follow_congr h]

theorem contains_congr (h : ∀ place, other.directory? place = tree.directory? place)
    (current : Place) (path : Text) : other.contains current path = tree.contains current path := by
  rw [contains, contains, nodeAt?, nodeAt?, resolve_congr h]
  cases tree.resolve current path with
  | error cause => rfl
  | ok place => simpa [directory?] using congrArg Option.isSome (h place)

/-- Two trees have files and directories at the same places and refuse the same.  Their files may
have different contents. -/
structure SameShape (other tree : FileTree) : Prop where
  directory?_eq : ∀ place, other.directory? place = tree.directory? place
  readRefusal_eq : other.readRefusal = tree.readRefusal
  writeRefusal_eq : other.writeRefusal = tree.writeRefusal

theorem readPlace_congr (hshape : other.SameShape tree)
    (hplace : other.node? place = tree.node? place) :
    other.readPlace place = tree.readPlace place := by
  rw [readPlace, readPlace, contentAt, contentAt, hplace, hshape.readRefusal_eq]

end FileTree

end RequireLint
