import RequireLint.Text

/-!
# Cutting a text at a byte position

A text that is written as a concatenation is cut between its pieces.  Two ways of writing the
same text are compared by the byte sizes of their first pieces.
-/

namespace RequireLint.Text

@[simp] theorem byteSize_nil : byteSize [] = 0 := rfl

@[simp] theorem byteSize_cons (c : Char) (t : Text) :
    byteSize (c :: t) = c.utf8Size + byteSize t := rfl

theorem byteSize_eq_zero {t : Text} : byteSize t = 0 ↔ t = [] := by
  cases t with
  | nil => simp
  | cons c t =>
      have hpos := c.utf8Size_pos
      simp only [byteSize_cons, reduceCtorEq, iff_false]
      omega

@[simp] theorem takeBytes_append (t u : Text) : takeBytes (byteSize t) (t ++ u) = t := by
  simp [takeBytes]

@[simp] theorem dropBytes_append (t u : Text) : dropBytes (byteSize t) (t ++ u) = u := by
  simp [dropBytes]

theorem takeBytes_add (lead t : Text) (n : Nat) :
    takeBytes (byteSize lead + n) (lead ++ t) = lead ++ takeBytes n t := by
  induction lead with
  | nil => rw [byteSize_nil, Nat.zero_add, List.nil_append, List.nil_append]
  | cons c lead ih =>
      rw [takeBytes, takeBytes] at ih
      rw [byteSize_cons, Nat.add_assoc, List.cons_append, takeBytes, takeBytes, splitBytes,
        if_pos (Nat.le_add_right _ _), Nat.add_sub_cancel_left, List.cons_append, ← ih]

theorem dropBytes_add (lead t : Text) (n : Nat) :
    dropBytes (byteSize lead + n) (lead ++ t) = dropBytes n t := by
  induction lead with
  | nil => rw [byteSize_nil, Nat.zero_add, List.nil_append]
  | cons c lead ih =>
      rw [dropBytes, dropBytes] at ih
      rw [byteSize_cons, Nat.add_assoc, List.cons_append, dropBytes, dropBytes, splitBytes,
        if_pos (Nat.le_add_right _ _), Nat.add_sub_cancel_left, ← ih]

@[simp] theorem dropBytes_zero (t : Text) : dropBytes 0 t = t :=
  dropBytes_append [] t

theorem slice_append (lead middle rest : Text) :
    slice (byteSize lead) (byteSize (lead ++ middle)) (lead ++ middle ++ rest) = middle := by
  have hsize : byteSize (lead ++ middle) - byteSize lead = byteSize middle := by simp
  rw [slice, hsize, List.append_assoc, dropBytes_append, takeBytes_append]

/-- Of two first pieces of a text the one with fewer bytes begins the other. -/
theorem exists_append_of_byteSize_le {lead rest lead' rest' : Text}
    (h : lead ++ rest = lead' ++ rest') (hsize : byteSize lead ≤ byteSize lead') :
    ∃ between, lead' = lead ++ between ∧ rest = between ++ rest' := by
  rcases List.append_eq_append_iff.mp h with ⟨between, hlead, hrest⟩ | ⟨between, hlead, hrest⟩
  · exact ⟨between, hlead, hrest⟩
  · have hzero : byteSize between = 0 := by
      rw [hlead, byteSize_append] at hsize
      omega
    obtain rfl := byteSize_eq_zero.mp hzero
    exact ⟨[], by simpa using hlead.symm, by simpa using hrest.symm⟩

/-- First pieces of the same size are the same. -/
theorem append_inj_of_byteSize_eq {lead rest lead' rest' : Text}
    (h : lead ++ rest = lead' ++ rest') (hsize : byteSize lead = byteSize lead') :
    lead = lead' ∧ rest = rest' := by
  obtain ⟨between, rfl, rfl⟩ := exists_append_of_byteSize_le h (Nat.le_of_eq hsize)
  have hzero : byteSize between = 0 := by
    rw [byteSize_append] at hsize
    omega
  obtain rfl := byteSize_eq_zero.mp hzero
  simp

end RequireLint.Text
