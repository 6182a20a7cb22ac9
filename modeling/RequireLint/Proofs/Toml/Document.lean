import RequireLint.Proofs.Toml.Reader
import RequireLint.Toml.Document

/-!
# Documents read back

A document is read in two passes.  The first turns its lines into statements: `Lines` says which
statements stand on the lines of a text, and reading the text gives these statements.  The second
carries them out: a header opens a table, and the settings after it fill that table and leave the
rest of the document as it is.
-/

namespace RequireLint.Toml

/-! ## Statements read back -/

/-- A text that reads back as a value in front of a line end. -/
structure WrittenAs (value : Toml) (t : Text) : Prop where
  hasContent : HasContent t
  reads : ∀ rest, value? maxDepth (t ++ '\n' :: rest) = some (value, '\n' :: rest)

theorem writtenAs_quoted (t : Text) : WrittenAs (.string t) (quoted t) where
  hasContent := hasContent_quoted t
  reads rest := value?_quoted (by simp [EndsString]) maxDepth t

theorem writtenAs_ofBool (b : Bool) : WrittenAs (.boolean b) (ofBool b) where
  hasContent := by cases b <;> exact ⟨_, _, rfl, by decide⟩
  reads := value?_ofBool maxDepth b

theorem writtenAs_quotedStrings (ts : List Text) :
    WrittenAs (.array (ts.map .string)) (quotedStrings ts) where
  hasContent := by
    unfold quotedStrings
    split <;> exact ⟨_, _, rfl, by decide⟩
  reads rest := value?_quotedStrings 79 ts ('\n' :: rest)

namespace Statement

/-- A line that reads back as a statement. -/
structure WrittenAs (statement : Statement) (line : Text) : Prop where
  hasContent : HasContent line
  reads : ∀ rest, read? (line ++ '\n' :: rest) = some (statement, '\n' :: rest)

theorem read?_setting {s : Text} (h : s.head? ≠ some '[') :
    read? s = (setting? (value? maxDepth) s).map fun ((path, key, v), after) =>
      (setting path key v, after) := by
  rw [read?]
  · rintro rest rfl
    exact h rfl
  · rintro rest rfl
    exact h rfl

theorem writtenAs_setting {key t : Text} {value : Toml} (hkey : isBareKey key = true)
    (hvalue : Toml.WrittenAs value t) :
    WrittenAs (.setting [] key value) (key ++ (" = " : Text) ++ t) := by
  constructor
  · exact ((hasContent_of_isBareKey hkey).append _).append _
  · intro rest
    have hline : key ++ (" = " : Text) ++ t ++ '\n' :: rest =
        key ++ ' ' :: '=' :: ' ' :: (t ++ '\n' :: rest) := by
      simp
    have hread : key? (key ++ ' ' :: '=' :: ' ' :: (t ++ '\n' :: rest)) =
        some (([], key), '=' :: ' ' :: (t ++ '\n' :: rest)) :=
      key?_single (simpleKey?_bare hkey rfl) (by simp [Text.isInlineBlank])
    have hblank : (' ' :: (t ++ '\n' :: rest)).dropWhile Text.isInlineBlank = t ++ '\n' :: rest :=
      (hvalue.hasContent.append _).dropWhile_isInlineBlank
    rw [hline, read?_setting (head?_ne_of_isBareKey hkey (by decide)), setting?, hread]
    simp only [hblank, hvalue.reads rest, Option.map_some]

theorem read?_header {s rest : Text} {path : List Text} {key : Text} (hcontent : HasContent s)
    (hstart : s.head? ≠ some '[') (hkey : key? s = some ((path, key), ']' :: rest)) :
    read? ('[' :: s) = some (header path key, rest) := by
  rw [read?, header?, hcontent.dropWhile_isInlineBlank, hkey]
  · simp [Text.dropPrefix?]
  · rintro after rfl
    exact hstart rfl

theorem writtenAs_header (key : Text) (hkey : isBareKey key = true) :
    WrittenAs (.header [] key) (['['] ++ key ++ [']']) := by
  constructor
  · exact ⟨'[', _, rfl, by decide⟩
  · intro rest
    have hline : ['['] ++ key ++ [']'] ++ '\n' :: rest = '[' :: (key ++ ']' :: '\n' :: rest) := by
      simp
    rw [hline]
    exact read?_header ((hasContent_of_isBareKey hkey).append _)
      (head?_ne_of_isBareKey hkey (by decide))
      (key?_single (simpleKey?_bare hkey rfl) (by simp [Text.isInlineBlank]))

theorem writtenAs_header_below (above : Text) (habove : isBareKey above = true) (key : Text) :
    WrittenAs (.header [above] key) (['['] ++ above ++ ['.'] ++ quotedKey key ++ [']']) := by
  constructor
  · exact ⟨'[', _, rfl, by decide⟩
  · intro rest
    have hline : ['['] ++ above ++ ['.'] ++ quotedKey key ++ [']'] ++ '\n' :: rest =
        '[' :: (above ++ '.' :: (quotedKey key ++ ']' :: '\n' :: rest)) := by
      simp
    have hkey : key? (quotedKey key ++ ']' :: '\n' :: rest) =
        some (([], key), ']' :: '\n' :: rest) :=
      key?_single (simpleKey?_quotedKey rfl key) (by simp [Text.isInlineBlank])
    rw [hline]
    exact read?_header ((hasContent_of_isBareKey habove).append _)
      (head?_ne_of_isBareKey habove (by decide))
      (key?_dotted (simpleKey?_bare habove rfl) (by simp; omega)
        ((hasContent_quotedKey key).append _).dropWhile_isInlineBlank hkey)

end Statement

/-! ## Lines -/

/-- The statements on the lines of a text.  Blank lines may stand between them. -/
inductive Lines : List Statement → Text → Prop where
  | nil : Lines [] []
  | blank {statements : List Statement} {t : Text} :
      Lines statements t → Lines statements ('\n' :: t)
  | line {statement : Statement} {statements : List Statement} {line t : Text} :
      statement.WrittenAs line → Lines statements t →
        Lines (statement :: statements) (line ++ '\n' :: t)

namespace Lines

variable {statements more : List Statement} {t u : Text}

theorem append (ht : Lines statements t) (hu : Lines more u) :
    Lines (statements ++ more) (t ++ u) := by
  induction ht with
  | nil => exact hu
  | blank _ ih => exact ih.blank
  | line hline _ ih =>
      rw [List.append_assoc, List.cons_append, List.cons_append]
      exact .line hline ih

theorem flatMap {α : Type} {items : List α} {f : α → List Statement} {g : α → Text}
    (h : ∀ item ∈ items, Lines (f item) (g item)) : Lines (items.flatMap f) (items.flatMap g) := by
  induction items with
  | nil => exact .nil
  | cons item items ih =>
      rw [List.forall_mem_cons] at h
      rw [List.flatMap_cons, List.flatMap_cons]
      exact h.1.append (ih h.2)

theorem setting (key : Text) {value : Text} {v : Toml} (hkey : isBareKey key = true)
    (hvalue : WrittenAs v value) : Lines [.setting [] key v] (settingLine key value) :=
  .line (Statement.writtenAs_setting hkey hvalue) .nil

/-- Reading a text gives the statements on its lines. -/
theorem readAll? (h : Lines statements t) :
    ∃ next, filler? false t = some next ∧ next.length ≤ t.length ∧
      Statement.readAll? next = some statements := by
  -- The reader goes on only with a shorter text, so the length is carried along.
  induction h with
  | nil => exact ⟨[], rfl, Nat.le_refl 0, by rw [Statement.readAll?]⟩
  | blank _ ih =>
      obtain ⟨next, hnext, hlength, hread⟩ := ih
      exact ⟨next, hnext, Nat.le_succ_of_le hlength, hread⟩
  | @line statement statements line t hline _ ih =>
      obtain ⟨next, hnext, hlength, hread⟩ := ih
      have hend : Statement.lineEnd? ('\n' :: t) = some next := hnext
      refine ⟨_, (hline.hasContent.append _).filler?_eq, Nat.le_refl _, ?_⟩
      have hreads := hline.reads t
      obtain ⟨c, tail, rfl, -⟩ := hline.hasContent
      have hshort : next.length ≤ (tail ++ '\n' :: t).length := by
        rw [List.length_append, List.length_cons]
        omega
      rw [List.cons_append] at hreads ⊢
      rw [Statement.readAll?, hreads]
      simp only [hend, if_pos hshort, hread, Option.map_some]

/-- Reading a document carries out the statements on its lines. -/
theorem ofText?_eq (h : Lines statements t) (hmark : t.head? ≠ some byteOrderMark) :
    ofText? t = Statement.performAll? statements := by
  obtain ⟨next, hnext, -, hread⟩ := h.readAll?
  simp only [ofText?, if_neg hmark, hnext, Option.bind_some, hread]

end Lines

/-! ## Entries -/

theorem find?_eq_none {key : Text} {entries : Entries} :
    find? key entries = none ↔ key ∉ entries.map Prod.fst := by
  rw [find?, Option.map_eq_none_iff, List.find?_eq_none, List.mem_map, not_exists]
  simp only [decide_eq_true_eq, not_and]

theorem find?_append_singleton {key : Text} {entries : Entries} {value : Toml}
    (hkey : key ∉ entries.map Prod.fst) : find? key (entries ++ [(key, value)]) = some value := by
  have hnone : entries.find? (fun entry => entry.1 = key) = none := by
    simpa [find?] using find?_eq_none.mpr hkey
  simp [find?, List.find?_append, hnone]

theorem replace_append_singleton {key : Text} {entries : Entries} {value changed : Toml}
    (hkey : key ∉ entries.map Prod.fst) :
    replace key changed (entries ++ [(key, value)]) = entries ++ [(key, changed)] := by
  have hsame : entries.map (fun entry => if entry.1 = key then (key, changed) else entry) =
      entries := by
    refine (List.map_congr_left fun entry hentry => ?_).trans entries.map_id
    rw [if_neg, id]
    rintro rfl
    exact hkey (List.mem_map_of_mem hentry)
  simp [replace, hsame]

theorem insertNew_of_not_mem {key : Text} {entries : Entries} (hkey : key ∉ entries.map Prod.fst)
    (value : Toml) : insertNew key value entries = some (entries ++ [(key, value)]) := by
  rw [insertNew, find?_eq_none.mpr hkey]
  rfl

theorem not_mem_of_nodup {before rest : Entries} {entry : Text × Toml}
    (h : ((before ++ entry :: rest).map Prod.fst).Nodup) : entry.1 ∉ before.map Prod.fst := by
  rw [List.map_append, List.nodup_append] at h
  intro hmem
  exact h.2.2 _ hmem _ List.mem_cons_self rfl

theorem enter_append (byDots : Bool) (change : TableOrigin → Entries → Option Entries)
    (path more : List Text) (origin : TableOrigin) (entries : Entries) :
    enter byDots change (path ++ more) origin entries =
      enter byDots (enter byDots change more) path origin entries := by
  induction path generalizing origin entries with
  | nil => rfl
  | cons key path ih => simp only [List.cons_append, enter, ih]

/-! ## Statements carried out -/

/-- Where a table stands: `place` makes the whole document of the entries of the table that
`path` leads to. -/
def PlacesAt (path : List Text) (place : Entries → Entries) : Prop :=
  ∀ (change : Entries → Option Entries) (origin : TableOrigin) (inner : Entries),
    enter false (fun _ => change) path origin (place inner) = (change inner).map place

theorem placesAt_nil : PlacesAt [] id := by
  intro change origin inner
  simp [enter]

/-- The last table of a table stands one key further down. -/
theorem PlacesAt.last {path : List Text} {place : Entries → Entries} (h : PlacesAt path place)
    {key : Text} {before : Entries} (hkey : key ∉ before.map Prod.fst) {origin : TableOrigin}
    (horigin : origin ≠ .inline) :
    PlacesAt (path ++ [key]) fun inner => place (before ++ [(key, .table origin inner)]) := by
  intro change above inner
  -- To enter the last table is to change the table that holds it.
  have hlast := h (fun entries => enter false (fun _ => change) [key] above entries) above
    (before ++ [(key, .table origin inner)])
  rw [enter_append]
  refine hlast.trans ?_
  simp [enter, find?_append_singleton hkey, replace_append_singleton hkey, horigin,
    Function.comp_def]

namespace Statement

variable {path : List Text} {place : Entries → Entries}

/-- The settings that give a table some entries. -/
def settings (entries : Entries) : List Statement :=
  entries.map fun entry => .setting [] entry.1 entry.2

/-- A header and the settings of its table. -/
def table (path : List Text) (key : Text) (entries : Entries) : List Statement :=
  .header path key :: settings entries

theorem foldlM_settings {key : Text} (hplace : PlacesAt (path ++ [key]) place) {inner : Entries}
    (entries : Entries) (hkeys : ((inner ++ entries).map Prod.fst).Nodup) :
    (settings entries).foldlM perform? (place inner, some (path, key)) =
      some (place (inner ++ entries), some (path, key)) := by
  -- The entries that have been set are moved into `inner`.
  induction entries generalizing inner with
  | nil => simp [settings]
  | cons entry entries ih =>
      have hfresh := not_mem_of_nodup hkeys
      have hstep : perform? (place inner, some (path, key)) (.setting [] entry.1 entry.2) =
          some (place (inner ++ [entry]), some (path, key)) := by
        have henter := hplace (insertNew entry.1 entry.2) .header inner
        rw [insertNew_of_not_mem hfresh] at henter
        simp only [perform?, assign]
        rw [henter]
        rfl
      have hrest : inner ++ entry :: entries = (inner ++ [entry]) ++ entries := by simp
      rw [hrest] at hkeys ⊢
      rw [settings, List.map_cons, List.foldlM_cons, hstep]
      exact ih hkeys

/-- A header opens a table where there is none, and the settings after it fill it. -/
theorem foldlM_table (hplace : PlacesAt path place) {key : Text} {before : Entries}
    (hkey : key ∉ before.map Prod.fst) {entries : Entries} (hkeys : (entries.map Prod.fst).Nodup)
    (target : Option (List Text × Text)) :
    (table path key entries).foldlM perform? (place before, target) =
      some (place (before ++ [(key, .table .header entries)]), some (path, key)) := by
  have hopen : openTable path key (place before) =
      some (place (before ++ [(key, .table .header [])])) := by
    refine (hplace _ .header before).trans ?_
    rw [find?_eq_none.mpr hkey]
    rfl
  have hstep : perform? (place before, target) (.header path key) =
      some (place (before ++ [(key, .table .header [])]), some (path, key)) := by
    rw [perform?, hopen]
    rfl
  rw [table, List.foldlM_cons, hstep]
  exact foldlM_settings (hplace.last hkey (by decide)) entries hkeys

/-- The tables with headers that some tables of settings become. -/
def headed (tables : List (Text × Entries)) : Entries :=
  tables.map fun (key, entries) => (key, .table .header entries)

theorem foldlM_tables (hplace : PlacesAt path place) {before : Entries}
    (tables : List (Text × Entries)) (hkeys : ((before ++ headed tables).map Prod.fst).Nodup)
    (hinner : ∀ entry ∈ tables, (entry.2.map Prod.fst).Nodup)
    (target : Option (List Text × Text)) :
    ∃ last, (tables.flatMap fun (key, entries) => table path key entries).foldlM perform?
      (place before, target) = some (place (before ++ headed tables), last) := by
  induction tables generalizing before target with
  | nil => exact ⟨target, by simp [headed]⟩
  | cons entry tables ih =>
      obtain ⟨key, entries⟩ := entry
      rw [List.forall_mem_cons] at hinner
      have hfresh : key ∉ before.map Prod.fst := not_mem_of_nodup hkeys
      have hrest : before ++ headed ((key, entries) :: tables) =
          (before ++ [(key, .table .header entries)]) ++ headed tables := by
        simp [headed]
      rw [hrest] at hkeys ⊢
      obtain ⟨last, hlast⟩ := ih hkeys hinner.2 (some (path, key))
      refine ⟨last, ?_⟩
      rw [List.flatMap_cons, List.foldlM_append, foldlM_table hplace hfresh hinner.1]
      exact hlast

/-- A header makes the table above it if there is none. -/
theorem perform?_header_below {above : Text} {before : Entries}
    (habove : above ∉ before.map Prod.fst) (key : Text) (target : Option (List Text × Text)) :
    perform? (before, target) (.header [above] key) =
      perform? (before ++ [(above, .table .implied [])], target) (.header [above] key) := by
  simp [perform?, openTable, enter, find?_eq_none.mpr habove, find?_append_singleton habove,
    replace_append_singleton habove]

/-- Headers with one key above them make a table of tables. -/
theorem foldlM_tables_below {above : Text} {before : Entries}
    (habove : above ∉ before.map Prod.fst) {tables : List (Text × Entries)} (hne : tables ≠ [])
    (hkeys : (tables.map Prod.fst).Nodup) (hinner : ∀ entry ∈ tables, (entry.2.map Prod.fst).Nodup)
    (target : Option (List Text × Text)) :
    ∃ last, (tables.flatMap fun (key, entries) => table [above] key entries).foldlM perform?
      (before, target) = some (before ++ [(above, .table .implied (headed tables))], last) := by
  have hplace : PlacesAt [above] fun inner => before ++ [(above, .table .implied inner)] :=
    placesAt_nil.last habove (by decide)
  have hheaded : (([] ++ headed tables).map Prod.fst).Nodup := by
    simpa [headed, Function.comp_def] using hkeys
  -- The first header goes as it would if the table above were there and empty.
  obtain ⟨last, hlast⟩ := foldlM_tables hplace tables hheaded hinner target
  cases tables with
  | nil => exact absurd rfl hne
  | cons entry tables =>
      refine ⟨last, ?_⟩
      simp only [List.flatMap_cons, table, List.cons_append, List.foldlM_cons] at hlast ⊢
      rw [perform?_header_below habove]
      exact hlast

end Statement

end RequireLint.Toml
