import RequireLint.Command.Settings
import RequireLint.Proofs.File.Tree
import RequireLint.Proofs.Toml.Document

/-!
# Configurations shown as documents

A configuration that has been read can be shown as a document, and the document reads back as the
configuration.  `Config.statements` are the statements on the lines of that document, and
`Config.entries` the tables that they make.  A setting that has no value is in neither, and the
rules come back in the order of their names, which is the order that they have.
-/

namespace RequireLint

/-! ## The order of the rules -/

namespace RuleTable

/-- Every rule stands in a table once, and the rules are in the order of their names. -/
def Sorted (table : RuleTable) : Prop := (table.map Prod.fst).Pairwise (· < ·)

variable {table : RuleTable} {name key : Text} {rule : RuleConfig}

theorem mem_keys_insert (h : key ∈ (insert name rule table).map Prod.fst) :
    key = name ∨ key ∈ table.map Prod.fst := by
  induction table with
  | nil => exact .inl (by simpa [insert] using h)
  | cons entry table ih =>
      rw [insert] at h
      split at h
      next hsame =>
        subst hsame
        exact .inr (by simpa using h)
      next =>
        split at h
        next => exact List.mem_cons.mp h
        next =>
          rcases List.mem_cons.mp h with rfl | hmem
          · exact .inr List.mem_cons_self
          · exact (ih hmem).imp_right (List.mem_cons_of_mem _)

theorem Sorted.insert (h : table.Sorted) (name : Text) (rule : RuleConfig) :
    (RuleTable.insert name rule table).Sorted := by
  induction table with
  | nil => simp [RuleTable.insert, Sorted]
  | cons entry table ih =>
      obtain ⟨key, value⟩ := entry
      obtain ⟨hhead, htail⟩ := List.pairwise_cons.mp h
      rw [RuleTable.insert]
      split
      next hsame =>
        subst hsame
        exact h
      next hne =>
        split
        next hle =>
          have hlt : name < key := lt_of_le_of_ne ((Text.le_iff _ _).mp hle) (Ne.symm hne)
          refine List.pairwise_cons.mpr ⟨?_, h⟩
          intro other hother
          rcases List.mem_cons.mp hother with rfl | hmem
          · exact hlt
          · exact hlt.trans (hhead other hmem)
        next hle =>
          have hlt : key < name := by
            rw [Text.le_iff, not_le] at hle
            exact hle
          refine List.pairwise_cons.mpr ⟨?_, ih htail⟩
          intro other hother
          rcases mem_keys_insert hother with rfl | hmem
          · exact hlt
          · exact hhead other hmem

/-- Adds a setting to a table. -/
def insertEntry (table : RuleTable) (entry : Text × RuleConfig) : RuleTable :=
  insert entry.1 entry.2 table

theorem ofList_eq_foldl (settings : List (Text × RuleConfig)) :
    ofList settings = settings.foldl insertEntry [] := rfl

theorem sorted_ofList (settings : List (Text × RuleConfig)) : (ofList settings).Sorted := by
  have hfold : ∀ table : RuleTable, table.Sorted → (settings.foldl insertEntry table).Sorted := by
    induction settings with
    | nil => exact fun _ h => h
    | cons entry settings ih => exact fun table h => ih _ (h.insert entry.1 entry.2)
  rw [ofList_eq_foldl]
  exact hfold [] .nil

theorem insert_of_lt (h : ∀ key ∈ table.map Prod.fst, key < name) :
    insert name rule table = table ++ [(name, rule)] := by
  induction table with
  | nil => rfl
  | cons entry table ih =>
      obtain ⟨key, value⟩ := entry
      obtain ⟨hlt, hrest⟩ := List.forall_mem_cons.mp h
      have hle : ¬ Text.le name key = true := by
        rw [Text.le_iff, not_le]
        exact hlt
      rw [insert, if_neg hlt.ne, if_neg hle, ih hrest]
      rfl

/-- A table in order is made by its own settings. -/
theorem ofList_of_sorted (h : table.Sorted) : ofList table = table := by
  -- What has been inserted is the front of the table, so the next name goes to the end.
  have hfold : ∀ before rest : RuleTable, (before ++ rest).Sorted →
      rest.foldl insertEntry before = before ++ rest := by
    intro before rest hsorted
    induction rest generalizing before with
    | nil => simp
    | cons entry rest ih =>
        have hlast : insertEntry before entry = before ++ [entry] := by
          apply insert_of_lt
          intro key hkey
          rw [Sorted, List.map_append, List.pairwise_append] at hsorted
          exact hsorted.2.2 key hkey entry.1 List.mem_cons_self
        have hmove : before ++ entry :: rest = (before ++ [entry]) ++ rest := by simp
        rw [hmove] at hsorted ⊢
        rw [List.foldl_cons, hlast]
        exact ih _ hsorted
  rw [ofList_eq_foldl]
  exact hfold [] table h

end RuleTable

/-! ## Statements and lines -/

open Toml (Entries Lines)

namespace ScannerConfig

def entries (scanner : ScannerConfig) : Entries :=
  [("gitignore", .boolean scanner.gitignore),
    ("extensions", .array (scanner.extensions.map .string)),
    ("file_names", .array (scanner.fileNames.map .string)),
    ("exclude", .array (scanner.exclude.map .string))]

theorem lines (scanner : ScannerConfig) :
    Lines (Toml.Statement.settings scanner.entries) scanner.tomlLines := by
  have hflag := Lines.setting "gitignore" (by decide)
    (Toml.writtenAs_ofBool scanner.gitignore)
  have hextensions := Lines.setting "extensions" (by decide)
    (Toml.writtenAs_quotedStrings scanner.extensions)
  have hnames := Lines.setting "file_names" (by decide)
    (Toml.writtenAs_quotedStrings scanner.fileNames)
  have hexclude := Lines.setting "exclude" (by decide)
    (Toml.writtenAs_quotedStrings scanner.exclude)
  exact ((hflag.append hextensions).append hnames).append hexclude

theorem nodup_entries (scanner : ScannerConfig) : (scanner.entries.map Prod.fst).Nodup := by
  simp [entries]

theorem ofToml?_entries (scanner : ScannerConfig) :
    ofToml? (.table .header scanner.entries) = some scanner := by
  have hstrings : ∀ ts : List Text, (Toml.array (ts.map .string)).asStrings? = some ts := by
    intro ts
    rw [Toml.asStrings?, List.mapM_map]
    exact List.mapM_pure.trans (congrArg some ts.map_id)
  obtain ⟨gitignore, extensions, fileNames, exclude⟩ := scanner
  have hextensions : Toml.decodeAt (entries ⟨gitignore, extensions, fileNames, exclude⟩)
      "extensions" Toml.asStrings? default.extensions = some extensions := hstrings extensions
  have hnames : Toml.decodeAt (entries ⟨gitignore, extensions, fileNames, exclude⟩) "file_names"
      Toml.asStrings? default.fileNames = some fileNames := hstrings fileNames
  have hexclude : Toml.decodeAt (entries ⟨gitignore, extensions, fileNames, exclude⟩) "exclude"
      Toml.asStrings? default.exclude = some exclude := hstrings exclude
  simp only [ofToml?, Toml.asEntries?, hextensions, hnames, hexclude, Option.bind_eq_bind,
    Option.bind_some]
  rfl

end ScannerConfig

/-- The entry of a setting that has a value. -/
def optionalEntry (key : Text) (value : Option Toml) : Entries :=
  value.toList.map fun value => (key, value)

theorem lines_optionalLine (key : Text) (hkey : Toml.isBareKey key = true)
    (value : Option Bool) :
    Lines (Toml.Statement.settings (optionalEntry key (value.map .boolean)))
      (optionalLine key value) := by
  cases value with
  | none => exact .nil
  | some b => exact .setting key hkey (Toml.writtenAs_ofBool b)

namespace RuleConfig

def entries (rule : RuleConfig) : Entries :=
  optionalEntry "enabled" (rule.enabled.map .boolean) ++
    optionalEntry "allow_in_test_directories" (rule.allowInTests.map .boolean)

theorem lines (rule : RuleConfig) :
    Lines (Toml.Statement.settings rule.entries) rule.tomlLines := by
  have henabled := lines_optionalLine "enabled" (by decide) rule.enabled
  have hallow :=
    lines_optionalLine "allow_in_test_directories" (by decide) rule.allowInTests
  rw [entries, Toml.Statement.settings, List.map_append]
  exact henabled.append hallow

theorem nodup_entries (rule : RuleConfig) : (rule.entries.map Prod.fst).Nodup := by
  obtain ⟨enabled, allowInTests⟩ := rule
  cases enabled <;> cases allowInTests <;> simp [entries, optionalEntry]

theorem ofToml?_entries (rule : RuleConfig) :
    ofToml? (.table .header rule.entries) = some rule := by
  obtain ⟨enabled, allowInTests⟩ := rule
  cases enabled <;> cases allowInTests <;> rfl

end RuleConfig

namespace RuleTable

/-- The settings of each rule, as entries of its table. -/
def groups (rules : RuleTable) : List (Text × Entries) :=
  rules.map fun (name, rule) => (name, rule.entries)

def statements (rules : RuleTable) : List Toml.Statement :=
  if rules.isEmpty then Toml.Statement.table [] "rules" []
  else rules.groups.flatMap fun (name, entries) => Toml.Statement.table ["rules"] name entries

/-- The table of the rules.  It has a header of its own only if it is empty. -/
def toToml (rules : RuleTable) : Toml :=
  if rules.isEmpty then .table .header [] else .table .implied (Toml.Statement.headed rules.groups)

theorem lines (rules : RuleTable) : Lines rules.statements (Config.rulesToml rules) := by
  rw [statements, Config.rulesToml]
  split
  next => exact .blank (.line (Toml.Statement.writtenAs_header "rules" (by decide)) .nil)
  next =>
    rw [groups, List.flatMap_map]
    apply Lines.flatMap
    rintro ⟨name, rule⟩ -
    change Lines (Toml.Statement.table ["rules"] name rule.entries)
      (("\n[rules." : Text) ++ Toml.quotedKey name ++ ("]\n" : Text) ++ rule.tomlLines)
    have hheader := Toml.Statement.writtenAs_header_below "rules" (by decide) name
    have htext : ("\n[rules." : Text) ++ Toml.quotedKey name ++ ("]\n" : Text) ++ rule.tomlLines =
        '\n' :: ((['['] ++ ("rules" : Text) ++ ['.'] ++ Toml.quotedKey name ++ [']']) ++
          '\n' :: rule.tomlLines) := by
      simp
    rw [htext]
    exact .blank (.line hheader rule.lines)

theorem foldlM_statements {rules : RuleTable} (h : rules.Sorted) {before : Entries}
    (hbefore : "rules".toList ∉ before.map Prod.fst) (target : Option (List Text × Text)) :
    ∃ last, rules.statements.foldlM Toml.Statement.perform? (before, target) =
      some (before ++ [(("rules" : Text), rules.toToml)], last) := by
  rw [statements, toToml]
  split
  next =>
    have hnone : (([] : Entries).map Prod.fst).Nodup := .nil
    exact ⟨_, Toml.Statement.foldlM_table Toml.placesAt_nil hbefore hnone target⟩
  next hne =>
    apply Toml.Statement.foldlM_tables_below hbefore
    · simpa [groups] using hne
    · rw [groups, List.map_map]
      exact h.imp fun hlt => hlt.ne
    · intro entry hentry
      obtain ⟨rule, -, rfl⟩ := List.mem_map.mp hentry
      exact rule.2.nodup_entries

theorem ofToml?_toToml (rules : RuleTable) : ofToml? rules.toToml = some (ofList rules) := by
  have hentries : (Toml.Statement.headed rules.groups).mapM
      (fun entry => (RuleConfig.ofToml? entry.2).map fun rule => (entry.1, rule)) = some rules := by
    simp only [Toml.Statement.headed, groups, List.mapM_map, Function.comp_def,
      RuleConfig.ofToml?_entries, Option.map_some]
    exact List.mapM_pure.trans (congrArg some rules.map_id)
  cases rules with
  | nil => rfl
  | cons entry rules => simp [toToml, ofToml?, hentries]

end RuleTable

namespace Config

variable {config : Config}

/-- What a configuration that is shown as a document says before its first header. -/
def topEntries (config : Config) : Entries :=
  optionalEntry "version" (config.version.map .string)

/-- The statements on the lines of a configuration that is shown as a document. -/
def statements (config : Config) : List Toml.Statement :=
  Toml.Statement.settings config.topEntries ++
    (Toml.Statement.table [] "scanner" config.scanner.entries ++ config.rules.statements)

/-- The entries of a configuration that is shown as a document. -/
def entries (config : Config) : Entries :=
  config.topEntries ++
    [(("scanner" : Text), Toml.table .header config.scanner.entries),
      (("rules" : Text), config.rules.toToml)]

theorem lines (config : Config) : Lines config.statements config.toToml := by
  have hscanner : Lines (Toml.Statement.table [] "scanner" config.scanner.entries)
      (("[scanner]\n" : Text) ++ config.scanner.tomlLines) :=
    .line (Toml.Statement.writtenAs_header "scanner" (by decide)) config.scanner.lines
  have hrest := hscanner.append config.rules.lines
  obtain ⟨version, scanner, rules⟩ := config
  cases version with
  | none => exact hrest
  | some version =>
      have hversion := Lines.setting "version" (by decide) (Toml.writtenAs_quoted version)
      have hblank : Lines [] ("\n" : Text) := .blank .nil
      have htop := (hversion.append hblank).append hrest
      simpa [statements, topEntries, optionalEntry, Toml.Statement.settings, toToml] using htop

/-- The statements open the table of the scanner and then those of the rules. -/
theorem performAll?_statements (h : config.rules.Sorted) :
    Toml.Statement.performAll? config.statements = some config.entries := by
  have htop : (Toml.Statement.settings config.topEntries).foldlM Toml.Statement.perform?
      ([], none) = some (config.topEntries, none) := by
    cases hversion : config.version <;> simp only [topEntries, hversion] <;> rfl
  have hfresh : "scanner".toList ∉ config.topEntries.map Prod.fst := by
    cases hversion : config.version <;> simp [topEntries, optionalEntry, hversion]
  have hscanner := Toml.Statement.foldlM_table Toml.placesAt_nil hfresh
    config.scanner.nodup_entries none
  have hbefore : "rules".toList ∉ (config.topEntries ++
      [(("scanner" : Text), Toml.table .header config.scanner.entries)]).map Prod.fst := by
    cases hversion : config.version <;> simp [topEntries, optionalEntry, hversion]
  obtain ⟨last, hrules⟩ := RuleTable.foldlM_statements h hbefore (some ([], "scanner"))
  rw [id, id] at hscanner
  rw [Toml.Statement.performAll?, statements, List.foldlM_append, htop, Option.bind_eq_bind,
    Option.bind_some, List.foldlM_append, hscanner, Option.bind_eq_bind, Option.bind_some, hrules]
  simp [entries]

theorem ofEntries?_entries (config : Config) :
    ofEntries? config.entries = some { config with rules := .ofList config.rules } := by
  have hversion : Toml.decodeAt config.entries "version" (fun v => v.asString?.map some) none =
      some config.version := by
    cases hversion : config.version <;> simp only [entries, topEntries, hversion] <;> rfl
  have hscanner : Toml.decodeAt config.entries "scanner" ScannerConfig.ofToml? .default =
      ScannerConfig.ofToml? (.table .header config.scanner.entries) := by
    cases hversion : config.version <;> simp only [entries, topEntries, hversion] <;> rfl
  have hrules : Toml.decodeAt config.entries "rules" RuleTable.ofToml? [] =
      RuleTable.ofToml? config.rules.toToml := by
    cases hversion : config.version <;> simp only [entries, topEntries, hversion] <;> rfl
  rw [ofEntries?, hversion, hscanner, hrules, config.scanner.ofToml?_entries,
    config.rules.ofToml?_toToml]
  rfl

theorem sorted_of_ofEntries? {es : Entries} (h : ofEntries? es = some config) :
    config.rules.Sorted := by
  simp only [ofEntries?, Option.bind_eq_bind, Option.bind_eq_some_iff] at h
  obtain ⟨version, -, scanner, -, rules, hrules, heq⟩ := h
  obtain rfl := Option.some.inj heq
  rw [Toml.decodeAt] at hrules
  split at hrules
  next =>
    obtain rfl := Option.some.inj hrules
    exact .nil
  next =>
    rw [RuleTable.ofToml?.eq_def] at hrules
    split at hrules
    next =>
      obtain ⟨settings, -, rfl⟩ := Option.map_eq_some_iff.mp hrules
      exact RuleTable.sorted_ofList settings
    next => exact absurd hrules (by simp)

/-- A configuration that has been read states the supported version, if any, and its rules are in
order. -/
theorem of_ofText_eq_ok {document : Text} (h : ofText document = .ok config) :
    (∀ version ∈ config.version, version = formatVersion) ∧ config.rules.Sorted := by
  rw [ofText] at h
  split at h
  next => exact absurd h (by simp)
  next read hread =>
    obtain ⟨es, -, hentries⟩ := Option.bind_eq_some_iff.mp hread
    split at h
    next hnone =>
      obtain rfl := Except.ok.inj h
      exact ⟨by simp [hnone], sorted_of_ofEntries? hentries⟩
    next version hsome =>
      split at h
      next hversion =>
        obtain rfl := Except.ok.inj h
        exact ⟨by simp [hsome, hversion], sorted_of_ofEntries? hentries⟩
      next => exact absurd h (by simp)

/-- The document of a supported configuration with its rules in order reads back. -/
theorem ofText_toToml (hversion : ∀ version ∈ config.version, version = formatVersion)
    (hsorted : config.rules.Sorted) : ofText config.toToml = .ok config := by
  have hmark : config.toToml.head? ≠ some Toml.byteOrderMark := by
    cases hstated : config.version <;> simp [toToml, hstated, Toml.settingLine] <;> decide
  have hread : (Toml.ofText? config.toToml).bind ofEntries? = some config := by
    rw [config.lines.ofText?_eq hmark, performAll?_statements hsorted, Option.bind_some,
      ofEntries?_entries, RuleTable.ofList_of_sorted hsorted]
  rw [ofText, hread]
  cases hstated : config.version with
  | none => simp [hstated]
  | some version => simp [hstated, hversion version hstated]

/-- A configuration that has been read is shown as a document that reads back as the same
configuration. -/
theorem ofText_shownConfig {document : Text} (h : ofText document = .ok config)
    (source : Option Text) : ofText (Command.shownConfig ⟨config, source⟩ .toml) = .ok config := by
  obtain ⟨hversion, hsorted⟩ := of_ofText_eq_ok h
  exact ofText_toToml hversion hsorted

/-- A configuration that is not written in the form in which it is shown: it has dotted keys,
escapes, a text of two lines, and the rules out of order, one of them without a name. -/
theorem ofText_shownConfig_of_dotted_keys :
    let document : Text :=
      ("scanner.exclude = ['a\"b', \"\\u0001'\", \"\"\"x\ny\"\"\"]\n" : Text) ++
        ("[rules.'odd \"key\"']\nenabled = true\n[rules.\"\"]\n" : Text)
    let config : Config :=
      ⟨none, { ScannerConfig.default with exclude := ["a\"b", "\x01'", "x\ny"] },
        [("", ⟨none, none⟩), ("odd \"key\"", ⟨some true, none⟩)]⟩
    ofText document = .ok config ∧
      ofText (Command.shownConfig ⟨config, none⟩ .toml) = .ok config := by
  intro document config
  have h : ofText document = .ok config := eq_ok_of_toOption (by decide +kernel)
  exact ⟨h, ofText_shownConfig h none⟩

end Config

end RequireLint
