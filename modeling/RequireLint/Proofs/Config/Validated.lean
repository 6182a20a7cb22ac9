import RequireLint.Command.Settings
import RequireLint.Proofs.Config.StateLines
import RequireLint.Proofs.File.Tree
import RequireLint.Proofs.Rule.Selection

/-!
# Validated configurations run

Validation, the rule set, the file filter and the text that shows a configuration decide on the
names of the rules, the patterns and the defaults each by themselves.  `Config.Valid` is what
validation accepts, and it is enough for the others to give a result.
-/

namespace RequireLint

/-! ## What validation accepts -/

theorem seq_eq_ok {ε β : Type} {first : Except ε Unit} {next : Unit → Except ε β} {b : β} :
    (first >>= next) = .ok b ↔ first = .ok () ∧ next () = .ok b := by
  rw [bind_eq_ok]
  exact ⟨fun ⟨_, hfirst, hnext⟩ => ⟨hfirst, hnext⟩, fun ⟨hfirst, hnext⟩ => ⟨(), hfirst, hnext⟩⟩

theorem forM_eq_ok {ε α : Type} {l : List α} {f : α → Except ε Unit} :
    l.forM f = .ok () ↔ ∀ a ∈ l, f a = .ok () := by
  induction l with
  | nil => simp [pure, Except.pure]
  | cons a l ih => rw [List.forM, seq_eq_ok, List.forall_mem_cons, ← ih, List.forM_eq_forM]

/-- A list can be mapped if each of its elements can. -/
theorem exists_mapM_eq_ok {ε α β : Type} {l : List α} {f : α → Except ε β}
    (h : ∀ a ∈ l, ∃ b, f a = .ok b) : ∃ bs, l.mapM f = .ok bs := by
  induction l with
  | nil => exact ⟨[], rfl⟩
  | cons a l ih =>
      obtain ⟨⟨b, hb⟩, hl⟩ := List.forall_mem_cons.mp h
      obtain ⟨bs, hbs⟩ := ih hl
      exact ⟨b :: bs, by rw [List.mapM_cons, hb, hbs]; rfl⟩

namespace Config

variable {config : Config}

/-- What validation asks of a configuration. -/
structure Valid (config : Config) : Prop where
  /-- Only rules that exist are set, and only those that can be are told to leave test code
  alone. -/
  rules : ∀ entry ∈ config.rules, ∃ id, RuleId.ofName? entry.1 = some id ∧
    (entry.2.allowInTests.isSome = true → id.allowsTestDirectories = true)
  patterns : ∀ pattern ∈ config.scanner.exclude, ∃ glob, FileFilter.readPattern pattern = .ok glob
  inspects : config.scanner.extensions ≠ [] ∨ config.scanner.fileNames ≠ []

theorem validateRule_eq_ok {name : Text} {rule : RuleConfig} :
    validateRule name rule = .ok () ↔ ∃ id, RuleId.ofName? name = some id ∧
      (rule.allowInTests.isSome = true → id.allowsTestDirectories = true) := by
  rw [validateRule]
  split
  next hnone => simp [hnone]
  next id hsome =>
    simp only [hsome, Option.some.injEq, exists_eq_left']
    cases rule.allowInTests.isSome <;> cases id.allowsTestDirectories <;> simp

theorem validate_eq_ok : config.validate = .ok () ↔ config.Valid := by
  have hpattern : ∀ pattern, (FileFilter.readPattern pattern).map (fun _ => ()) = .ok () ↔
      ∃ glob, FileFilter.readPattern pattern = .ok glob := by
    intro pattern
    cases FileFilter.readPattern pattern <;> simp [Except.map]
  have hinspects : ((if config.scanner.extensions.isEmpty && config.scanner.fileNames.isEmpty then
      .error (.config nothingInspected) else pure ()) : Except Failure Unit) = .ok () ↔
        config.scanner.extensions ≠ [] ∨ config.scanner.fileNames ≠ [] := by
    cases config.scanner.extensions <;> cases config.scanner.fileNames <;>
      simp [pure, Except.pure]
  rw [validate, seq_eq_ok, seq_eq_ok, forM_eq_ok, forM_eq_ok, hinspects]
  constructor
  · rintro ⟨hrules, hpatterns, hsome⟩
    exact ⟨fun entry hentry => validateRule_eq_ok.mp (hrules entry hentry),
      fun pattern hmem => (hpattern pattern).mp (hpatterns pattern hmem), hsome⟩
  · rintro ⟨hrules, hpatterns, hsome⟩
    exact ⟨fun entry hentry => validateRule_eq_ok.mpr (hrules entry hentry),
      fun pattern hmem => (hpattern pattern).mpr (hpatterns pattern hmem), hsome⟩

namespace Valid

variable (h : config.Valid)
include h

theorem ofConfig_eq_ok :
    RuleSet.ofConfig config .none = .ok ((RuleId.all.filter config.isEnabled).map fun id =>
      ⟨id, config.allowsInTests id⟩) := by
  have hknown : ∀ entry ∈ config.rules, (RuleId.ofName? entry.1).isSome = true := by
    intro entry hentry
    obtain ⟨id, hid, -⟩ := h.rules entry hentry
    rw [hid]
    rfl
  exact RuleSet.ofConfig_eq_ok hknown .none

theorem exists_filter : ∃ excludes, FileFilter.ofConfig config.scanner [] =
    .ok ⟨config.scanner.extensions, config.scanner.fileNames, excludes⟩ := by
  obtain ⟨excludes, hexcludes⟩ := exists_mapM_eq_ok h.patterns
  refine ⟨excludes, ?_⟩
  rw [FileFilter.ofConfig, FileFilter.ofPatterns, List.append_nil, hexcludes]
  rfl

end Valid

end Config

namespace Command

theorem validateFile_eq_ok {ws : Workspace} {path : Text} :
    validateFile ws path = .ok () ↔ ws.tree.contains ws.current path = true ∧
      ∃ loaded, ws.configStore.loadFrom path = .ok loaded ∧ loaded.config.Valid := by
  simp only [← Config.validate_eq_ok, ← bind_eq_ok]
  rw [validateFile]
  cases ws.tree.contains ws.current path <;> simp [bind, Except.bind]

/-- A configuration file that has been validated can be loaded, gives a rule set and a filter that
takes some files, and is shown with the rules of the rule set as the enabled ones. -/
theorem runs_of_validateFile {ws : Workspace} {path : Text} (h : validateFile ws path = .ok ()) :
    ∃ loaded rules filter, ws.configStore.loadFrom path = .ok loaded ∧
      RuleSet.ofConfig loaded.config .none = .ok rules ∧
      FileFilter.ofConfig loaded.config.scanner [] = .ok filter ∧
      (filter.extensions ≠ [] ∨ filter.fileNames ≠ []) ∧
      Config.enabledNames (loaded.config.toText.splitOn '\n') = rules.ids.map RuleId.name := by
  obtain ⟨-, loaded, hloaded, hvalid⟩ := validateFile_eq_ok.mp h
  obtain ⟨excludes, hfilter⟩ := hvalid.exists_filter
  refine ⟨loaded, _, _, hloaded, hvalid.ofConfig_eq_ok, hfilter, hvalid.inspects, ?_⟩
  rw [Config.enabledNames_toText]
  simp [RuleSet.ids, Function.comp_def]

/-- A file that excludes a directory and sets two rules against their defaults. -/
theorem runs_of_validateFile_with_exclude :
    let content : Text :=
      ("[scanner]\nexclude = [\"vendor/**\"]\n[rules.gemspec-git]\nenabled = false\n" : Text) ++
        ("[rules.relative-require-to-lib]\nenabled = true\n" : Text)
    let tree : FileTree :=
      { entries := [(["p"], .directory), (["p", "c.toml"], .file (.text content))]
        nodup := by decide }
    let ws : Workspace := ⟨tree, ["p"], none, false, false, false⟩
    validateFile ws "c.toml" = .ok () ∧
      ∃ loaded rules filter, ws.configStore.loadFrom "c.toml" = .ok loaded ∧
        RuleSet.ofConfig loaded.config .none = .ok rules ∧
        FileFilter.ofConfig loaded.config.scanner [] = .ok filter ∧
        (filter.extensions ≠ [] ∨ filter.fileNames ≠ []) ∧
        Config.enabledNames (loaded.config.toText.splitOn '\n') = rules.ids.map RuleId.name := by
  intro content tree ws
  have h : validateFile ws "c.toml" = .ok () := eq_ok_of_toOption (by decide +kernel)
  exact ⟨h, runs_of_validateFile h⟩

end Command

end RequireLint
