import Mathlib.Data.List.Basic
import RequireLint.Config.Printer

/-!
# Configurations shown with the state of every rule

The text that shows a configuration is read back line by line.  `Config.enabledNames` are the names
in the headings that the line for an enabled rule follows, and these are the names of the rules that
the configuration has run.  Whatever texts a configuration holds, they are shown in quotes on lines
of their own, so none of them makes a heading.
-/

namespace RequireLint

/-! ## Lines -/

namespace Text

theorem splitOn_flatMap {lines : List Text} (h : ∀ line ∈ lines, '\n' ∉ line) :
    (lines.flatMap (· ++ ['\n'])).splitOn '\n' = lines ++ [[]] := by
  induction lines with
  | nil => rfl
  | cons line lines ih =>
      rw [List.forall_mem_cons] at h
      rw [List.flatMap_cons, List.append_assoc, List.singleton_append,
        List.splitOn_append_cons_self_of_not_mem h.1, ih h.2]
      rfl

theorem feed_not_mem_toDigits (n : Nat) : '\n' ∉ Nat.toDigits 16 n := by
  have hdigit : ∀ d : Nat, '\n' ≠ d.digitChar :=
    fun d => Ne.symm (Nat.digitChar_ne '\n' (by decide))
  induction n using Nat.strongRecOn with
  | ind n ih =>
      rw [Nat.toDigits_eq_if (by decide)]
      split
      next => simp [hdigit n]
      next hle => simp [ih (n / 16) (by omega), hdigit (n % 16)]

theorem feed_not_mem_join {sep : Text} {ts : List Text} (hsep : '\n' ∉ sep)
    (h : ∀ t ∈ ts, '\n' ∉ t) : '\n' ∉ join sep ts := by
  rw [join]
  induction ts with
  | nil => simp
  | cons t ts ih =>
      rw [List.forall_mem_cons] at h
      cases ts with
      | nil => simpa using h.1
      | cons u ts =>
          rw [List.intercalate_cons_cons]
          simp [hsep, h.1, ih h.2]

/-- A text between quotes stays on its line. -/
theorem feed_not_mem_quoted (t : Text) : '\n' ∉ quoted t := by
  have hchar : ∀ c : Char, '\n' ∉ quotedChar c := by
    intro c
    rw [quotedChar]
    split
    next hc => rcases hc with rfl | rfl <;> decide
    next =>
    split
    next => decide
    next hfeed =>
    repeat' split
    all_goals first
      | decide
      | simp [Ne.symm hfeed, hexDigits, feed_not_mem_toDigits]
  simp [quoted, hchar]

theorem feed_not_mem_quotedList (ts : List Text) : '\n' ∉ quotedList ts := by
  have hjoin : '\n' ∉ join ", " (ts.map quoted) := by
    apply feed_not_mem_join (by decide)
    intro t ht
    obtain ⟨u, -, rfl⟩ := List.mem_map.mp ht
    exact feed_not_mem_quoted u
  rw [quotedList, List.mem_append, List.mem_append]
  rintro ((hopen | hinner) | hclose)
  · exact absurd hopen (by decide)
  · exact hjoin hinner
  · exact absurd hclose (by decide)

end Text

namespace Config

variable {config : Config}

/-! ## The lines of a shown configuration -/

/-- The lines for the scanner. -/
def scannerLines (scanner : ScannerConfig) : List Text :=
  [("  gitignore = " : Text) ++ Toml.ofBool scanner.gitignore,
    ("  extensions = " : Text) ++ Text.quotedList scanner.extensions,
    ("  file_names = " : Text) ++ Text.quotedList scanner.fileNames] ++
    if scanner.exclude.isEmpty then []
    else [("  exclude = " : Text) ++ Text.quotedList scanner.exclude]

/-- The line on test code, for a rule that has one. -/
def testLines (config : Config) (id : RuleId) : List Text :=
  if id.allowsTestDirectories then
    [("  allow_in_test_directories = " : Text) ++ Toml.ofBool (config.allowsInTests id)]
  else []

/-- The lines for a rule. -/
def ruleLines (config : Config) (id : RuleId) : List Text :=
  [[], ("[rules." : Text) ++ id.name ++ ("]" : Text),
    ("  enabled = " : Text) ++ Toml.ofBool (config.isEnabled id)] ++ config.testLines id

/-- The lines of a configuration that is shown with the state of every rule. -/
def shownLines (config : Config) : List Text :=
  (["=== Effective Configuration ===", "", "[scanner]"] : List Text) ++
    (scannerLines config.scanner ++ RuleId.all.flatMap config.ruleLines)

theorem scannerText_eq_flatMap (scanner : ScannerConfig) :
    scanner.textLines = (scannerLines scanner).flatMap (· ++ ['\n']) := by
  unfold ScannerConfig.textLines scannerLines
  split <;>
    simp only [List.flatMap_cons, List.flatMap_nil, List.append_assoc, List.nil_append,
      List.cons_append, List.append_nil] <;>
    rfl

theorem ruleText_eq_flatMap (config : Config) (id : RuleId) :
    config.ruleText id = (config.ruleLines id).flatMap (· ++ ['\n']) := by
  unfold ruleText ruleLines testLines
  split <;>
    simp only [List.flatMap_cons, List.flatMap_nil, List.append_assoc, List.nil_append,
      List.cons_append, List.append_nil] <;>
    rfl

theorem toText_eq_flatMap (config : Config) :
    config.toText = config.shownLines.flatMap (· ++ ['\n']) := by
  rw [shownLines, List.flatMap_append, List.flatMap_append, List.flatMap_assoc,
    ← scannerText_eq_flatMap, ← funext config.ruleText_eq_flatMap, ← List.append_assoc]
  rfl

theorem feed_not_mem_ofBool (b : Bool) : '\n' ∉ Toml.ofBool b := by
  cases b <;> decide

theorem feed_not_mem_of_mem_scannerLines {scanner : ScannerConfig} :
    ∀ line ∈ scannerLines scanner, '\n' ∉ line := by
  have hlists : ∀ line ∈ [("  gitignore = " : Text) ++ Toml.ofBool scanner.gitignore,
      ("  extensions = " : Text) ++ Text.quotedList scanner.extensions,
      ("  file_names = " : Text) ++ Text.quotedList scanner.fileNames], '\n' ∉ line := by
    simp only [List.forall_mem_cons]
    exact ⟨List.not_mem_append (by decide) (feed_not_mem_ofBool _),
      List.not_mem_append (by decide) (Text.feed_not_mem_quotedList _),
      List.not_mem_append (by decide) (Text.feed_not_mem_quotedList _), by simp⟩
  rw [scannerLines, List.forall_mem_append]
  refine ⟨hlists, ?_⟩
  split
  next => simp
  next =>
    rw [List.forall_mem_singleton]
    exact List.not_mem_append (by decide) (Text.feed_not_mem_quotedList _)

theorem eq_of_mem_testLines {id : RuleId} {line : Text} (h : line ∈ config.testLines id) :
    line = ("  allow_in_test_directories = " : Text) ++ Toml.ofBool (config.allowsInTests id) := by
  rw [testLines] at h
  split at h
  next => exact List.mem_singleton.mp h
  next => exact absurd h List.not_mem_nil

theorem feed_not_mem_of_mem_ruleLines {id : RuleId} :
    ∀ line ∈ config.ruleLines id, '\n' ∉ line := by
  have hheading : '\n' ∉ ("[rules." : Text) ++ id.name ++ ("]" : Text) := by
    cases id <;> decide
  rw [ruleLines, List.forall_mem_append]
  constructor
  · simp only [List.forall_mem_cons]
    exact ⟨by simp, hheading, List.not_mem_append (by decide) (feed_not_mem_ofBool _), by simp⟩
  · intro line hline
    rw [eq_of_mem_testLines hline]
    exact List.not_mem_append (by decide) (feed_not_mem_ofBool _)

theorem feed_not_mem_of_mem_shownLines : ∀ line ∈ config.shownLines, '\n' ∉ line := by
  rw [shownLines, List.forall_mem_append, List.forall_mem_append]
  refine ⟨by decide, feed_not_mem_of_mem_scannerLines, ?_⟩
  intro line hline
  obtain ⟨id, -, hid⟩ := List.mem_flatMap.mp hline
  exact feed_not_mem_of_mem_ruleLines line hid

/-! ## The rules that it calls enabled -/

/-- The name in the heading of a rule. -/
def heading? (line : Text) : Option Text :=
  match Text.dropPrefix? "[rules." line with
  | none => none
  | some rest => if rest.getLast? = some ']' then some rest.dropLast else none

/-- The names in the headings that the line for an enabled rule follows. -/
def enabledNames : List Text → List Text
  | line :: next :: lines =>
    (if next = "  enabled = true" then (heading? line).toList else []) ++
      enabledNames (next :: lines)
  | _ => []

theorem heading?_ruleName (name : Text) :
    heading? (("[rules." : Text) ++ name ++ ("]" : Text)) = some name := by
  rw [heading?, List.append_assoc, Text.dropPrefix?_eq_some.mpr rfl]
  simp

theorem enabledNames_append_of_none (before : List Text)
    (h : ∀ line ∈ before, heading? line = none) (after : List Text) :
    enabledNames (before ++ after) = enabledNames after := by
  induction before with
  | nil => rfl
  | cons line before ih =>
      rw [List.forall_mem_cons] at h
      rw [← ih h.2, List.cons_append]
      cases before ++ after with
      | nil => rfl
      | cons next lines => rw [enabledNames, h.1, Option.toList_none, ite_self, List.nil_append]

theorem enabledNames_heading (name next : Text) (lines : List Text) :
    enabledNames ((("[rules." : Text) ++ name ++ ("]" : Text)) :: next :: lines) =
      (if next = "  enabled = true" then [name] else []) ++ enabledNames (next :: lines) := by
  rw [enabledNames, heading?_ruleName]
  rfl

/-- Of the lines for a rule, the reader takes its name if the rule runs. -/
theorem enabledNames_ruleLines (config : Config) (id : RuleId) (after : List Text) :
    enabledNames (config.ruleLines id ++ after) =
      (if config.isEnabled id then [id.name] else []) ++ enabledNames after := by
  have hstate : ("  enabled = " : Text) ++ Toml.ofBool (config.isEnabled id) =
      ("  enabled = true" : Text) ↔ config.isEnabled id = true := by
    cases config.isEnabled id <;> decide
  -- Neither the line for the state nor the one after it is a heading.
  have hnone : ∀ line ∈ (("  enabled = " : Text) ++ Toml.ofBool (config.isEnabled id)) ::
      config.testLines id, heading? line = none := by
    rw [List.forall_mem_cons]
    refine ⟨rfl, fun line hline => ?_⟩
    rw [eq_of_mem_testLines hline]
    rfl
  have hblank := enabledNames_append_of_none [[]] (by decide)
  have hafter := enabledNames_append_of_none _ hnone after
  refine (hblank _).trans ((enabledNames_heading id.name _ _).trans ?_)
  rw [if_congr hstate rfl rfl]
  exact congrArg _ hafter

theorem enabledNames_flatMap (config : Config) (ids : List RuleId) (after : List Text) :
    enabledNames (ids.flatMap config.ruleLines ++ after) =
      (ids.filter config.isEnabled).map RuleId.name ++ enabledNames after := by
  induction ids with
  | nil => rfl
  | cons id ids ih =>
      rw [List.flatMap_cons, List.append_assoc, enabledNames_ruleLines, ih, List.filter_cons]
      split <;> rfl

theorem heading?_of_mem_scannerLines {scanner : ScannerConfig} :
    ∀ line ∈ scannerLines scanner, heading? line = none := by
  rw [scannerLines, List.forall_mem_append]
  constructor
  · simp only [List.forall_mem_cons]
    exact ⟨rfl, rfl, rfl, by simp⟩
  · split
    next => simp
    next =>
      rw [List.forall_mem_singleton]
      rfl

theorem enabledNames_shownLines (config : Config) :
    enabledNames (config.shownLines ++ [[]]) =
      (RuleId.all.filter config.isEnabled).map RuleId.name := by
  rw [shownLines, List.append_assoc, enabledNames_append_of_none _ (by decide), List.append_assoc,
    enabledNames_append_of_none _ heading?_of_mem_scannerLines, enabledNames_flatMap]
  simp [enabledNames]

/-- A shown configuration calls those rules enabled that it has run, in order. -/
theorem enabledNames_toText (config : Config) :
    enabledNames (config.toText.splitOn '\n') =
      (RuleId.all.filter config.isEnabled).map RuleId.name := by
  rw [toText_eq_flatMap, Text.splitOn_flatMap feed_not_mem_of_mem_shownLines,
    enabledNames_shownLines]

end Config

end RequireLint
