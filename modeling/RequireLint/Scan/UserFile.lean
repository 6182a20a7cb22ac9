import RequireLint.Text.Blank
import RequireLint.Workspace

/-!
# The ignore file of the user

The settings of the version control may name the ignore file that counts for all directories of
the user.  They are looked up in two files, first in that of the home directory.  If neither names
an ignore file, it has its usual place.
-/

namespace RequireLint

/-- A text without the quote at its start, and one without the quote at its end. -/
def unquote (t : Text) : Text :=
  let opened := (Text.dropPrefix? "\"" t).elim t Text.trimStart
  if opened.endsWith "\"" then Text.trimEnd opened.dropLast else opened

/-- The ignore file that a line of settings names. -/
def excludesFileOn? (line : Text) : Option Text := do
  let key : Text := "excludesfile"
  let line := Text.trim line
  guard (Text.toLowerAscii (line.take key.length) = key)
  let value ← Text.dropPrefix? "=" (Text.trimStart (line.drop key.length))
  let file := unquote (Text.trim value)
  guard (!file.isEmpty && !file.any Text.isBlank)
  return file

/-- The ignore file that some settings name first. -/
def excludesFile? (settings : Text) : Option Text :=
  (settings.splitOn '\n').findSome? excludesFileOn?

/-- A path in which the home directory may be written as `~`. -/
def expandHome (home : Option Text) (path : Text) : Text :=
  path.flatMap fun c => if c = '~' then home.getD ['~'] else [c]

/-- The directory for the settings of all programs, given the home directory and the directory
that the environment names.  Only an absolute one counts. -/
def settingsDirectory? (home named : Option Text) : Option Text :=
  (named.filter (·.startsWith "/")).or (home.map (Path.under · ".config"))

/-- The directory for the settings of the version control.  Any directory that the environment
names counts. -/
def controlDirectory? (home named : Option Text) : Option Text :=
  ((named.filter (!·.isEmpty)).or (home.map (Path.under · ".config"))).map (Path.under · "git")

/-- The files with settings of the version control, in the order in which they are looked up. -/
def controlFiles (home named : Option Text) : List Text :=
  (home.map (Path.under · ".gitconfig")).toList ++
    ((controlDirectory? home named).map (Path.under · "config")).toList

/-- The ignore file of the user. -/
def userIgnoreFile? (tree : FileTree) (current : Place) (home named : Option Text) :
    Option Text :=
  let written := (controlFiles home named).findSome? fun path =>
    (tree.read current path).toOption.bind excludesFile?
  (written.map (expandHome home)).or ((controlDirectory? home named).map (Path.under · "ignore"))

/-- The settings of the user, as the environment and the settings of the version control have
them. -/
def userSettings? (tree : FileTree) (current : Place) (home named : Option Text) :
    Option UserSettings := do
  let directory ← settingsDirectory? home named
  let ignoreFile ← userIgnoreFile? tree current home named
  return ⟨directory, ignoreFile⟩

/-- An absolute directory that the environment names is that of all settings. -/
theorem controlDirectory?_eq {home named : Option Text}
    (hnamed : ∀ path ∈ named, path.startsWith "/" = true) :
    controlDirectory? home named = (settingsDirectory? home named).map (Path.under · "git") := by
  cases named with
  | none => rfl
  | some path =>
      have hrooted := hnamed path rfl
      have hne : path ≠ [] := by
        rintro rfl
        simp [Text.startsWith, Text.dropPrefix?] at hrooted
      have hcounts : (some path).filter (!·.isEmpty) = some path :=
        Option.filter_some_pos (by simpa using hne)
      have habsolute : (some path).filter (·.startsWith "/") = some path :=
        Option.filter_some_pos hrooted
      rw [controlDirectory?, settingsDirectory?, hcounts, habsolute]

/-- If the environment names no directory or an absolute one, and the settings of the version
control name no ignore file, the settings of the user are those of one directory. -/
theorem userSettings?_of_unnamed {tree : FileTree} {current : Place} {home named : Option Text}
    (hnamed : ∀ path ∈ named, path.startsWith "/" = true)
    (hunnamed : ∀ path ∈ controlFiles home named,
      (tree.read current path).toOption.bind excludesFile? = none) :
    userSettings? tree current home named =
      (settingsDirectory? home named).map UserSettings.ofDirectory := by
  have hwritten : ((controlFiles home named).findSome? fun path =>
      (tree.read current path).toOption.bind excludesFile?) = none :=
    List.findSome?_eq_none_iff.mpr hunnamed
  rw [userSettings?]
  cases hdirectory : settingsDirectory? home named with
  | none => rfl
  | some directory =>
      simp [userIgnoreFile?, hwritten, controlDirectory?_eq hnamed, hdirectory,
        UserSettings.ofDirectory]

example : excludesFile? "[core]\n\texcludesFile = \"~/.ignored\"\n" = some "~/.ignored" := by
  decide +kernel

end RequireLint
