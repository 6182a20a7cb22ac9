import RequireLint.Glob.Pattern

/-!
# Failures

A run fails for one of these reasons.  The wording of a failure is what `message`, `detail?` and
`suggestion?` say, and a report of it is headed by its `category`.
-/

namespace RequireLint

/-- Why a file cannot be read or written. -/
inductive FileError where
  | missing
  | isDirectory
  /-- A file stands where a directory is needed. -/
  | notDirectory
  /-- Something stands where a directory is to be made. -/
  | alreadyExists
  /-- The user may not do that. -/
  | denied
  | notText
  | other (reason : Text)
deriving Repr, DecidableEq

/-- The wording of a file error. -/
def FileError.message : FileError → Text
  | missing => "No such file or directory (os error 2)"
  | isDirectory => "Is a directory (os error 21)"
  | notDirectory => "Not a directory (os error 20)"
  | alreadyExists => "File exists (os error 17)"
  | denied => "Permission denied (os error 13)"
  | notText => "stream did not contain valid UTF-8"
  | other reason => reason

/-- Why a run fails. -/
inductive Failure where
  /-- A configuration, or a request for one, makes no sense. -/
  | config (reason : Text)
  | fileRead (path : Text) (cause : FileError)
  | fileWrite (path : Text) (cause : FileError)
  | invalidPattern (pattern : Text) (cause : GlobError)
  | unknownRule (name : Text)
  /-- A directory cannot be made. -/
  | io (cause : FileError)
  /-- A configuration file is not a TOML document of a configuration. -/
  | tomlParse
deriving Repr, DecidableEq

namespace Failure

/-- The heading under which a failure is reported. -/
def category : Failure → Text
  | config _ | tomlParse => "Config"
  | fileRead _ _ | fileWrite _ _ | io _ => "IO"
  | invalidPattern _ _ => "Pattern"
  | unknownRule _ => "Rule"

/-- What went wrong. -/
def message : Failure → Text
  | config reason => ("Configuration error: " : Text) ++ reason
  | fileRead path _ => ("Failed to read file: " : Text) ++ path
  | fileWrite path _ => ("Failed to write file: " : Text) ++ path
  | invalidPattern pattern _ => ("Invalid glob pattern: " : Text) ++ pattern
  | unknownRule name => ("Unknown rule: " : Text) ++ name
  | io cause => ("IO error: " : Text) ++ cause.message
  | tomlParse => "TOML parse error: the document is not a configuration"

/-- The cause behind a failure. -/
def detail? : Failure → Option Text
  | fileRead _ cause | fileWrite _ cause => some cause.message
  | invalidPattern pattern cause => some (cause.message pattern)
  | _ => none

/-- What to do about a failure. -/
def suggestion? : Failure → Option Text
  | unknownRule _ => some "run `packaging-guard rules` to list the available rules"
  | tomlParse => some "run `packaging-guard config validate` to check the file"
  | _ => none

end Failure

end RequireLint
