import RequireLint.Text

/-!
# The configuration to start from

A new configuration file sets everything to its default and says what it means.
-/

namespace RequireLint.Config

/-- The lines of a new configuration file. -/
def templateLines : List String :=
  ["# packaging-guard configuration file",
    "version = \"1\"",
    "",
    "[scanner]",
    "# Respect .gitignore files (default: true)",
    "gitignore = true",
    "",
    "# Extensions to inspect",
    "extensions = [\"rb\", \"gemspec\", \"rake\", \"ru\"]",
    "",
    "# Extension-less files to inspect",
    "file_names = [\"Gemfile\", \"Rakefile\", \"Guardfile\"]",
    "",
    "# Glob patterns to skip, relative to the scanned directory",
    "exclude = [\"vendor/**\"]",
    "",
    "# `require` of a path that resolves into lib/ (autocorrected to `require \"<path>\"`)",
    "[rules.require-hardcoding-lib]",
    "enabled = true",
    "",
    "# `require_relative` of a literal that resolves into lib/",
    "[rules.require-relative-hardcoding-lib]",
    "enabled = true",
    "# Skip files under spec/, specs/, test/ and tests/",
    "allow_in_test_directories = false",
    "",
    "# Textual fallback: any literal containing `../lib/`",
    "[rules.relative-require-to-lib]",
    "enabled = false",
    "",
    "# Textual fallback: `require` whose path contains `./lib/`",
    "[rules.require-with-relative-path]",
    "enabled = false",
    "",
    "# `require \"bundler/setup\"` in test directories (autocorrected by removal)",
    "[rules.bundler-setup-in-tests]",
    "enabled = true",
    "",
    "# Shelling out to git inside `Gem::Specification.new`",
    "[rules.gemspec-git]",
    "enabled = true"]

def template : Text := templateLines.flatMap fun line => line.toList ++ ['\n']

end RequireLint.Config
