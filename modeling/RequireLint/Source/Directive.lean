import RequireLint.Source.Expr

/-!
# Inclusion directives

An inclusion call is a `require` or `require_relative` statement with its argument and the
range of the content that the statement takes up.
-/

namespace RequireLint

/-- The two ways to include a file. -/
inductive Directive where
  /-- Looks the file up on the load path. -/
  | require
  /-- Looks the file up from the directory of the including file. -/
  | requireRelative
deriving Repr, DecidableEq

namespace Directive

def keyword : Directive → Text
  | require => "require"
  | requireRelative => "require_relative"

def ofKeyword? (word : Text) : Option Directive :=
  [require, requireRelative].find? fun directive => directive.keyword = word

end Directive

/-- A range of a content, and the line and column where it starts. -/
structure Span where
  /-- Position of the first byte. -/
  start : Nat
  /-- Position after the last byte. -/
  stop : Nat
  /-- Line of the start, counted from one. -/
  line : Nat
  /-- Column of the start in bytes, counted from one. -/
  column : Nat
deriving Repr, DecidableEq

def Span.text (span : Span) (content : Text) : Text := content.slice span.start span.stop

structure InclusionCall where
  kind : Directive
  argument : Expr
  /-- The range from the keyword to the end of the argument. -/
  span : Span
deriving Repr, DecidableEq

end RequireLint
