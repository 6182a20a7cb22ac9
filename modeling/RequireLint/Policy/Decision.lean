import RequireLint.Policy.Context
import RequireLint.Recognition
import RequireLint.Source.Directive

/-!
# Deciding on an inclusion call

A policy says which inclusion calls offend.  `Policy.decide` judges a reference, `Policy.evaluate`
the argument it was recognized from.  A doubtful case is never an offense.
-/

namespace RequireLint

/-- A row of the decision table. -/
inductive Policy where
  /-- A `require` that resolves into the library. -/
  | hardcodingLib
  /-- A `require_relative` of a literal that resolves into the library.  Test code may be
  allowed to do so. -/
  | relativeHardcodingLib (allowInTests : Bool)
  /-- A literal with `../lib/` in it. -/
  | textualRelativeLib
  /-- A `require` of a path with `./lib/` in it. -/
  | textualRelativePath
deriving Repr, DecidableEq

structure Decision where
  offense : Bool
  /-- What to write instead of the whole statement, if that is known. -/
  replacement : Option Text
deriving Repr, DecidableEq

namespace Decision

def pass : Decision := ⟨false, none⟩

end Decision

namespace Reference

/-- The place that a reference resolves to, in canonical form. -/
def target (reference : Reference) (ctx : Context) : Option Text :=
  match reference.base with
  | .fileDirectory => Path.expand reference.literal ctx.fileDirectory
  | .file => Path.expand reference.literal ctx.filePath
  | .rooted => Path.normalize reference.literal
  | .unknown => none

def namesLibrary (literal : Text) : Bool :=
  literal.startsWith "lib/" || literal.contains "/lib/"

/-- Whether a reference resolves into the library.  Without a known base the literal has to
name the library itself. -/
def inLibrary (reference : Reference) (ctx : Context) : Bool :=
  match reference.base with
  | .unknown => namesLibrary reference.literal
  | _ =>
    match reference.target ctx with
    | none => false
    | some place => Path.isWithin place ctx.libraryRoot

/-- What follows the last library directory of a path, unless that is nothing. -/
def afterLibrary? (path : Text) : Option Text :=
  match Text.afterLast? "/lib/" path with
  | none | some [] => none
  | some rest => some rest

/-- The part of a path that the load path finds it by. -/
def loadName? (reference : Reference) (ctx : Context) : Option Text :=
  match reference.base with
  | .unknown => afterLibrary? ('/' :: reference.literal)
  | _ => (reference.target ctx).bind afterLibrary?

def requireStatement (name : Text) : Text :=
  ("require \"" : Text) ++ name ++ ("\"" : Text)

/-- The statement to write instead of a call with this reference. -/
def canonicalReplacement (reference : Reference) (ctx : Context) : Option Text :=
  (reference.loadName? ctx).map requireStatement

end Reference

namespace Policy

/-- Whether a policy looks at calls of this kind and shape. -/
def appliesTo (policy : Policy) (kind : Directive) (shape : Shape) : Bool :=
  match policy with
  | hardcodingLib | textualRelativePath => kind == .require
  | relativeHardcodingLib _ => kind == .requireRelative && shape == .plainLiteral
  | textualRelativeLib => shape == .plainLiteral

def autocorrects (policy : Policy) : Bool := policy == hardcodingLib

def exempts (policy : Policy) (ctx : Context) : Bool :=
  match policy with
  | hardcodingLib => ctx.inLibrary || ctx.isManifest
  | relativeHardcodingLib allowInTests =>
    ctx.inLibrary || ctx.isManifest || (allowInTests && ctx.inTestDirectory)
  | textualRelativeLib | textualRelativePath => false

def isMatch (policy : Policy) (reference : Reference) (ctx : Context) : Bool :=
  match policy with
  | hardcodingLib | relativeHardcodingLib _ => reference.inLibrary ctx
  | textualRelativeLib => Text.contains reference.written "../lib/"
  | textualRelativePath => Text.contains reference.written "./lib/"

/-- Judges a call by its reference. -/
def decide (policy : Policy) (kind : Directive) (reference : Reference) (ctx : Context) :
    Decision :=
  if policy.appliesTo kind reference.shape && policy.isMatch reference ctx
      && !policy.exempts ctx then
    ⟨true, if policy.autocorrects then reference.canonicalReplacement ctx else none⟩
  else .pass

/-- Judges a call by its argument.  An argument that is not recognized does not offend. -/
def evaluate (policy : Policy) (kind : Directive) (argument : Expr) (ctx : Context) : Decision :=
  match Reference.ofExpr? argument with
  | none => .pass
  | some reference => policy.decide kind reference ctx

end Policy

end RequireLint
