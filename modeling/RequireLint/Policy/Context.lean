import RequireLint.Path.Lexical

/-!
# The inspected file

A context says where the inspected file lies with respect to its project: in the library,
in a test directory, or as the manifest of the package.
-/

namespace RequireLint

/-- The project root and the inspected file, in canonical form when they have one. -/
structure Context where
  projectRoot : Text
  filePath : Text
deriving Repr, DecidableEq

namespace Context

/-- The canonical form of a path, or the path itself when it has none. -/
def canonical (path : Text) : Text := (Path.normalize path).getD path

/-- The context of a file in a project, both given with `/` as separator. -/
def ofTexts (projectRoot filePath : Text) : Context :=
  ⟨canonical projectRoot, canonical filePath⟩

/-- The context of a file in a project, with either separator. -/
def ofPaths (projectRoot filePath : Text) : Context :=
  ofTexts (Path.toSlash projectRoot) (Path.toSlash filePath)

def libraryRoot (ctx : Context) : Text := Path.join ctx.projectRoot "lib"

def fileDirectory (ctx : Context) : Text := Path.dirname ctx.filePath

def inLibrary (ctx : Context) : Bool := Path.isWithin ctx.filePath ctx.libraryRoot

def isManifest (ctx : Context) : Bool := ctx.filePath.endsWith ".gemspec"

def testDirectories : List Text := ["spec", "specs", "test", "tests"]

def inTestDirectory (ctx : Context) : Bool :=
  testDirectories.any fun dir => Path.isWithin ctx.filePath (Path.join ctx.projectRoot dir)

end Context

end RequireLint
