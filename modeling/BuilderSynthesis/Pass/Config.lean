/-
  BuilderSynthesis.Pass.Config — what a pass scans, where it writes, and what it prints.
-/

import BuilderSynthesis.Files.Discovery

namespace BuilderSynthesis

structure Config where
  outDir : Option String
  /-- The directory whose manifest tells where dependencies lie. -/
  manifestDir : Option String
  roots : List SourceRoot
  /-- The names of the dependencies that are scanned too. -/
  dependencies : List String
  /-- Print every scanned root and file, so that a change of one runs the pass again. -/
  printsSources : Bool
  /-- Print every error. -/
  printsErrors : Bool
  deriving DecidableEq, Repr

namespace Config

def empty : Config := ⟨none, none, [], [], false, false⟩

/-- The variables that a build script finds set. -/
structure Environment where
  outDir : Option String
  manifestDir : Option String
  packageName : Option String
  deriving DecidableEq, Repr

/-- The sources of the package, shown under its name. -/
def packageRoot (environment : Environment) (manifestDir : String) : SourceRoot :=
  let dir := FilePath.join manifestDir "src"
  ⟨dir, environment.packageName.getD dir⟩

def ofEnvironment (environment : Environment) : Config where
  outDir := environment.outDir
  manifestDir := environment.manifestDir
  roots := (environment.manifestDir.map (packageRoot environment)).toList
  dependencies := []
  printsSources := true
  printsErrors := true

def withOutDir (c : Config) (dir : String) : Config := { c with outDir := some dir }

def withManifestDir (c : Config) (dir : String) : Config := { c with manifestDir := some dir }

def withSourceRoot (c : Config) (dir : String) : Config := { c with roots := c.roots ++ [.of dir] }

def withDependency (c : Config) (name : String) : Config := { c with dependencies := c.dependencies ++ [name] }

end Config

end BuilderSynthesis
