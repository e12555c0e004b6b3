/-
  BuilderSynthesis.Declaration.Host — what planning asks about declarations.

  Sources that have been scanned are one host; any other record of these answers is one too.
-/

import BuilderSynthesis.Declaration.Directive

namespace BuilderSynthesis

structure Host where
  /-- Every directive, in the order of the sources. -/
  directives : List Directive
  /-- The struct that a path means when it is written in a module. -/
  findType : String → ModulePath → Option DeclaredType
  /-- The constructors of a struct, in the order they are declared. -/
  constructors : DeclaredType → List Constructor
  /-- The properties of a struct that a module may read. -/
  accessors : DeclaredType → ModulePath → List Accessor
  /-- What was reported while the declarations were read. -/
  diagnostics : List Diagnostic

/-- A struct under the one path it is found by, with what can be asked about it. -/
structure HostEntry where
  path : String
  type : DeclaredType
  constructors : List Constructor
  accessors : List Accessor

/-- The host that answers from a list. Of several entries for one struct the first answers. -/
def Host.ofEntries (directives : List Directive) (entries : List HostEntry) : Host where
  directives
  findType path _ := (entries.find? (·.path == path)).map HostEntry.type
  constructors t := ((entries.find? (·.type == t)).map HostEntry.constructors).getD []
  accessors t _ := ((entries.find? (·.type == t)).map HostEntry.accessors).getD []
  diagnostics := []

end BuilderSynthesis
