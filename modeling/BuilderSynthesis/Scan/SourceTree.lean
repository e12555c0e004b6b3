/-
  BuilderSynthesis.Scan.SourceTree — the declarations of all scanned crates, and how they are
  looked up.

  A path is looked up by its last name. Its other names, without the words that anchor it, must
  agree with the end of the module that declares the struct; one name more may be that of the
  crate. Of several structs, one in the crate of the user comes before others, then one in the very
  module, then the first in the sources.
-/

import BuilderSynthesis.Declaration.Host
import BuilderSynthesis.Scan.Items

namespace BuilderSynthesis

structure SourceTree where
  roots : List SourceRoot
  /-- Every file that was scanned, in order. -/
  files : List String
  findings : List Finding

namespace SourceTree

/-! ## What was found -/

def types (tree : SourceTree) : List DeclaredType := tree.findings.filterMap Finding.declared?

def directives (tree : SourceTree) : List Directive := tree.findings.filterMap Finding.directive?

def blocks (tree : SourceTree) : List FunctionBlock := tree.findings.filterMap Finding.block?

def diagnostics (tree : SourceTree) : List Diagnostic := tree.findings.filterMap Finding.problem?

/-! ## Scanning -/

/-- The sources of one crate, each by its path from the root of the crate. -/
def ofSources (sources : List (String × String)) : SourceTree where
  roots := [.of ""]
  files := sources.map (·.1)
  findings := sources.flatMap fun (file, text) => Scan.fileFindings 0 "" file text

/-! ## Looking up -/

/-- The name of a crate in paths. -/
def rootName? (tree : SourceTree) (root : Nat) : Option String :=
  tree.roots[root]?.map fun r => r.label.map fun c => if c == '-' then '_' else c

/-- The names before the last of a path agree with a module. -/
def moduleMatches (tree : SourceTree) (module : ModulePath) (qualifiers : List String) : Bool :=
  let segments := module.segments
  if segments.length + 1 < qualifiers.length then false
  else if segments.length < qualifiers.length then
    (qualifiers.drop 1).reverse.isPrefixOf segments.reverse &&
      (match qualifiers.head? with
        | some crate => tree.rootName? module.root == some crate
        | none => true)
  else qualifiers.reverse.isPrefixOf segments.reverse

/-- The words that anchor a path instead of naming a module. -/
def anchors : List String := ["crate", "self", "super"]

/-- The names of a path that are not blank: the last one, and those before it without anchors. -/
def splitPath (path : String) : Option (String × List String) :=
  let segments := ((Text.segments path).map Text.trimBlank).filter (· != "")
  segments.getLast?.map fun name => (name, segments.dropLast.filter (!anchors.contains ·))

/-- How far a struct is from a user: other crates are farthest, then other modules. -/
def distance (user : ModulePath) (t : DeclaredType) : Nat :=
  if t.module.root != user.root then (if t.module != user then 3 else 2)
  else if t.module != user then 1
  else 0

/-- The first item with the least measure. -/
def firstLeast {α : Type} (measure : α → Nat) : List α → Option α
  | [] => none
  | a :: rest =>
    match firstLeast measure rest with
    | none => some a
    | some b => if measure b < measure a then some b else some a

def findType (tree : SourceTree) (path : String) (user : ModulePath) : Option DeclaredType :=
  match splitPath path with
  | none => none
  | some (name, qualifiers) =>
    firstLeast (distance user)
      (tree.types.filter fun t => t.name == name && tree.moduleMatches t.module qualifiers)

/-- The blocks of functions of a struct: those in its own module, and those in other modules of its
crate that declare no struct of the same name themselves. -/
def blocksOf (tree : SourceTree) (t : DeclaredType) : List FunctionBlock :=
  tree.blocks.filter fun block =>
    block.typeName == t.name && block.module.root == t.module.root &&
      (block.module == t.module ||
        !tree.types.any fun homonym => homonym.name == t.name && homonym.module == block.module)

def constructors (tree : SourceTree) (t : DeclaredType) : List Constructor :=
  let explicit := (tree.blocksOf t).flatMap FunctionBlock.constructors
  if explicit.isEmpty && t.shape == .named then [t.memberwise] else explicit

/-- Adds the getters that a module may call, each unless its property can be read already. -/
def addGetters (module user : ModulePath) (accessors : List Accessor) (getters : List Getter) : List Accessor :=
  getters.foldl
    (fun accessors getter =>
      if getter.visibility.admits module user && !accessors.any (·.property == getter.property) then
        accessors ++ [⟨getter.property, .getter getter.method, getter.type⟩]
      else accessors)
    accessors

def accessors (tree : SourceTree) (t : DeclaredType) (user : ModulePath) : List Accessor :=
  (tree.blocksOf t).foldl (fun found block => addGetters block.module user found block.getters)
    (t.fieldAccessors user)

def host (tree : SourceTree) : Host where
  directives := tree.directives
  findType := tree.findType
  constructors := tree.constructors
  accessors := tree.accessors
  diagnostics := tree.diagnostics

end SourceTree

end BuilderSynthesis
