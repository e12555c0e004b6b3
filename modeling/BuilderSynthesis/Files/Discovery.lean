/-
  BuilderSynthesis.Files.Discovery — the source files below a directory, and the modules they are.

  The search keeps the places that are still to be visited, the next one first. A directory puts what
  it holds before them, so directories are searched in the order in which they are listed; the files
  that are found are put in the order of their paths in the end.
-/

import BuilderSynthesis.Files.Listing
import BuilderSynthesis.Pass.Error

namespace BuilderSynthesis

/-- A directory with the sources of a crate, and the name it is shown under. -/
structure SourceRoot where
  dir : String
  label : String
  deriving DecidableEq, Repr

/-- A root that is shown under its path. -/
def SourceRoot.of (dir : String) : SourceRoot := ⟨dir, dir⟩

namespace Discovery

/-- Hidden directories and build results are not searched. -/
def skips (name : String) : Bool := name.toList.head? == some '.' || name == "target"

/-- The places of source files from pending places on, after those that were found before. -/
def search {tree : FileTree} (listing : Listing tree) : List Place → List Place → List Place
  | [], found => found
  | place :: pending, found =>
    if tree.isDirectory place then
      if place.getLast?.any skips then search listing pending found
      else search listing ((listing.inside place).reverse ++ pending) found
    else if place.getLast?.any FilePath.isSource then search listing pending (found ++ [place])
    else search listing pending found
termination_by pending => tree.weight pending
decreasing_by
  · exact tree.weight_rest place pending
  · exact listing.weight_opened place pending
  · exact tree.weight_rest place pending
  · exact tree.weight_rest place pending

/-- The source files below a directory, in the order of their paths, when directories are listed in
some order. -/
def sourceFilesBy {tree : FileTree} (listing : Listing tree) (dir : String) : Except PassError (List String) :=
  match tree.locate dir with
  | some root =>
    if tree.isDirectory root then
      let found := search listing (listing.inside root).reverse []
      .ok ((found.map fun place => FilePath.joinAll dir (place.drop root.length)).mergeSort FilePath.le)
    else .error (.sourceRoot dir)
  | none => .error (.sourceRoot dir)

/-- The source files below a directory that can be read. -/
def sourceFiles? (tree : FileTree) (dir : String) : Option (List String) :=
  (sourceFilesBy (.lastToFirst tree) dir).toOption

/-- The names of the modules that lead to the one a file holds. The file of a crate root leads
nowhere, and `mod.rs` stands for its directory. -/
def moduleSegments (dir file : String) : List String :=
  match FilePath.below? dir file with
  | none => []
  | some components =>
    let segments := match components.reverse with
      | .name name :: before => (before.reverse.map PathComponent.text) ++ [FilePath.withoutExtension name]
      | _ => components.map PathComponent.text
    match segments.getLast? with
    | some "mod" => segments.dropLast
    | some "lib" | some "main" => if segments.length == 1 then [] else segments
    | _ => segments

end Discovery

end BuilderSynthesis
