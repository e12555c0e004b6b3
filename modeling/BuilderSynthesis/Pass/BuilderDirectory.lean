/-
  BuilderSynthesis.Pass.BuilderDirectory — the directory that holds the builders.

  Each builder is a file named after its unit. A file that has the right text already is left
  alone; source files that a pass has not written are removed at its end.
-/

import BuilderSynthesis.Builder.Code
import BuilderSynthesis.Files.Tree
import BuilderSynthesis.Pass.Error

namespace BuilderSynthesis

/-- Where a builder was stored, and whether that changed the file. -/
structure Stored where
  path : String
  changed : Bool
  deriving DecidableEq, Repr

structure BuilderDirectory where
  dir : String
  deriving DecidableEq, Repr

namespace BuilderDirectory

/-- The name of the directory below the output directory. -/
def directoryName : String := "buildergen"

/-- The directory below an output directory, which is created with all that is missing around it. -/
def prepare (files : FileTree) (outDir : String) : Except PassError BuilderDirectory × FileTree :=
  let dir := FilePath.join outDir directoryName
  let (files, created) := files.createDirectories dir
  (if created then .ok ⟨dir⟩ else .error (.outputDirectory dir), files)

/-- The directory below an output directory, if it is there. -/
def existing? (files : FileTree) (outDir : String) : Option BuilderDirectory :=
  let dir := FilePath.join outDir directoryName
  if files.hasDirectory dir then some ⟨dir⟩ else none

def pathOf (d : BuilderDirectory) (unit : String) : String := FilePath.join d.dir (unit ++ ".rs")

/-! ## Writing -/

def store (d : BuilderDirectory) (plan : BuilderPlan) (files : FileTree) : Except PassError Stored × FileTree :=
  match plan.source with
  | .error e => (.error (.render plan.unit e.message), files)
  | .ok source =>
    let path := d.pathOf plan.unit
    match files.read path with
    | .ok found =>
      if found == source then (.ok ⟨path, false⟩, files) else write path source
    | .error _ => write path source
where
  write (path source : String) : Except PassError Stored × FileTree :=
    match files.write? path (.text source) with
    | some files => (.ok ⟨path, true⟩, files)
    | none => (.error (.writeBuilder path), files)

/-! ## Removing -/

/-- A source file that is none of those to be kept. -/
def isStale (keep : List String) (path : String) : Bool :=
  FilePath.isSource path && !keep.any (FilePath.same · path)

/-- Removes files one by one: those removed, and the first that could not be. -/
def removeAll (files : FileTree) : List String → List String × Option String × FileTree
  | [] => ([], none, files)
  | path :: rest =>
    match files.remove? path with
    | none => ([], some path, files)
    | some files =>
      let (removed, failed, files) := removeAll files rest
      (path :: removed, failed, files)

/-- What the removal of stale files did: the files removed one after the other, and the file or
directory that ended it. -/
structure Removal where
  removed : List String
  failed : Option String
  files : FileTree

def removeStale (d : BuilderDirectory) (keep : List String) (files : FileTree) : Removal :=
  match files.list? d.dir with
  | none => ⟨[], some d.dir, files⟩
  | some names =>
    let stale := (names.map (FilePath.join d.dir)).filter (isStale keep)
    let (removed, failed, files) := removeAll files stale
    ⟨removed, failed, files⟩

/-- The removed files in order, or the failure. -/
def Removal.result (r : Removal) : Except PassError (List String) :=
  match r.failed with
  | some path => .error (.staleBuilders path)
  | none => .ok (r.removed.mergeSort FilePath.le)

end BuilderDirectory

end BuilderSynthesis
