/-
  BuilderSynthesis.Pass.Run — one pass from its configuration to the builders it leaves behind.

  A pass locates its dependencies, scans all roots, emits a builder for every plan and removes the
  builders of earlier passes that it did not emit. Without directives it needs no output directory
  and only removes. A run is the answer together with the file tree it leaves, the lines it prints
  and the events it tells.
-/

import BuilderSynthesis.Log.Event
import BuilderSynthesis.Manifest.Package
import BuilderSynthesis.Pass.Config
import BuilderSynthesis.Pass.Generate
import BuilderSynthesis.Scan.Load
import BuilderSynthesis.Text.Lines

namespace BuilderSynthesis

structure PassReport where
  /-- The builders emitted, in the order they were emitted. -/
  written : List String
  /-- The builders of earlier passes that were removed, in order. -/
  removed : List String
  diagnostics : List Diagnostic
  deriving DecidableEq, Repr

def PassReport.hasErrors (r : PassReport) : Bool := r.diagnostics.any Diagnostic.isError

structure Run where
  result : Except PassError PassReport
  files : FileTree
  printed : List String
  events : List Event

namespace Run

/-- A run that ends before it has done anything. -/
def failed (error : PassError) (files : FileTree) (events : List Event) : Run := ⟨.error error, files, [], events⟩

end Run

namespace Config

/-! ## Dependencies -/

/-- The directory whose manifest counts: the one that is given, the one around the first root, or
the working directory. -/
def manifestDirectory (c : Config) : String :=
  (c.manifestDir <|> (c.roots.head?.bind fun root => FilePath.parent? root.dir)).getD "."

/-- A place as a path from the working directory. -/
def placePath (place : Place) : String := if place.isEmpty then "." else "/".intercalate place

/-- The roots of dependencies up to the first that cannot be located, and that one's name. -/
def dependencyRoots (files : FileTree) (manifestDir : String) : List String → List SourceRoot × Option String
  | [] => ([], none)
  | name :: rest =>
    match Manifest.library? files manifestDir name with
    | none => ([], some name)
    | some (place, label) =>
      let (roots, missing) := dependencyRoots files manifestDir rest
      (⟨placePath place, label⟩ :: roots, missing)

def dependencyEvents (roots : List SourceRoot) : List Event :=
  roots.map fun root => ⟨.debug, .discovery, "Dependency '" ++ root.label ++ "' sources at '" ++ root.dir ++ "'"⟩

/-! ## Printing -/

/-- The errors of a report as lines for whoever started the pass. -/
def warnings (c : Config) (report : PassReport) : List String :=
  if c.printsErrors then
    (report.diagnostics.filter Diagnostic.isError).flatMap fun d => Text.lines ("cargo:warning=" ++ d.text)
  else []

/-- The scanned roots and files, whose change is to start the next pass. -/
def sources (c : Config) (tree : SourceTree) : List String :=
  if c.printsSources then
    (tree.roots.map SourceRoot.dir ++ tree.files).flatMap fun path => Text.lines ("cargo:rerun-if-changed=" ++ path)
  else []

/-! ## Running -/

def nothingToGenerate : Diagnostic := ⟨.note, "no builder directives found; nothing to generate", none⟩

/-- The end of a pass: what was written and reported, and the builders that are removed now. -/
def finished (c : Config) (written : List String) (diagnostics : List Diagnostic) (events : List Event)
    (conclusion : Nat → List Event) (removal : BuilderDirectory.Removal) : Run :=
  match removal.result with
  | .error error => ⟨.error error, removal.files, [], events ++ removal.events⟩
  | .ok removed =>
    let report : PassReport := ⟨written, removed, diagnostics⟩
    ⟨.ok report, removal.files, c.warnings report, events ++ removal.events ++ conclusion removed.length⟩

/-- A pass over a host without directives. -/
def runEmpty (c : Config) (host : Host) (files : FileTree) : Run :=
  let diagnostics := host.diagnostics ++ [nothingToGenerate]
  let removal := match c.outDir.bind (BuilderDirectory.existing? files) with
    | some d => d.removeStale [] files
    | none => ⟨[], none, files⟩
  c.finished [] diagnostics (Event.ofDiagnostics diagnostics) (fun _ => []) removal

def conclusion (written : Nat) (dir : String) (removed : Nat) : List Event :=
  [⟨.info, .generation, "Generated " ++ toString written ++ " builders in " ++ dir ++ ", removed " ++
    toString removed ++ " stale"⟩]

/-- A pass that emits into a builder directory. -/
def runInto (c : Config) (host : Host) (d : BuilderDirectory) (files : FileTree) : Run :=
  let g := host.generate d.emitter files
  c.finished g.written (host.diagnostics ++ g.diagnostics) (Event.ofDiagnostics host.diagnostics ++ g.events)
    (conclusion g.written.length d.dir) (d.removeStale g.written g.state)

/-- A pass over the declarations of a host. -/
def runOn (c : Config) (host : Host) (files : FileTree) : Run :=
  if host.directives.isEmpty then c.runEmpty host files
  else
    let events := Event.ofDiagnostics host.diagnostics
    match c.outDir with
    | none => .failed .missingOutputDirectory files events
    | some outDir =>
      match BuilderDirectory.prepare files outDir with
      | (.error error, files) => .failed error files events
      | (.ok d, files) => c.runInto host d files

/-- A pass over the sources of the configured roots and dependencies. -/
def run (c : Config) (files : FileTree) : Run :=
  let (dependencies, missing) := dependencyRoots files c.manifestDirectory c.dependencies
  let located := dependencyEvents dependencies
  match missing with
  | some name => .failed (.dependency name) files located
  | none =>
    let loaded := SourceTree.load files (c.roots ++ dependencies)
    let events := located ++ loaded.tree.findings.filterMap Finding.event?
    match loaded.unreadable with
    | some root => .failed (.sourceRoot root.dir) files events
    | none =>
      let run := c.runOn loaded.tree.host files
      { run with
        printed := run.printed ++ (if run.result.isOk then c.sources loaded.tree else [])
        events := events ++ run.events }

end Config

end BuilderSynthesis
