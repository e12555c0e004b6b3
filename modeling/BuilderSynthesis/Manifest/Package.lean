/-
  BuilderSynthesis.Manifest.Package — packages in a file tree, and where their libraries lie.

  The manifest that counts is the nearest one at or above a directory. Its package is known
  together with all packages it depends on by path, and with those of a workspace around it. As
  nothing is fetched, a dependency that is not given by a path cannot be located, and then no
  package can.
-/

import BuilderSynthesis.Files.Discovery
import BuilderSynthesis.Manifest.Settings

namespace BuilderSynthesis.Manifest

structure PathDependency where
  name : String
  place : Place

structure Package where
  name : String
  place : Place
  /-- The directory of the library's first file. -/
  library : Option Place
  dependencies : List PathDependency

def fileName : String := "Cargo.toml"

/-- The settings of the manifest in a directory. -/
def settingsAt? (files : FileTree) (place : Place) : Option Settings :=
  match files.get? (place ++ [fileName]) with
  | some (.file (.text text)) => Settings.ofText? text
  | _ => none

def hasManifest (files : FileTree) (place : Place) : Bool :=
  match files.get? (place ++ [fileName]) with
  | some (.file _) => true
  | _ => false

/-! ## Libraries -/

/-- The library is one that other packages link to, and not one that the compiler runs. -/
def isLinked (settings : Settings) : Bool :=
  !settings.isSet ["lib", "proc-macro"] && !settings.isSet ["lib", "proc_macro"] &&
    (!settings.mentions ["lib", "crate-type"] || (settings.texts ["lib", "crate-type"]).contains "lib")

/-- Where the first file of the library is, if the package has a library. A library that is
declared must have a place. -/
def libraryFile (files : FileTree) (settings : Settings) (place : Place) : Option (Option Place) :=
  let usual := place ++ ["src", "lib.rs"]
  match settings.text? ["lib", "path"] with
  | some path => (files.follow place (FilePath.components path)).map some
  | none =>
    if (files.get? usual).isSome then some (some usual)
    else if settings.mentions ["lib"] then none
    else some none

/-- The directories below which every file is a program. -/
def programPlaces : List (List String) := [["src", "bin"], ["examples"], ["tests"], ["benches"]]

/-- The package has something to build besides a library. -/
def hasProgram (files : FileTree) (settings : Settings) (place : Place) : Bool :=
  (files.get? (place ++ ["src", "main.rs"])).isSome || settings.mentions ["bin"] ||
    programPlaces.any fun below => (files.names (place ++ below)).any FilePath.isSource

/-! ## Dependencies -/

/-- What a manifest says about one dependency: where it is, nothing that counts, or that it would
have to be fetched. -/
def dependency (files : FileTree) (settings : Settings) (place : Place) (path : List String) (key : String) :
    Option (List PathDependency) :=
  match settings.text? (path ++ [key, "path"]) with
  | none => none
  | some relative => do
    let target ← files.follow place (FilePath.components relative)
    let name := (settings.text? (path ++ [key, "package"])).getD key
    pure (if settings.isSet (path ++ [key, "optional"]) then [] else [⟨name, target⟩])

def dependenciesIn (files : FileTree) (settings : Settings) (place : Place) (path : List String) :
    Option (List PathDependency) :=
  ((settings.keysBelow path).mapM (dependency files settings place path)).map List.flatten

/-- The groups of dependencies. Those for tests count for the first package only. -/
def dependencyGroups (first : Bool) : List (List String) :=
  [["dependencies"], ["build-dependencies"]] ++ (if first then [["dev-dependencies"]] else [])

/-! ## Packages -/

def isValidName (name : String) : Bool :=
  match name.toList with
  | [] => false
  | c :: rest => (c.isAlpha || c == '_') && rest.all fun c => c.isAlphanum || c == '_' || c == '-'

/-- The package in a directory, if its manifest is in order. -/
def package? (files : FileTree) (first : Bool) (place : Place) : Option Package := do
  let settings ← settingsAt? files place
  let name ← settings.text? ["package", "name"]
  let library ← libraryFile files settings place
  if !isValidName name || (library.isNone && !hasProgram files settings place) then none
  else
    let dependencies ← (dependencyGroups first).mapM (dependenciesIn files settings place)
    pure {
      name
      place
      library := if isLinked settings then library.map List.dropLast else none
      dependencies := dependencies.flatten }

/-- The package that a dependency names. -/
def depended? (files : FileTree) (d : PathDependency) : Option Package :=
  match package? files false d.place with
  | some p => if p.name == d.name then some p else none
  | none => none

/-- Adds the packages that are not there yet. -/
def addNew (found : List Package) : List Package → List Package
  | [] => found
  | p :: rest => addNew (if found.any (·.place == p.place) then found else found ++ [p]) rest

/-- The packages found, with all that those from a place in the list on depend on. -/
def closure (files : FileTree) : Nat → Nat → List Package → Option (List Package)
  | 0, _, found => some found
  | n + 1, done, found =>
    match found.drop done with
    | [] => some found
    | pending => do
      let next ← (pending.flatMap Package.dependencies).mapM (depended? files)
      closure files n found.length (addNew found next)

/-- The directories at and above a place, nearest first. -/
def ancestors (place : Place) : List Place :=
  (List.range (place.length + 1)).map fun up => place.take (place.length - up)

def isWorkspace (files : FileTree) (place : Place) : Bool :=
  (settingsAt? files place).any (·.mentions ["workspace"])

/-- The packages that a workspace names as its members. -/
def members (files : FileTree) (place : Place) : Option (List Package) := do
  let settings ← settingsAt? files place
  let own ← if settings.mentions ["package"] then some <$> package? files true place else pure none
  let others ← (settings.texts ["workspace", "members"]).mapM fun path => (files.follow place (FilePath.components path)).bind (package? files true)
  pure (own.toList ++ others)

/-- All packages that are known in a directory, by name. -/
def packages (files : FileTree) (place : Place) : Option (List Package) := do
  let nearest ← (ancestors place).find? (hasManifest files)
  let around ← match (ancestors nearest).find? (isWorkspace files) with
    | some outer => members files outer
    | none => pure []
  let own ← if isWorkspace files nearest then pure [] else (package? files true nearest).map fun p => [p]
  let all ← closure files (files.entries.length + 1) 0 (addNew [] (around ++ own))
  pure (all.mergeSort fun a b => decide (a.name ≤ b.name))

/-! ## Looking up -/

/-- Names are the same when they differ only in the kind of dash. -/
def comparedName (name : String) : String := name.map fun c => if c == '-' then '_' else c

/-- Where the library of a package lies, and what the package is called. -/
def library? (files : FileTree) (manifestDir name : String) : Option (Place × String) := do
  let place ← files.locate manifestDir
  if !files.isDirectory place then none
  else
    let known ← packages files place
    let p ← known.find? fun p => comparedName p.name == comparedName name
    let dir ← p.library
    pure (dir, p.name)

end BuilderSynthesis.Manifest
