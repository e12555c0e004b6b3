/-
  BuilderSynthesis.Files.Tree — the files and directories that a pass reads and writes.

  A tree maps places, the names that lead to them, to what is there. The working directory is the
  empty place and always a directory. A path is followed one component at a time, so that a step
  up is taken only from a directory that exists.
-/

import BuilderSynthesis.Files.Entries

namespace BuilderSynthesis

structure FileTree where
  entries : List Located
  wellFormed : Entries.WellFormed entries

namespace FileTree

def empty : FileTree := ⟨[], .empty⟩

def get? (tree : FileTree) (place : Place) : Option FileEntry := Entries.get? tree.entries place

def isDirectory (tree : FileTree) (place : Place) : Bool := tree.get? place == some .directory

/-- Something can be put there: the name is one, it is put into a directory, and not over one. -/
def isFree (tree : FileTree) (place : Place) : Bool :=
  place.getLast?.any FilePath.isName && tree.isDirectory place.dropLast && !tree.isDirectory place

theorem isFree_iff (tree : FileTree) (place : Place) :
    tree.isFree place = true ↔ place.getLast?.any FilePath.isName = true ∧
      tree.get? place.dropLast = some .directory ∧ tree.get? place ≠ some .directory := by
  simp [isFree, isDirectory, and_assoc]

/-- Puts an entry at a place, if it is free. -/
def put? (tree : FileTree) (place : Place) (entry : FileEntry) : Option FileTree :=
  if h : tree.isFree place = true then
    have h := (tree.isFree_iff place).mp h
    some ⟨Entries.put tree.entries place entry, tree.wellFormed.put entry h.1 h.2.1 h.2.2⟩
  else none

/-- Without what lies at a place, unless that is a directory. -/
def erase? (tree : FileTree) (place : Place) : Option FileTree :=
  match h : tree.get? place with
  | some (.file _) =>
    have hd : Entries.get? tree.entries place ≠ some .directory := by
      intro h'
      cases h.symm.trans h'
    some ⟨Entries.erase tree.entries place, tree.wellFormed.erase hd⟩
  | _ => none

/-- Without a place and everything below it. -/
def eraseBelow (tree : FileTree) (place : Place) : FileTree :=
  ⟨Entries.eraseBelow tree.entries place, tree.wellFormed.eraseBelow place⟩

/-- The names in a directory. -/
def names (tree : FileTree) (place : Place) : List String :=
  let depth := place.length + 1
  tree.entries.filterMap fun found =>
    if found.depth == depth && found.place.dropLast == place then found.place.getLast? else none

/-! ## Following paths -/

/-- The place that one component leads to from a directory. -/
def step? (place : Place) (component : PathComponent) : Option Place :=
  match component with
  | .root => none
  | .current => some place
  | .parent => if place.isEmpty then none else some place.dropLast
  | .name name => if component.isShort then some (place ++ [name]) else none

/-- The place that components lead to from a place. Every step starts from a directory that exists. -/
def follow (tree : FileTree) : Place → List PathComponent → Option Place
  | place, [] => some place
  | place, component :: rest =>
    if tree.isDirectory place then (step? place component).bind fun next => follow tree next rest else none

/-- The place that a path names, whether anything is there or not. The empty path names none, and
neither does one that no file system takes. -/
def locate (tree : FileTree) (path : String) : Option Place :=
  if path == "" || !FilePath.isUsable path then none else tree.follow [] (FilePath.components path)

def entry? (tree : FileTree) (path : String) : Option FileEntry := (tree.locate path).bind tree.get?

def hasDirectory (tree : FileTree) (path : String) : Bool := tree.entry? path == some .directory

/-! ## Reading -/

inductive ReadProblem where
  | unreadable
  | notText
  deriving DecidableEq

def ReadProblem.text : ReadProblem → String
  | unreadable => "No such file or directory (os error 2)"
  | notText => "stream did not contain valid UTF-8"

def read (tree : FileTree) (path : String) : Except ReadProblem String :=
  match tree.entry? path with
  | some (.file (.text text)) => .ok text
  | some (.file (.bytes _)) => .error .notText
  | _ => .error .unreadable

/-- The names in the directory at a path. A directory is listed from its last name to its first. -/
def list? (tree : FileTree) (path : String) : Option (List String) :=
  match tree.locate path with
  | some place =>
    if tree.isDirectory place then some ((tree.names place).mergeSort fun a b => decide (b ≤ a)) else none
  | none => none

/-! ## Writing -/

/-- Writes a file into a directory that exists. -/
def write? (tree : FileTree) (path : String) (content : Content) : Option FileTree :=
  (tree.locate path).bind fun place => tree.put? place (.file content)

/-- Removes a file. -/
def remove? (tree : FileTree) (path : String) : Option FileTree := (tree.locate path).bind tree.erase?

/-- With a directory at a place, unless a file is there. -/
def withDirectoryAt? (tree : FileTree) (place : Place) : Option FileTree :=
  match tree.get? place with
  | some .directory => some tree
  | some (.file _) => none
  | none => tree.put? place .directory

/-- Creates the directories on the way that are missing. Whether all could be created; those before
the first that could not stay. -/
def createAlong (tree : FileTree) : Place → List PathComponent → FileTree × Bool
  | _, [] => (tree, true)
  | place, component :: rest =>
    match step? place component with
    | none => (tree, false)
    | some next =>
      match tree.withDirectoryAt? next with
      | some tree => createAlong tree next rest
      | none => (tree, false)

def createDirectories (tree : FileTree) (path : String) : FileTree × Bool :=
  if FilePath.isUsable path then createAlong tree [] (FilePath.components path) else (tree, false)

/-- Everything below a place. -/
def below (tree : FileTree) (place : Place) : List Located :=
  let depth := place.length
  tree.entries.filter fun found => depth < found.depth && place.isPrefixOf found.place

/-! ## Arranging trees -/

/-- With a file at a path, and with the directories around it. -/
def withFile (tree : FileTree) (path : String) (content : Content) : FileTree :=
  let (tree, _) := tree.createDirectories ((FilePath.parent? path).getD "")
  (tree.write? path content).getD tree

def withoutFile (tree : FileTree) (path : String) : FileTree := (tree.remove? path).getD tree

def withDirectory (tree : FileTree) (path : String) : FileTree := (tree.createDirectories path).1

/-- Without a directory and everything below it. -/
def withoutDirectory (tree : FileTree) (path : String) : FileTree :=
  match tree.locate path with
  | some place => if tree.isDirectory place then tree.eraseBelow place else tree
  | none => tree

def entryText (path : String) (entry : FileEntry) : String :=
  if entry == .directory then path ++ "/" else path

/-- The paths below a directory in order, with a slash after those of directories. -/
def listing (tree : FileTree) (path : String) : List String :=
  match tree.locate path with
  | some place =>
    ((tree.below place).map fun found =>
      entryText (FilePath.joinAll path (found.place.drop place.length)) found.entry).mergeSort
        fun a b => decide (a ≤ b)
  | none => []

end FileTree

end BuilderSynthesis
