/-
  BuilderSynthesis.Scan.Load — scanning the source roots of a file tree.

  Roots are scanned in order, each file by file. A file that is no text is reported and counts as
  scanned; a root that cannot be read ends the scan.
-/

import BuilderSynthesis.Scan.SourceTree

namespace BuilderSynthesis

namespace Scan

/-- The findings in a file that lies in a root. -/
def loadFile (tree : FileTree) (root : Nat) (dir file : String) : List Finding :=
  match tree.read file with
  | .ok text => fileFindings root dir file text
  | .error problem => [.problem ⟨.error, "cannot read " ++ file ++ ": " ++ problem.text, none⟩]

/-- The source files of one root, and the findings in them. -/
def loadRoot? (tree : FileTree) (index : Nat) (root : SourceRoot) : Option (List String × List Finding) :=
  (Discovery.sourceFiles? tree root.dir).map fun files =>
    (files, .entered files.length root.label :: files.flatMap (loadFile tree index root.dir))

/-- The source files and findings of roots up to the first that cannot be read, and that root. -/
def loadRoots (tree : FileTree) (index : Nat) :
    List SourceRoot → List String × List Finding × Option SourceRoot
  | [] => ([], [], none)
  | root :: rest =>
    match loadRoot? tree index root with
    | none => ([], [], some root)
    | some (files, findings) =>
      let (others, more, unreadable) := loadRoots tree (index + 1) rest
      (files ++ others, findings ++ more, unreadable)

end Scan

/-- What was scanned, and the root that ended the scan if one did. -/
structure Loaded where
  tree : SourceTree
  unreadable : Option SourceRoot

def SourceTree.load (tree : FileTree) (roots : List SourceRoot) : Loaded :=
  let (files, findings, unreadable) := Scan.loadRoots tree 0 roots
  ⟨⟨roots, files, findings⟩, unreadable⟩

end BuilderSynthesis
