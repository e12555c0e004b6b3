/-
  BuilderSynthesis.Log.Setup — where the log of a process goes.

  A process sets its log up once. Later attempts leave the first setup in place and get no guard.
  The log is always shown, and it is also kept in a file if there is a directory for that.
-/

import BuilderSynthesis.Files.Tree
import BuilderSynthesis.Log.Filter

namespace BuilderSynthesis

structure LogSetup where
  filter : LogFilter
  file : Option String
  deriving Repr

namespace LogSetup

def fileName : String := "buildergen.log"

/-- The setup for the value of the variable that sets the filter and a directory for the log file. -/
def make (setting : Option String) (dir : Option String) : LogSetup :=
  ⟨.ofVariable setting, dir.map fun dir => FilePath.join dir fileName⟩

/-- Sets the log up unless that has been done, and says whether that gives a guard. -/
def install (current : Option LogSetup) (setup : LogSetup) : LogSetup × Bool :=
  match current with
  | some earlier => (earlier, false)
  | none => (setup, setup.file.isSome)

/-- The file tree with the log file in it. -/
def opened (setup : LogSetup) (files : FileTree) : FileTree :=
  match setup.file with
  | some path => if (files.entry? path).isSome then files else files.withFile path (.text "")
  | none => files

/-- The file tree without the log file. -/
def discarded (setup : LogSetup) (files : FileTree) : FileTree :=
  match setup.file with
  | some path => files.withoutFile path
  | none => files

/-- The events that are shown. -/
def shown (setup : LogSetup) (events : List Event) : List Event := setup.filter.logged events

/-- The events in the log file, if there is one. -/
def kept (setup : LogSetup) (events : List Event) : Option (List Event) :=
  setup.file.map fun _ => setup.filter.logged events

end LogSetup

end BuilderSynthesis
