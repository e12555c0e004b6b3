/-
  BuilderSynthesis.Pass.BuildScript — a pass as a program.

  The program is configured by variables of its environment. Its log file lies in the output
  directory. After a pass that succeeds it prints the notes too; a pass that fails fails it.
-/

import BuilderSynthesis.Log.Setup
import BuilderSynthesis.Pass.Run

namespace BuilderSynthesis

/-- How the program ended. -/
structure ScriptEnd where
  exitCode : Nat
  /-- The line that tells why it failed. -/
  failure : Option String
  printed : List String
  events : List Event
  log : LogSetup
  files : FileTree

namespace BuildScript

def noteLines (report : PassReport) : List String :=
  (report.diagnostics.filter (!·.isError)).flatMap fun d => Text.lines ("cargo:warning=note: " ++ d.text)

def run (environment : Config.Environment) (filter : Option String) (files : FileTree) : ScriptEnd :=
  let log := LogSetup.make filter environment.outDir
  let run := (Config.ofEnvironment environment).run (log.opened files)
  match run.result with
  | .ok report => ⟨0, none, run.printed ++ noteLines report, run.events, log, run.files⟩
  | .error error => ⟨1, some (Text.firstLine ("Error: " ++ error.message)), run.printed, run.events, log, run.files⟩

end BuildScript

end BuilderSynthesis
