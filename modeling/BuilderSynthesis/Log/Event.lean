/-
  BuilderSynthesis.Log.Event — what a pass tells while it runs.

  Events are read off what a pass has found and done. Each has a level, the part of the library
  that tells it, and a message.
-/

import BuilderSynthesis.Pass.Generate
import BuilderSynthesis.Scan.Finding
import BuilderSynthesis.Text.Lines

namespace BuilderSynthesis

inductive Level where
  | error
  | warn
  | info
  | debug
  | trace
  deriving DecidableEq, Repr

namespace Level

def text : Level → String
  | error => "ERROR"
  | warn => "WARN"
  | info => "INFO"
  | debug => "DEBUG"
  | trace => "TRACE"

/-- The higher, the more is told. -/
def verbosity : Level → Nat
  | error => 1
  | warn => 2
  | info => 3
  | debug => 4
  | trace => 5

end Level

/-- The part of the library that an event comes from. -/
inductive Origin where
  | scan
  | discovery
  | diagnostics
  | planning
  | routing
  | emission
  | generation
  deriving DecidableEq, Repr

/-- The name that filters know the part under. -/
def Origin.target : Origin → String
  | scan => "buildergen_codegen::host::source"
  | discovery => "buildergen_codegen::host::discover"
  | diagnostics => "buildergen_codegen::diagnostics"
  | planning => "buildergen_codegen::plan"
  | routing => "buildergen_codegen::router"
  | emission => "buildergen_codegen::emit"
  | generation => "buildergen_codegen::generator"

structure Event where
  level : Level
  origin : Origin
  message : String
  deriving DecidableEq, Repr

namespace Event

/-- The message up to its first line break, which is all that a line of the log shows. -/
def line (e : Event) : String := Text.firstLine e.message

def ofDiagnostic (d : Diagnostic) : Event :=
  ⟨if d.isError then .warn else .debug, .diagnostics, d.text⟩

def ofDiagnostics (ds : List Diagnostic) : List Event := ds.map ofDiagnostic

end Event

/-! ## Scanning -/

def Finding.event? : Finding → Option Event
  | entered files label =>
    some ⟨.info, .scan, "Scanning " ++ toString files ++ " source files of '" ++ label ++ "'"⟩
  | opened file module => some ⟨.debug, .scan, "Scanning " ++ file ++ " as " ++ module.text⟩
  | directive d => some ⟨.debug, .scan, "Found directive " ++ d.kind.logText ++ " at " ++ d.location.text⟩
  | skipped typeName function reason =>
    some ⟨.debug, .scan, "Skipping constructor " ++ typeName ++ "::" ++ function ++ ": " ++ reason⟩
  | problem d => some (.ofDiagnostic d)
  | declared _ | block _ => none

/-! ## Routing and emitting -/

/-- What is told about one directive before plans are compared. -/
def Outcome.events (o : Outcome) : List Event :=
  Event.ofDiagnostics o.planning ++
    match o.result with
    | .ok plan =>
      [⟨.debug, .planning, "Planned " ++ plan.unit ++ " for " ++ plan.target.path⟩,
       ⟨.debug, .routing, "Routed " ++ o.directive.location.text ++ " to " ++ plan.unit⟩]
    | .error problem =>
      [⟨.debug, .routing, "Rejected " ++ o.directive.location.text ++ ": " ++ problem.message⟩]

def Stored.event (s : Stored) : Event :=
  ⟨.debug, .emission, if s.changed then "Wrote " ++ s.path else s.path ++ " is up to date"⟩

def Attempt.events : Attempt → List Event
  | rejected _ problem => [.ofDiagnostic problem]
  | emitted _ _ stored => [stored.event]
  | failed _ plan error => [⟨.warn, .generation, error.message⟩, .ofDiagnostic (.error error.message plan.location)]

/-- All directives are routed, then plans are compared, then builders are emitted. -/
def Generation.events {σ : Type} (g : Generation σ) : List Event :=
  let outcomes := g.attempts.map Attempt.outcome
  outcomes.flatMap Outcome.events ++ Event.ofDiagnostics (outcomes.filterMap Outcome.clash) ++
    g.attempts.flatMap Attempt.events

def BuilderDirectory.Removal.events (r : BuilderDirectory.Removal) : List Event :=
  r.removed.map fun path => ⟨.debug, .emission, "Removed stale " ++ path⟩

end BuilderSynthesis
