/-
  BuilderSynthesis.Pass.Generate — turning every plan of a host into a builder.

  Outcomes are taken in order, and a builder that cannot be emitted does not stop the ones after
  it. An attempt keeps what became of one outcome; everything that is reported about a pass is read
  off its attempts.
-/

import BuilderSynthesis.Pass.Error
import BuilderSynthesis.Pass.BuilderDirectory
import BuilderSynthesis.Route.Outcome

namespace BuilderSynthesis

/-- Somewhere for builders to go, with a state of its own. -/
structure Emitter (σ : Type) where
  emit : BuilderPlan → σ → Except PassError Stored × σ

inductive Attempt where
  | rejected (outcome : Outcome) (problem : Diagnostic)
  | emitted (outcome : Outcome) (plan : BuilderPlan) (stored : Stored)
  | failed (outcome : Outcome) (plan : BuilderPlan) (error : PassError)

namespace Attempt

def outcome : Attempt → Outcome
  | rejected o _ | emitted o _ _ | failed o _ _ => o

def stored? : Attempt → Option Stored
  | emitted _ _ stored => some stored
  | _ => none

/-- What is reported after the diagnostics of the outcome itself. -/
def problem? : Attempt → Option Diagnostic
  | rejected _ problem => some problem
  | emitted .. => none
  | failed _ plan error => some (.error error.message plan.location)

def diagnostics (a : Attempt) : List Diagnostic := a.outcome.diagnostics ++ a.problem?.toList

end Attempt

namespace Emitter

variable {σ : Type}

/-- Emits the plan of an outcome, if it has one. -/
def attempt (e : Emitter σ) (o : Outcome) (state : σ) : Attempt × σ :=
  match o.result with
  | .error problem => (.rejected o problem, state)
  | .ok plan =>
    match e.emit plan state with
    | (.ok stored, state) => (.emitted o plan stored, state)
    | (.error error, state) => (.failed o plan error, state)

def attempts (e : Emitter σ) : List Outcome → σ → List Attempt × σ
  | [], state => ([], state)
  | o :: rest, state =>
    let (first, state) := e.attempt o state
    let (others, state) := e.attempts rest state
    (first :: others, state)

end Emitter

/-- What a pass over a host did, and the state it left the emitter in. -/
structure Generation (σ : Type) where
  attempts : List Attempt
  state : σ

namespace Generation

variable {σ : Type}

/-- Where the emitted builders are, in the order they were emitted. -/
def written (g : Generation σ) : List String := g.attempts.filterMap fun a => a.stored?.map Stored.path

def diagnostics (g : Generation σ) : List Diagnostic := g.attempts.flatMap Attempt.diagnostics

end Generation

/-- Emits a builder for every directive of a host that has a plan. -/
def Host.generate {σ : Type} (host : Host) (emitter : Emitter σ) (state : σ) : Generation σ :=
  let (attempts, state) := emitter.attempts host.route state
  ⟨attempts, state⟩

/-- Builders go into a directory of the file tree. -/
def BuilderDirectory.emitter (d : BuilderDirectory) : Emitter FileTree := ⟨d.store⟩

/-! ## Keeping builders in memory -/

/-- A text that has been emitted, by unit. -/
structure Rendered where
  unit : String
  source : String
  deriving DecidableEq, Repr

/-- Keeps the text of every builder, except for the units it refuses. -/
def renderedEmitter (refuses : String → Bool) : Emitter (List Rendered) where
  emit plan kept :=
    if refuses plan.unit then (.error (.render plan.unit "refused"), kept)
    else match plan.source with
      | .error e => (.error (.render plan.unit e.message), kept)
      | .ok source => (.ok ⟨plan.unit ++ ".rs", true⟩, kept ++ [⟨plan.unit, source⟩])

end BuilderSynthesis
