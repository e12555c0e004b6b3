/-
  BuilderSynthesis.Built.Slots — what a builder does when it is run.

  A builder holds one slot for each field of its plan, a value or nothing. A slot starts with the
  default, or with what is taken from a finished value, and is overwritten by its setter. Building
  checks the required slots one after the other, then takes the values out of all slots and hands
  them to the construction. What values, defaults and finished values are is left to a `Meaning`, so
  that all this holds for builders of any struct.
-/

import BuilderSynthesis.Built.Error
import BuilderSynthesis.Plan.Basic

namespace BuilderSynthesis

/-- How the code that a plan refers to is understood, with values `V` and finished values `T`. -/
structure Meaning (V T : Type) where
  /-- The value of the expression of a default. -/
  default : String → V
  /-- The struct written out, each field with its value. -/
  literal : List (String × Option V) → T
  /-- A call of an associated function. -/
  call : String → List (Option V) → T
  field : String → T → Option V
  getter : String → T → Option V

/-- The value in the slot of each field, if there is one. -/
abbrev Slots (V : Type) := String → Option V

namespace Slots

variable {V : Type}

/-- The setter of a field. For a nullable field the value may be absent. -/
def set (s : Slots V) (name : String) (value : Option V) : Slots V :=
  fun other => if other = name then value else s other

theorem set_same (s : Slots V) (name : String) (value : Option V) : s.set name value name = value := by
  simp [set]

theorem set_other (s : Slots V) {name other : String} (value : Option V) (h : other ≠ name) :
    s.set name value other = s other := by
  simp [set, h]

end Slots

namespace BuilderPlan

variable {V T : Type}

def field? (plan : BuilderPlan) (name : String) : Option PlannedField := plan.fields.find? (·.name == name)

/-- What a slot starts with. -/
def initial (m : Meaning V T) (f : PlannedField) : Option V := f.default.map m.default

/-- A builder with only its defaults. -/
def fresh (plan : BuilderPlan) (m : Meaning V T) : Slots V := fun name => (plan.field? name).bind (initial m)

/-! ## Starting from a finished value -/

/-- The fields that are taken out of a finished value: those read through methods come before those
that are moved. -/
def taken (plan : BuilderPlan) : List PlannedField := plan.fields.filter (·.isRead) ++ plan.fields.filter (·.isMoved)

/-- What is taken for a field. -/
def takenFrom (m : Meaning V T) (finished : T) (f : PlannedField) : Option V :=
  match f.copy with
  | some (.getter method) => m.getter method finished
  | _ => m.field f.name finished

/-- The builder of a finished value. What is not taken from it is as in a fresh builder. -/
def ofFinished (plan : BuilderPlan) (m : Meaning V T) (finished : T) : Slots V := fun name =>
  match plan.taken.find? (·.name == name) with
  | some f => takenFrom m finished f
  | none => plan.fresh m name

/-! ## Building -/

def missing (plan : BuilderPlan) (f : PlannedField) : MissingField := ⟨plan.unit, f.name⟩

/-- Stops at the first required slot that is empty. -/
def check (plan : BuilderPlan) (s : Slots V) : Except MissingField Unit :=
  (plan.fields.filter (·.required)).forM fun f =>
    if (s f.name).isNone then .error (plan.missing f) else .ok ()

/-- What a slot is unpacked to, by the name of its field: a required one holds a value, a nullable one may not. -/
def unpack (plan : BuilderPlan) (s : Slots V) (f : PlannedField) : Except MissingField (String × Option V) :=
  if f.required then
    match s f.name with
    | some value => .ok (f.name, some value)
    | none => .error (plan.missing f)
  else .ok (f.name, s f.name)

/-- The finished value out of the values of the fields. -/
def constructed (plan : BuilderPlan) (m : Meaning V T) (values : List (String × Option V)) : T :=
  match plan.construction with
  | .literal => m.literal values
  | .call function arguments => m.call function (arguments.map fun name => (values.lookup name).join)

/-- The required slots are checked before any is unpacked. -/
def built (plan : BuilderPlan) (m : Meaning V T) (s : Slots V) : Except MissingField T := do
  plan.check s
  let values ← plan.fields.mapM (plan.unpack s)
  pure (plan.constructed m values)

/-! ## Runs -/

/-- What can be done with a builder. -/
inductive BuilderStep (V T : Type) where
  | set (name : String) (value : Option V)
  /-- Start over from a finished value. -/
  | convert (finished : T)
  /-- Build, and start over from that; if it fails, from the defaults. -/
  | rebuild

def after (plan : BuilderPlan) (m : Meaning V T) (s : Slots V) : BuilderStep V T → Slots V
  | .set name value => s.set name value
  | .convert finished => plan.ofFinished m finished
  | .rebuild =>
    match plan.built m s with
    | .ok finished => plan.ofFinished m finished
    | .error _ => plan.fresh m

def afterAll (plan : BuilderPlan) (m : Meaning V T) (s : Slots V) (steps : List (BuilderStep V T)) : Slots V :=
  steps.foldl (plan.after m) s

/-- What building gives before the first step and after each. -/
def results (plan : BuilderPlan) (m : Meaning V T) (s : Slots V) : List (BuilderStep V T) → List (Except MissingField T)
  | [] => [plan.built m s]
  | step :: rest => plan.built m s :: results plan m (plan.after m s step) rest

end BuilderPlan

end BuilderSynthesis
