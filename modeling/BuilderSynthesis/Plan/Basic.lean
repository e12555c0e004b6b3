/-
  BuilderSynthesis.Plan.Basic — the plan of one builder.

  A plan says everything about a builder that its text will show. Its unit is the name of the
  builder, and of the file it is written to.
-/

import BuilderSynthesis.Declaration.Basic
import BuilderSynthesis.Descriptor.Basic

namespace BuilderSynthesis

/-- The struct that a builder builds, as code beside the builder names it. -/
structure Target where
  name : String
  path : String
  generics : Option String
  whereClause : Option String
  deriving DecidableEq, Repr

inductive Construction where
  /-- By an associated function, with these fields in the order of its parameters. -/
  | call (function : String) (arguments : List String)
  /-- By writing the struct out. -/
  | literal
  deriving DecidableEq, Repr

structure PlannedField where
  name : String
  descriptor : Descriptor
  /-- The value it starts with. -/
  default : Option String
  /-- Building fails as long as it has no value. -/
  required : Bool
  /-- How it is read from a finished value, if it can be. -/
  copy : Option AccessorKind
  deriving DecidableEq

namespace PlannedField

/-- It is read through a method. -/
def isRead (f : PlannedField) : Bool :=
  match f.copy with
  | some (.getter _) => true
  | _ => false

/-- It is moved out of a field. -/
def isMoved (f : PlannedField) : Bool := f.copy == some .field

end PlannedField

structure BuilderPlan where
  unit : String
  target : Target
  visibility : Visibility
  fields : List PlannedField
  construction : Construction
  /-- The struct gets a function that starts its builder. -/
  entryPoint : Bool
  /-- The module that takes the builder in. -/
  module : ModulePath
  location : Location
  deriving DecidableEq

namespace BuilderPlan

def fieldNames (plan : BuilderPlan) : List String := plan.fields.map PlannedField.name

end BuilderPlan

end BuilderSynthesis
