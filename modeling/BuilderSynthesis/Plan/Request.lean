/-
  BuilderSynthesis.Plan.Request — planning a builder.

  A request names the struct, the fields and the constructors to choose from. It is refused when
  the builder would have no valid name, when a field collides with a method of every builder or has
  a type that cannot be stored, or when no constructor takes exactly these fields. Nothing else
  stops a plan: modifiers and defaults that do not fit are reported and left out.
-/

import BuilderSynthesis.Plan.Basic
import BuilderSynthesis.Plan.Default
import BuilderSynthesis.Plan.Describe
import BuilderSynthesis.Plan.Metadata

namespace BuilderSynthesis

structure Request where
  target : Target
  suffix : String
  visibility : Visibility
  fields : List Parameter
  constructors : List Constructor
  accessors : List Accessor
  entryPoint : Bool
  module : ModulePath
  location : Location

namespace Request

/-- The end of a builder's name, unless a directive gives another. -/
def defaultSuffix : String := "Builder"

/-- The methods that every builder has. -/
def reservedNames : List String := ["new", "build", "check_required_fields"]

def unit (r : Request) : String := r.target.name ++ r.suffix

def names (r : Request) : List String := r.fields.map Parameter.name

/-! ## Refusing -/

def unitProblem? (r : Request) : Option Diagnostic :=
  match Syntax.readIdentifier r.unit with
  | .ok _ => none
  | .error _ => some (.error ("`" ++ r.unit ++ "` is not a valid builder name") r.location)

def fieldProblem? (r : Request) (f : Parameter) : Option Diagnostic :=
  if reservedNames.contains f.name then
    some (.error ("field `" ++ f.name ++ "` collides with the builder method of the same name; rename it to get a builder for `" ++
      r.target.name ++ "`") f.location)
  else if f.type.isImplTrait then
    some (.error ("field `" ++ f.name ++ "` has an `impl Trait` type, which a builder cannot store") f.location)
  else none

def constructorProblem (r : Request) : Diagnostic :=
  .error ("no constructor of `" ++ r.target.name ++ "` accepts exactly (" ++ ", ".intercalate r.names ++ ")") r.location

/-- The constructor that is called, or the first reason to refuse. -/
def constructor (r : Request) : Except Diagnostic Constructor :=
  match r.unitProblem? <|> r.fields.findSome? r.fieldProblem? with
  | some problem => .error problem
  | none =>
    match Constructor.accepting? r.constructors r.names with
    | some c => .ok c
    | none => .error r.constructorProblem

/-! ## Fields -/

/-- The type of a field with its modifiers. If the constructor takes neither that nor what was
declared before them, the modifiers are dropped. -/
def fieldDescriptor (r : Request) (c : Constructor) (f : Parameter) : Descriptor × List Diagnostic :=
  let declared := Descriptor.canonical f.type
  let (described, problems) := Descriptor.describe f.type f.modifiers f.location
  match (c.parameter? f.name).map fun p => Descriptor.canonical p.type with
  | some accepted =>
    if described != declared && accepted != described then
      (declared, problems ++
        [.error ("modifiers turn `" ++ f.name ++ "` into `" ++ described.text ++ "`, but `" ++ r.target.name ++
          "` is constructed from `" ++ accepted.text ++ "`; building it as `" ++ declared.text ++ "`") f.location])
    else (described, problems)
  | none => (described, problems)

/-- How the field is read back: through the property of its name, if that has the type that the
builder holds. -/
def fieldCopy (r : Request) (f : Parameter) (descriptor : Descriptor) : Option AccessorKind × List Diagnostic :=
  match r.accessors.find? (·.property == f.name) with
  | none => (none, [])
  | some accessor =>
    let read := Descriptor.canonical accessor.type
    if read == descriptor then (some accessor.kind, [])
    else
      (none, [.note ("`" ++ f.name ++ "` is not copied when converting from `" ++ r.target.name ++
        "`: it reads as `" ++ read.text ++ "` but the builder holds `" ++ descriptor.text ++ "`") f.location])

def field (r : Request) (c : Constructor) (f : Parameter) : PlannedField × List Diagnostic :=
  let (descriptor, problems) := r.fieldDescriptor c f
  let (default, wrong) := match f.modifiers.default with
    | some raw => Default.expression raw descriptor f.name f.location
    | none => (none, [])
  let (copy, notes) := r.fieldCopy f descriptor
  (⟨f.name, descriptor, default, !descriptor.nullable, copy⟩, problems ++ wrong ++ notes)

/-! ## The plan -/

def construction (c : Constructor) : Construction :=
  match c.kind with
  | .function name => .call name c.parameterNames
  | .memberwise => .literal

/-- The plan, with what was reported on the way. -/
def plan (r : Request) : Except Diagnostic (BuilderPlan × List Diagnostic) :=
  match r.constructor with
  | .error problem => .error problem
  | .ok c =>
    let fields := r.fields.map (r.field c)
    .ok ({ unit := r.unit, target := r.target, visibility := r.visibility, fields := fields.map (·.1),
           construction := construction c, entryPoint := r.entryPoint, module := r.module, location := r.location },
      fields.flatMap (·.2))

end Request

end BuilderSynthesis
