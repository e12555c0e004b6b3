/-
  BuilderSynthesis.Plan.Metadata — which fields of a struct its builder sets.

  A field takes part when some constructor has a parameter of its name. Modifiers may stand on the
  field and on the parameter; of several parameters with one name the first counts.
-/

import BuilderSynthesis.Declaration.Basic

namespace BuilderSynthesis

namespace Constructor

/-- The parameters are these names, in any order. -/
def accepts (c : Constructor) (names : List String) : Bool := c.parameterNames.isPerm names

def isNamed (c : Constructor) (name : String) : Bool := c.kind == .function name

/-- The first constructor whose parameters are these names. -/
def accepting? (constructors : List Constructor) (names : List String) : Option Constructor :=
  constructors.find? (·.accepts names)

def parameter? (c : Constructor) (name : String) : Option Parameter :=
  c.parameters.find? (·.name == name)

end Constructor

/-- The fields and constructors of a struct. -/
structure Metadata where
  fields : List FieldDecl
  constructors : List Constructor

namespace Metadata

/-- The first parameter of this name in the order of the constructors. -/
def parameter? (m : Metadata) (name : String) : Option Parameter :=
  (m.constructors.flatMap Constructor.parameters).find? (·.name == name)

def isEligible (m : Metadata) (f : FieldDecl) : Bool := (m.parameter? f.name).isSome

/-- The fields that some constructor takes. -/
def eligible (m : Metadata) : List FieldDecl := m.fields.filter m.isEligible

/-- The modifiers of a field together with those of its parameter. -/
def effective (m : Metadata) (f : FieldDecl) : Modifiers :=
  match m.parameter? f.name with
  | some p => f.modifiers.unitedWith p.modifiers
  | none => f.modifiers

/-- The associated function of this name. -/
def named? (m : Metadata) (name : String) : Option Constructor := m.constructors.find? (·.isNamed name)

end Metadata

end BuilderSynthesis
