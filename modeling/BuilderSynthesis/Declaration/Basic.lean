/-
  BuilderSynthesis.Declaration.Basic — what sources declare: structs with their fields, the
  functions that construct them, and the properties that can be read back.
-/

import BuilderSynthesis.Declaration.TypeRef
import BuilderSynthesis.Diagnostic
import BuilderSynthesis.Module

namespace BuilderSynthesis

/-- What is written in the `builder` attribute of a field or parameter. -/
structure Modifiers where
  nullableElement : Bool
  mutable : Bool
  default : Option String
  deriving DecidableEq, Repr, Inhabited

namespace Modifiers

def none : Modifiers := ⟨false, false, Option.none⟩

def isEmpty (m : Modifiers) : Bool := m == none

/-- The modifiers of a field with those of the parameter of the same name. The default of the
parameter wins. -/
def unitedWith (field parameter : Modifiers) : Modifiers where
  nullableElement := field.nullableElement || parameter.nullableElement
  mutable := field.mutable || parameter.mutable
  default := parameter.default <|> field.default

end Modifiers

structure Parameter where
  name : String
  type : TypeRef
  modifiers : Modifiers
  location : Location
  deriving DecidableEq

/-- A named field of a struct. -/
structure FieldDecl where
  name : String
  type : TypeRef
  modifiers : Modifiers
  visibility : Visibility
  location : Location
  deriving DecidableEq

/-- A field as a parameter that sets it. -/
def FieldDecl.toParameter (f : FieldDecl) : Parameter := ⟨f.name, f.type, f.modifiers, f.location⟩

/-- How a constructor is called: as a function of the type, or by writing the struct out. -/
inductive ConstructorKind where
  | function (name : String)
  | memberwise
  deriving DecidableEq, Repr

structure Constructor where
  kind : ConstructorKind
  parameters : List Parameter
  visibility : Visibility
  module : ModulePath
  location : Location
  deriving DecidableEq

namespace Constructor

def parameterNames (c : Constructor) : List String := c.parameters.map Parameter.name

def isAccessibleFrom (c : Constructor) (user : ModulePath) : Bool := c.visibility.admits c.module user

end Constructor

/-- How a property is read: by moving a field out, or through a method. -/
inductive AccessorKind where
  | field
  | getter (method : String)
  deriving DecidableEq, Repr

structure Accessor where
  property : String
  kind : AccessorKind
  type : TypeRef
  deriving DecidableEq

inductive StructShape where
  | named
  | tuple
  | unit
  deriving DecidableEq, Repr

def StructShape.text : StructShape → String
  | named => "struct with named fields"
  | tuple => "tuple struct"
  | unit => "unit struct"

structure DeclaredType where
  name : String
  module : ModulePath
  visibility : Visibility
  /-- The generic parameters as written, angle brackets included. -/
  generics : Option String
  whereClause : Option String
  shape : StructShape
  /-- The named fields; a tuple or unit struct has none. -/
  fields : List FieldDecl
  location : Location
  deriving DecidableEq

namespace DeclaredType

/-- The narrowest of the visibilities of the struct and its fields. -/
def narrowestVisibility (t : DeclaredType) : Visibility :=
  (t.fields.map FieldDecl.visibility).foldl Visibility.narrower t.visibility

/-- Writing the struct out, which takes a value for every field and access to all of them. -/
def memberwise (t : DeclaredType) : Constructor where
  kind := .memberwise
  parameters := t.fields.map FieldDecl.toParameter
  visibility := t.narrowestVisibility
  module := t.module
  location := t.location

/-- The fields that a module may read. -/
def fieldAccessors (t : DeclaredType) (user : ModulePath) : List Accessor :=
  (t.fields.filter (·.visibility.admits t.module user)).map fun f => ⟨f.name, .field, f.type⟩

end DeclaredType

end BuilderSynthesis
