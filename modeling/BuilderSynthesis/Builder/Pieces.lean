/-
  BuilderSynthesis.Builder.Pieces — the parts of a plan as code.

  A plan holds its parts as text. Here each is read as what it has to be; the first one that cannot
  be read is the reason why the builder cannot be written.
-/

import BuilderSynthesis.Builder.Fragment
import BuilderSynthesis.Plan.Basic
import BuilderSynthesis.Syntax.Text

namespace BuilderSynthesis

open Syntax

/-- A part of a plan that is not the code it has to be. -/
structure RenderError where
  part : String
  text : String
  reason : String
  deriving DecidableEq, Repr

def RenderError.message (e : RenderError) : String := "invalid " ++ e.part ++ " `" ++ e.text ++ "`: " ++ e.reason

/-- A field of the builder. -/
structure Slot where
  planned : PlannedField
  name : String
  /-- The type that its setter takes. -/
  value : Fragment.Code
  /-- The type that the builder holds: the value or nothing. -/
  held : Fragment.Code
  default : Option Fragment.Code

structure Pieces where
  unit : String
  visibility : Fragment.Code
  generics : Generics
  whereClause : Fragment.Code
  target : Fragment.Code
  slots : List Slot

namespace Pieces

def readPart {α : Type} (part : String) (read : String → Except Problem α) (text : String) : Except RenderError α :=
  match read text with
  | .ok a => .ok a
  | .error problem => .error ⟨part, text, problem.message⟩

def slot (planned : PlannedField) : Except RenderError Slot := do
  let name ← readPart "field name" readIdentifier planned.name
  let value ← readPart "field type" readType planned.descriptor.text
  let held ← readPart "field type" readType planned.descriptor.asNullable.text
  let default ← planned.default.mapM (readPart "default value" readExpression)
  pure { planned, name, value := value.tokens, held := held.tokens, default := default.map (·.tokens .alone) }

def ofPlan (plan : BuilderPlan) : Except RenderError Pieces := do
  let generics ← plan.target.generics.mapM (readPart "generic parameters" readGenerics)
  let whereClause ← plan.target.whereClause.mapM (readPart "where clause" readWhereClause)
  let slots ← plan.fields.mapM slot
  let unit ← readPart "builder name" readIdentifier plan.unit
  let visibility ← readPart "visibility" readVisibility plan.visibility.source
  let target ← readPart "target path" readPath plan.target.path
  pure { unit, visibility := visibility.tokens, generics := generics.getD .empty
         whereClause := (whereClause.map WhereClause.tokens).getD [], target := target.tokens, slots }

/-! ## Types by name -/

/-- The struct with its own parameters as arguments. -/
def targetType (p : Pieces) : Fragment.Code := p.target ++ p.generics.argumentTokens

def builderType (p : Pieces) : Fragment.Code := Token.word p.unit :: p.generics.argumentTokens

/-- What introduces a block of functions with the parameters of the struct. -/
def block (p : Pieces) (subject body : Fragment.Code) : Fragment.Code :=
  (Token.word "impl" :: p.generics.blockTokens) ++ subject ++ p.whereClause ++ Fragment.braces body

def isGeneric (p : Pieces) : Bool := !p.generics.parameters.isEmpty

end Pieces

end BuilderSynthesis
