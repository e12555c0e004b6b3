/-
  BuilderSynthesis.Builder.Code — the code of a builder.

  A builder is a struct with one slot for each field, which holds a value or nothing, and with a
  marker if the built struct is generic. It has a setter for each slot, checks the required slots
  before it builds, starts with the defaults or from a finished value, and the built struct may get
  a function that starts it.
-/

import BuilderSynthesis.Builder.Pieces
import BuilderSynthesis.Syntax.Printer
import BuilderSynthesis.Text.Quoted

namespace BuilderSynthesis

open Syntax Fragment

def Fragment.text (value : String) : Code := [Token.text (Text.literal value)]

namespace Slot

/-- What the slot starts with. -/
def initialValue (s : Slot) : Code :=
  match s.default with
  | some value =>
    if s.planned.descriptor.asNonNull.isStringLike then present (converted value) else present value
  | none => absent

/-- A value of the field as the slot holds it. -/
def filled (s : Slot) (value : Code) : Code :=
  if s.planned.descriptor.nullable then value else present value

def initialized (s : Slot) (value : Code) : Code := words [s.name] ++ Token.symbol ":" ++ value ++ comma

def setter (s : Slot) : Code :=
  documented (text (" Set `" ++ s.planned.name ++ "`.")) ++ mustUse ++
    words ["pub", "fn", s.name] ++ parens (words ["mut", "self"] ++ comma ++ words ["value"] ++ Token.symbol ":" ++ s.value) ++
    Token.symbol "->" ++ words ["Self"] ++
    braces (ofSelf s.name ++ Token.symbol "=" ++ s.filled (words ["value"]) ++ semicolon ++ words ["self"])

/-- The error that the slot is empty. -/
def missing (unit : String) (s : Slot) : Code :=
  buildError ++ Token.symbol "::" ++ words ["missing_field"] ++
    parens (text unit ++ comma ++ text s.planned.name)

/-- Stops if the slot is empty. -/
def check (unit : String) (s : Slot) : Code :=
  words ["if"] ++ member (ofSelf s.name) "is_none" ++ parens [] ++
    braces (words ["return"] ++ failed (s.missing unit) ++ semicolon)

/-- Takes the value out of the slot. -/
def unpack (unit : String) (s : Slot) : Code :=
  words ["let", s.name] ++ Token.symbol "=" ++ member (words [s.name]) "ok_or_else" ++
    parens (Token.symbol "||" ++ s.missing unit) ++ Token.symbol "?" ++ semicolon

end Slot

namespace Pieces

def allow : Code := allowed (text "generated builder")

/-! ## The struct -/

/-- Keeps the parameters of a generic struct in use. -/
def markerName : String := "__buildergen_target"

def phantom : Code := globalPath ["core", "marker", "PhantomData"]

def marker (p : Pieces) : Code :=
  if p.isGeneric then
    words [markerName] ++ Token.symbol ":" ++ phantom ++
      angled (words ["fn"] ++ parens [] ++ Token.symbol "->" ++ p.targetType) ++ comma
  else []

def markerValue (p : Pieces) : Code :=
  if p.isGeneric then words [markerName] ++ Token.symbol ":" ++ phantom ++ comma else []

def required (p : Pieces) : List Slot := p.slots.filter (·.planned.required)

def structCode (p : Pieces) (plan : BuilderPlan) : Code :=
  documented (text (" Builder for `" ++ plan.target.name ++ "`.")) ++ allow ++ p.visibility ++
    words ["struct", p.unit] ++ p.generics.tokens ++ p.whereClause ++
    braces (p.slots.flatMap (fun s => s.initialized s.held) ++ p.marker)

/-! ## Starting, setting and building -/

def start (p : Pieces) (plan : BuilderPlan) : Code :=
  documented (text (" A `" ++ plan.unit ++ "` with only default values set.")) ++ mustUse ++
    words ["pub", "fn", "new"] ++ parens [] ++ Token.symbol "->" ++ words ["Self"] ++
    braces (words ["Self"] ++ braces (p.slots.flatMap (fun s => s.initialized s.initialValue) ++ p.markerValue))

def checks (p : Pieces) (plan : BuilderPlan) : Code :=
  words ["fn", "check_required_fields"] ++ parens (Token.symbol "&" ++ words ["self"]) ++ Token.symbol "->" ++
    resultOf (parens []) ++
    braces (p.required.flatMap (·.check plan.unit) ++ succeeded (parens []))

/-- The finished value out of the values of the fields. -/
def constructed (p : Pieces) : Construction → Except RenderError Code
  | .literal => .ok (p.target ++ braces (separated (p.slots.map fun s => words [s.name])))
  | .call function arguments => do
    let function ← readPart "constructor name" readIdentifier function
    let arguments ← arguments.mapM (readPart "constructor argument" readIdentifier)
    pure (p.target ++ Token.symbol "::" ++ words [function] ++ parens (separated (arguments.map fun a => words [a])))

def buildDoc (plan : BuilderPlan) : String :=
  " Build the `" ++ plan.target.name ++
    "`.\n\n # Errors\n\n [`::buildergen::BuildError::MissingField`] naming the first required field that was not set."

def build (p : Pieces) (plan : BuilderPlan) (constructed : Code) : Code :=
  documented (text (buildDoc plan)) ++
    words ["pub", "fn", "build"] ++ parens (words ["self"]) ++ Token.symbol "->" ++ resultOf p.targetType ++
    braces (ofSelf "check_required_fields" ++ parens [] ++ Token.symbol "?" ++ semicolon ++
      words ["let", "Self"] ++
        braces (p.slots.flatMap (fun s => words [s.name] ++ comma) ++ (if p.isGeneric then Token.symbol ".." else [])) ++
        Token.symbol "=" ++ words ["self"] ++ semicolon ++
      p.required.flatMap (·.unpack plan.unit) ++
      succeeded constructed)

def functions (p : Pieces) (plan : BuilderPlan) (constructed : Code) : Code :=
  allow ++ p.block p.builderType
    (p.start plan ++ p.slots.flatMap Slot.setter ++ p.checks plan ++ p.build plan constructed)

def defaultBlock (p : Pieces) : Code :=
  allow ++ p.block (globalPath ["core", "default", "Default"] ++ words ["for"] ++ p.builderType)
    (words ["fn", "default"] ++ parens [] ++ Token.symbol "->" ++ words ["Self"] ++
      braces (words ["Self"] ++ Token.symbol "::" ++ words ["new"] ++ parens []))

/-! ## Copying -/

/-- A slot with the value of its field in the finished value. -/
def copied (s : Slot) : Except RenderError Code :=
  match s.planned.copy with
  | some (.getter method) => do
    let method ← readPart "getter name" readIdentifier method
    pure (s.initialized (s.filled (member (words ["source"]) method ++ parens [])))
  | _ => .ok (s.initialized (s.filled (member (words ["source"]) s.name)))

/-- The builder of a finished value. Methods are called before the first field is moved out. -/
def copyBody (p : Pieces) : Except RenderError (String × Code) := do
  let reads := p.slots.filter (·.planned.isRead)
  let moves := p.slots.filter (·.planned.isMoved)
  let fresh := words ["Self"] ++ Token.symbol "::" ++ words ["new"] ++ parens []
  if reads.isEmpty && moves.isEmpty then pure ("_source", fresh)
  else
    let assignments ← (reads ++ moves).mapM copied
    let rest := if (reads ++ moves).length < p.slots.length then Token.symbol ".." ++ fresh else p.markerValue
    pure ("source", words ["Self"] ++ braces (assignments.flatten ++ rest))

def copyBlock (p : Pieces) : Except RenderError Code := do
  let (source, body) ← p.copyBody
  pure (allow ++ p.block
    (globalPath ["core", "convert", "From"] ++ angled p.targetType ++ words ["for"] ++ p.builderType)
    (words ["fn", "from"] ++ parens (words [source] ++ Token.symbol ":" ++ p.targetType) ++ Token.symbol "->" ++
      words ["Self"] ++ braces body))

/-! ## The entry point -/

def entryPoint (p : Pieces) (plan : BuilderPlan) : Code :=
  if plan.entryPoint then
    allow ++ p.block p.targetType
      (documented (text (" Start building a `" ++ plan.target.name ++ "`.")) ++ mustUse ++ p.visibility ++
        words ["fn", "builder"] ++ parens [] ++ Token.symbol "->" ++ p.builderType ++
        braces (words [p.unit] ++ Token.symbol "::" ++ words ["new"] ++ parens []))
  else []

end Pieces

namespace BuilderPlan

/-- The first line of the text of every builder. -/
def header : String := "// @generated by buildergen. Do not edit."

/-- The code of the builder. -/
def code (plan : BuilderPlan) : Except RenderError Code := do
  let p ← Pieces.ofPlan plan
  let constructed ← p.constructed plan.construction
  let copying ← p.copyBlock
  pure (p.structCode plan ++ p.functions plan constructed ++ p.defaultBlock ++ copying ++ p.entryPoint plan)

/-- The text of the file that holds the builder. -/
def source (plan : BuilderPlan) : Except RenderError String :=
  plan.code.map fun code => header ++ "\n" ++ printed code ++ "\n"

end BuilderPlan

end BuilderSynthesis
