/-
  BuilderSynthesis.Route.Requested — the builder that a directive asks for.

  A directive on a struct asks for the fields that some constructor takes. One on a constructor
  asks for the parameters of that constructor. One for a struct elsewhere asks for either, but may
  call only constructors that its own module can reach.
-/

import BuilderSynthesis.Declaration.Host
import BuilderSynthesis.Plan.Request

namespace BuilderSynthesis.Directive

def refuse {α : Type} (d : Directive) (message : String) : Except Diagnostic α := .error (.error message d.location)

/-- The struct with named fields that a path means for a directive. -/
def namedStruct (d : Directive) (host : Host) (path : String) : Except Diagnostic DeclaredType :=
  match host.findType path d.module with
  | none => d.refuse ("cannot find type `" ++ path ++ "` in the scanned sources")
  | some t =>
    if t.shape == .named then .ok t
    else d.refuse ("`" ++ t.name ++ "` is a " ++ t.shape.text ++ "; builders need a struct with named fields")

/-- How code in a module names a struct: alone if it is declared there, or by its path in the
crate. -/
def localPath (t : DeclaredType) (user : ModulePath) : String :=
  if t.module == user then t.name else "::".intercalate ("crate" :: t.module.segments ++ [t.name])

def target (t : DeclaredType) (path : String) : Target := ⟨t.name, path, t.generics, t.whereClause⟩

def metadata (host : Host) (t : DeclaredType) : Metadata := ⟨t.fields, host.constructors t⟩

/-- The fields that some constructor takes, with all their modifiers. -/
def eligible (m : Metadata) : List Parameter := m.eligible.map fun f => ⟨f.name, f.type, m.effective f, f.location⟩

/-- The request for a builder in the directive's own module. -/
def ownRequest (d : Directive) (host : Host) (t : DeclaredType) (fields : List Parameter)
    (constructors : List Constructor) : Request where
  target := target t (localPath t d.module)
  suffix := Request.defaultSuffix
  visibility := t.visibility
  fields
  constructors
  accessors := host.accessors t d.module
  entryPoint := true
  module := d.module
  location := d.location

def requestedByType (d : Directive) (host : Host) (name : String) : Except Diagnostic Request := do
  let t ← d.namedStruct host name
  let m := metadata host t
  pure (d.ownRequest host t (eligible m) m.constructors)

def requestedByConstructor (d : Directive) (host : Host) (typeName function : String) : Except Diagnostic Request := do
  let t ← d.namedStruct host typeName
  match (metadata host t).named? function with
  | none => d.refuse ("cannot find constructor `" ++ typeName ++ "::" ++ function ++ "`")
  | some chosen => pure (d.ownRequest host t chosen.parameters [chosen])

def requestedExternally (d : Directive) (host : Host) (path : String) (suffix : Option String) (useConstructors : Bool)
    (visibility : Visibility) : Except Diagnostic Request := do
  let t ← d.namedStruct host path
  let m := metadata host t
  match m.constructors.filter (·.isAccessibleFrom d.module) with
  | [] => d.refuse ("`" ++ path ++ "` has no constructor accessible from `" ++ d.module.text ++ "`")
  | primary :: others =>
    pure {
      target := target t path
      suffix := suffix.getD Request.defaultSuffix
      visibility
      fields := if useConstructors then primary.parameters else eligible m
      constructors := if useConstructors then [primary] else primary :: others
      accessors := host.accessors t d.module
      entryPoint := false
      module := d.module
      location := d.location }

/-- The request of a directive, or why there is none. -/
def requested (d : Directive) (host : Host) : Except Diagnostic Request :=
  match d.kind with
  | .type name => d.requestedByType host name
  | .constructor typeName function => d.requestedByConstructor host typeName function
  | .external target suffix useConstructors visibility =>
    d.requestedExternally host target suffix useConstructors visibility
  | .misplaced item =>
    d.refuse ("builder directives belong on structs with named fields or on associated constructors, not on " ++ item)

end BuilderSynthesis.Directive
