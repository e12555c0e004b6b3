/-
  BuilderSynthesis.Scan.Items — the findings in the items of a file.

  A struct is declared with its fields. In a block of functions of a type, a function without a
  receiver that returns the type is a constructor, and a method that takes its value by shared
  reference and returns something owned is a getter. Directives are noted wherever they stand; one
  on an item that cannot have a builder is misplaced.
-/

import BuilderSynthesis.Files.Discovery
import BuilderSynthesis.Scan.Finding
import BuilderSynthesis.Scan.Marks

namespace BuilderSynthesis.Scan

open Syntax

def visibilityOf : VisibilityExpr → Visibility
  | .inherited => .inherited
  | .everywhere => .everywhere
  | .restricted tokens => .restricted (printed tokens)

def found (file : String) (module : ModulePath) (attr : Attribute) (kind : DirectiveKind) : Finding :=
  .directive ⟨kind, module, locate file attr.position⟩

def externalFinding (file : String) (module : ModulePath) (visibility : Visibility) (attr : Attribute) : Finding :=
  match external file visibility attr with
  | .ok kind => found file module attr kind
  | .error problem => .problem problem

/-- The directives on an item, where those for the item itself become of the given kind. -/
def itemDirectives (file : String) (module : ModulePath) (visibility : Visibility) (own : DirectiveKind)
    (attrs : List Attribute) : List Finding :=
  attrs.filterMap fun attr =>
    if isBuilderOf attr then some (externalFinding file module visibility attr)
    else if isOwnDirective attr then some (found file module attr own)
    else none

/-! ## Structs -/

def declaredField (file : String) (f : Field) : Option (FieldDecl × List Diagnostic) :=
  f.name.map fun (name, position) =>
    let (modifiers, problems) := modifiers file f.attributes
    (⟨name, TypeRef.ofType f.type, modifiers, visibilityOf f.visibility, locate file position⟩, problems)

def structFindings (file : String) (module : ModulePath) (s : StructItem) : List Finding :=
  let directives := itemDirectives file module (visibilityOf s.visibility) (.type s.name) s.attributes
  let (shape, fields) := match s.fields with
    | .named fields _ => (StructShape.named, fields.filterMap (declaredField file))
    | .unnamed _ _ => (.tuple, [])
    | .unit => (.unit, [])
  let declared : DeclaredType :=
    { name := s.name
      module
      visibility := visibilityOf s.visibility
      generics := if s.generics.parameters.isEmpty then none else some (printed s.generics.tokens)
      whereClause := s.whereClause.map fun clause => printed clause.tokens
      shape
      fields := fields.map (·.1)
      location := locate file s.nameAt }
  directives ++ (fields.flatMap (·.2)).map .problem ++ [.declared declared]

/-! ## Functions -/

/-- What a function in a block of functions turns out to be. -/
inductive Candidate where
  | constructor (constructor : Constructor)
  /-- It looks like a constructor, but a builder cannot call it. -/
  | unusable (reason : String)
  | other

/-- The type is `Self` or a path that ends in the given name. -/
def namesType (type : TypeExpr) (name : String) : Bool :=
  match type with
  | .path path => path.last?.any fun last => last == "Self" || last == name
  | _ => false

/-- The parameters of a constructor up to the first that it cannot have, with the problems among
them. -/
def constructorParameters (file : String) :
    List FunctionInput → Except Candidate (List Parameter) × List Diagnostic
  | [] => (.ok [], [])
  | .receiver .. :: _ => (.error .other, [])
  | .typed attributes pattern _ type :: rest =>
    match pattern with
    | .binding name nameAt false false =>
      let (modifiers, problems) := modifiers file attributes
      let (others, more) := constructorParameters file rest
      (others.map (⟨name, TypeRef.ofType type, modifiers, locate file nameAt⟩ :: ·), problems ++ more)
    | _ => (.error (.unusable "parameters must be plain bindings"), [])

def returnsType (s : Signature) (typeName : String) : Bool :=
  s.output.any fun type => namesType type typeName

def candidate (file : String) (module : ModulePath) (typeName : String) (f : FunctionItem) :
    Candidate × List Diagnostic :=
  let s := f.signature
  if s.receiver?.isSome || !returnsType s typeName then (.other, [])
  else if s.isAsync || s.isUnsafe then (.unusable "async and unsafe constructors are not supported", [])
  else if s.generics.parameters.any (!·.isLifetime) then
    (.unusable "generic constructors are not supported", [])
  else
    match constructorParameters file s.inputs with
    | (.error unfit, problems) => (unfit, problems)
    | (.ok parameters, problems) =>
      (.constructor { kind := .function s.name, parameters, visibility := visibilityOf f.visibility, module
                      location := locate file s.nameAt }, problems)

/-- The property that a method reads: its name, without a leading `get_`. -/
def propertyOf (method : String) : String := (Text.afterStart? "get_" method).getD method

def getter? (f : FunctionItem) : Option Getter :=
  let s := f.signature
  match s.receiver?, s.output with
  | some (true, false), some type =>
    if s.inputs.length != 1 || !s.generics.parameters.isEmpty || s.isAsync || s.isUnsafe then none
    else
      let isUnit := match type with
        | .tuple [] _ => true
        | _ => false
      let read := TypeRef.ofType type
      if isUnit || read.borrows || read.isImplTrait then none
      else some ⟨propertyOf s.name, s.name, visibilityOf f.visibility, read⟩
  | _, _ => none

def functionDirective (typeName : Option String) (f : FunctionItem) (candidate : Candidate) (attr : Attribute) :
    Option DirectiveKind :=
  let name := f.signature.name
  let qualified := match typeName with
    | some type => "`" ++ type ++ "::" ++ name ++ "`"
    | none => "`" ++ name ++ "`"
  if isBuilderOf attr then
    some (.misplaced ("associated function " ++ qualified ++ " (builder_of belongs on a module-level marker item)"))
  else if isBuilder attr then
    some <| match candidate, typeName with
      | .constructor _, some type => .constructor type name
      | .unusable reason, _ => .misplaced ("constructor " ++ qualified ++ " (" ++ reason ++ ")")
      | _, _ => .misplaced ("method " ++ qualified ++ ", which is not a constructor")
  else none

/-- A function of a block: what it is, and the findings in it. -/
def functionFindings (file : String) (module : ModulePath) (typeName : Option String) (f : FunctionItem) :
    Candidate × List Finding :=
  let (candidate, problems) := match typeName with
    | some type => candidate file module type f
    | none => (.other, [])
  let directives := (f.attributes ++ f.innerAttributes).filterMap fun attr =>
    (functionDirective typeName f candidate attr).map (found file module attr)
  let skipped := match candidate, typeName with
    | .unusable reason, some type => [Finding.skipped type f.signature.name reason]
    | _, _ => []
  (candidate, problems.map .problem ++ directives ++ skipped)

/-- The name of a type that a block of its own functions may belong to. -/
def blockName? (ofTrait : Bool) (subject : TypeExpr) : Option String :=
  match subject with
  | .path path => if ofTrait then none else path.last?
  | _ => none

def blockFindings (file : String) (module : ModulePath) (typeName : Option String) (functions : List FunctionItem) :
    List Finding :=
  let read := functions.map fun f => (f, functionFindings file module typeName f)
  let findings := read.flatMap fun (_, _, findings) => findings
  match typeName with
  | none => findings
  | some name =>
    let constructors := read.filterMap fun (_, candidate, _) =>
      match candidate with
      | .constructor c => some c
      | _ => none
    let getters := read.filterMap fun (f, candidate, _) =>
      match candidate with
      | .other => getter? f
      | _ => none
    findings ++ [.block ⟨name, module, constructors, getters⟩]

/-! ## Items -/

def kindText : ItemKind → String
  | .enumeration => "enum"
  | .union => "union"
  | .trait => "trait"
  | .constant => "const"
  | .static => "static"
  | .typeAlias => "type alias"

def misplaced (kind name : String) : DirectiveKind := .misplaced (kind ++ " `" ++ name ++ "`")

mutual

def itemFindings (file : String) (module : ModulePath) : Item → List Finding
  | .struct s => structFindings file module s
  | .functions attributes ofTrait subject functions =>
    itemDirectives file module .inherited (.misplaced "impl block") attributes ++
      blockFindings file module (blockName? ofTrait subject) functions
  | .module attributes visibility name content =>
    itemDirectives file module (visibilityOf visibility) (misplaced "module" name) attributes ++
      itemsFindings file (module.child name) content
  | .function f =>
    itemDirectives file module (visibilityOf f.visibility) (misplaced "function" f.signature.name)
      (f.attributes ++ f.innerAttributes)
  | .named kind attributes visibility name =>
    itemDirectives file module (visibilityOf visibility) (misplaced (kindText kind) name) attributes
  | .plain => []

/-- The findings in items of one module, in order. -/
def itemsFindings (file : String) (module : ModulePath) : List Item → List Finding
  | [] => []
  | item :: rest => itemFindings file module item ++ itemsFindings file module rest

end

/-- The findings in a file of a crate that has been read. A file that does not parse has one problem and
nothing else. -/
def findingsIn (root : Nat) (dir file : String) (read : Except Problem (List Item)) : List Finding :=
  match read with
  | .error problem =>
    [.problem (.error ("cannot parse source file: " ++ problem.message) (locate file problem.position))]
  | .ok items =>
    let module : ModulePath := ⟨root, Discovery.moduleSegments dir file⟩
    .opened file module :: itemsFindings file module items

def fileFindings (root : Nat) (dir file text : String) : List Finding := findingsIn root dir file (readFile text)

end BuilderSynthesis.Scan
