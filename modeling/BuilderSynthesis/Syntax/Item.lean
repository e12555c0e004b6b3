/-
  BuilderSynthesis.Syntax.Item — items of a source file, as far as they matter here.

  Structs, inherent functions and their parameters are kept in full. Of every other item only its
  kind, name, visibility and attributes remain. Bodies and bounds are kept as the tokens that
  write them.
-/

import BuilderSynthesis.Syntax.TypeExpr

namespace BuilderSynthesis.Syntax

/-! ## Attributes -/

/-- What follows the path of an attribute. -/
inductive AttributeForm where
  | path
  | list (content : List Token) (closesAt : Position)
  | value (equalsAt : Position)

structure Attribute where
  position : Position
  inner : Bool
  path : PathExpr
  /-- Where the first name of the path stands. -/
  pathAt : Position
  form : AttributeForm
  /-- Everything between the brackets. -/
  content : List Token

namespace Attribute

def tokens (attr : Attribute) : List Token :=
  Token.symbol "#" ++ (if attr.inner then Token.symbol "!" else []) ++ [.enclosed .bracket attr.content]

def tokensOfAll (attrs : List Attribute) : List Token := attrs.flatMap tokens

/-- What the attribute lists in brackets. -/
def listed (attr : Attribute) : List Token :=
  match attr.form with
  | .list content _ => content
  | _ => []

/-- How messages name the attribute: `#[path`, without its end. -/
def shown (attr : Attribute) : String :=
  (if attr.inner then "#![" else "#[") ++ attr.path.text

end Attribute

/-! ## Visibility -/

inductive VisibilityExpr where
  | inherited
  | everywhere
  | restricted (tokens : List Token)

namespace VisibilityExpr

def tokens : VisibilityExpr → List Token
  | inherited => []
  | everywhere => [Token.word "pub"]
  | restricted tokens => tokens

def isInherited : VisibilityExpr → Bool
  | inherited => true
  | _ => false

end VisibilityExpr

/-! ## Generics -/

inductive ParameterKind where
  | lifetime
  | type
  | constant
  deriving DecidableEq

structure GenericParameter where
  kind : ParameterKind
  name : String
  attributes : List Token
  /-- The name with its bounds or its type. -/
  declaration : List Token
  fallback : Option (List Token)

namespace GenericParameter

def isLifetime (p : GenericParameter) : Bool := p.kind == .lifetime

/-- The parameter as it is declared, with or without its default. -/
def tokens (withDefault : Bool) (p : GenericParameter) : List Token :=
  p.attributes ++ p.declaration ++
    (match p.fallback with
      | some value => if withDefault then Token.symbol "=" ++ value else []
      | none => [])

/-- The name alone, as an argument. -/
def reference (p : GenericParameter) : List Token :=
  if p.isLifetime then Token.lifetime p.name else [Token.word p.name]

end GenericParameter

structure Generics where
  parameters : List GenericParameter
  trailing : Bool

namespace Generics

def empty : Generics := ⟨[], false⟩

def angled (g : Generics) (part : GenericParameter → List Token) : List Token :=
  if g.parameters.isEmpty then []
  else Token.symbol "<" ++ lifetimesFirst g.trailing (g.parameters.map fun p => (p.isLifetime, part p)) ++
    Token.symbol ">"

/-- As declared. -/
def tokens (g : Generics) : List Token := g.angled (·.tokens true)

/-- As the parameters of a block of functions, where defaults have no place. -/
def blockTokens (g : Generics) : List Token := g.angled (·.tokens false)

/-- As the arguments of the type itself. -/
def argumentTokens (g : Generics) : List Token := g.angled (·.reference)

end Generics

structure WhereClause where
  predicates : List (List Token)
  trailing : Bool

/-- A clause without predicates is not written. -/
def WhereClause.tokens (clause : WhereClause) : List Token :=
  if clause.predicates.isEmpty then []
  else Token.word "where" :: commas clause.trailing clause.predicates

/-! ## Structs -/

structure Field where
  attributes : List Attribute
  visibility : VisibilityExpr
  /-- The name and its place; a field of a tuple has none. -/
  name : Option (String × Position)
  type : TypeExpr

def Field.tokens (f : Field) : List Token :=
  Attribute.tokensOfAll f.attributes ++ f.visibility.tokens ++
    (match f.name with | some (name, _) => Token.word name :: Token.symbol ":" | none => []) ++ f.type.tokens

inductive Fields where
  | named (fields : List Field) (trailing : Bool)
  | unnamed (fields : List Field) (trailing : Bool)
  | unit

namespace Fields

def isNamed : Fields → Bool
  | named .. => true
  | _ => false

def map (f : Field → Field) : Fields → Fields
  | named fields trailing => named (fields.map f) trailing
  | unnamed fields trailing => unnamed (fields.map f) trailing
  | unit => unit

end Fields

structure StructItem where
  attributes : List Attribute
  visibility : VisibilityExpr
  name : String
  nameAt : Position
  generics : Generics
  whereClause : Option WhereClause
  fields : Fields

def StructItem.tokens (s : StructItem) : List Token :=
  let clause := (s.whereClause.map WhereClause.tokens).getD []
  Attribute.tokensOfAll s.attributes ++ s.visibility.tokens ++
    (Token.word "struct" :: Token.word s.name :: s.generics.tokens) ++
    (match s.fields with
      | .named fields trailing => clause ++ [.enclosed .brace (commas trailing (fields.map Field.tokens))]
      | .unnamed fields trailing =>
        .enclosed .parenthesis (commas trailing (fields.map Field.tokens)) :: (clause ++ Token.symbol ";")
      | .unit => clause ++ Token.symbol ";")

/-! ## Functions -/

/-- What kind of pattern binds a parameter. -/
inductive PatternShape where
  | binding (name : String) (nameAt : Position) (byRef hasSubpattern : Bool)
  | rest
  /-- A range without an end, by the place of its dots. -/
  | halfOpen (dotsAt : Position)
  | range
  /-- One that is kept as it stands in the source. -/
  | verbatim
  | other

inductive FunctionInput where
  | receiver (reference mutable : Bool) (tokens : List Token)
  | typed (attributes : List Attribute) (pattern : PatternShape) (patternTokens : List Token) (type : TypeExpr)

def FunctionInput.tokens : FunctionInput → List Token
  | .receiver _ _ tokens => tokens
  | .typed attributes _ pattern type =>
    Attribute.tokensOfAll attributes ++ pattern ++ Token.symbol ":" ++ type.tokens

structure Signature where
  isAsync : Bool
  isUnsafe : Bool
  name : String
  nameAt : Position
  generics : Generics
  inputs : List FunctionInput
  trailing : Bool
  variadic : List Token
  output : Option TypeExpr
  whereClause : Option WhereClause
  /-- What stands before the word `fn`. -/
  qualifiers : List Token

namespace Signature

/-- How the function takes its own value, if it does: by reference, and mutably. -/
def receiver? (s : Signature) : Option (Bool × Bool) :=
  match s.inputs with
  | .receiver reference mutable _ :: _ => some (reference, mutable)
  | _ => none

def tokens (s : Signature) : List Token :=
  s.qualifiers ++ (Token.word "fn" :: Token.word s.name :: s.generics.tokens) ++
    [.enclosed .parenthesis
      (commaBetween (commas s.trailing (s.inputs.map FunctionInput.tokens)) s.trailing s.variadic)] ++
    (match s.output with | some type => Token.symbol "->" ++ type.tokens | none => []) ++
    ((s.whereClause.map WhereClause.tokens).getD [])

end Signature

structure FunctionItem where
  attributes : List Attribute
  visibility : VisibilityExpr
  isDefault : Bool
  signature : Signature
  /-- The inner attributes and the statements of the body. -/
  innerAttributes : List Attribute
  body : List Token

def FunctionItem.tokens (f : FunctionItem) : List Token :=
  Attribute.tokensOfAll f.attributes ++ f.visibility.tokens ++
    (if f.isDefault then [Token.word "default"] else []) ++ f.signature.tokens ++
    [.enclosed .brace (Attribute.tokensOfAll f.innerAttributes ++ f.body)]

/-! ## Items -/

/-- The items of which only the outside matters. -/
inductive ItemKind where
  | enumeration
  | union
  | trait
  | constant
  | static
  | typeAlias
  deriving DecidableEq

inductive Item where
  | struct (item : StructItem)
  | function (item : FunctionItem)
  /-- A block of functions of a type, or of a trait for a type. -/
  | functions (attributes : List Attribute) (ofTrait : Bool) (subject : TypeExpr) (items : List FunctionItem)
  | module (attributes : List Attribute) (visibility : VisibilityExpr) (name : String) (content : List Item)
  | named (kind : ItemKind) (attributes : List Attribute) (visibility : VisibilityExpr) (name : String)
  | plain

instance : Inhabited Item := ⟨.plain⟩

end BuilderSynthesis.Syntax
