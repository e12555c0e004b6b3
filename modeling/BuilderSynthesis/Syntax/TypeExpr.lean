/-
  BuilderSynthesis.Syntax.TypeExpr — type expressions as they are written.

  Every form of type has a constructor. What a type contains that is no type (lengths, constants,
  binders, attributes) is kept as the tokens that write it. `TypeExpr.tokens` writes a type; in a
  list of generic arguments it puts lifetimes first, which is the one place where the order of the
  source is not kept.
-/

import BuilderSynthesis.Syntax.Token

namespace BuilderSynthesis.Syntax

mutual

inductive TypeExpr where
  | array (element : TypeExpr) (length : List Token)
  | slice (element : TypeExpr)
  | tuple (elements : List TypeExpr) (trailing : Bool)
  | paren (inner : TypeExpr)
  | pointer (mutable : Bool) (target : TypeExpr)
  | reference (lifetime : Option String) (mutable : Bool) (referent : TypeExpr)
  | never
  | inferred
  | path (path : PathExpr)
  /-- A path below a type, which may be seen as a trait: `<T as Trait>::Item`. -/
  | qualified (subject : TypeExpr) (asTrait : Option PathExpr) (rest : List Segment)
  | function (introduction : List Token) (inputs : List Input) (trailing : Bool) (variadic : List Token)
      (output : Option TypeExpr)
  | traitObject (dyn : Bool) (bounds : List Bound) (trailing : Bool)
  | implTrait (bounds : List Bound) (trailing : Bool)
  | invocation (tokens : List Token)
  | verbatim (tokens : List Token)

inductive PathExpr where
  | mk (leading : Bool) (segments : List Segment)

inductive Segment where
  | mk (name : String) (arguments : Arguments)

inductive Arguments where
  | none
  | angled (turbofish : Bool) (arguments : List Argument) (trailing : Bool)
  | called (inputs : List TypeExpr) (trailing : Bool) (output : Option TypeExpr)

inductive Argument where
  | lifetime (name : String)
  | type (type : TypeExpr)
  | constant (value : List Token)
  | binding (name : String) (generics : Arguments) (value : TypeExpr)
  | constantBinding (name : String) (generics : Arguments) (value : List Token)
  | constraint (name : String) (generics : Arguments) (bounds : List Bound) (trailing : Bool)

inductive Bound where
  | trait (inParens : Bool) (introduction : List Token) (path : PathExpr)
  | lifetime (name : String)
  /-- Which parameters are captured: `use<'a, T>`. -/
  | capture (tokens : List Token)
  | verbatim (tokens : List Token)

/-- A parameter of a function type. -/
inductive Input where
  | mk (introduction : List Token) (type : TypeExpr)

end

instance : Inhabited TypeExpr := ⟨.never⟩
instance : Inhabited PathExpr := ⟨.mk false []⟩

namespace Segment

def name : Segment → String
  | mk name _ => name

def arguments : Segment → Arguments
  | mk _ arguments => arguments

end Segment

namespace Arguments

/-- Nothing is passed: there are no brackets or nothing stands in the angled ones. -/
def isEmpty : Arguments → Bool
  | none => true
  | angled _ arguments _ => arguments.isEmpty
  | called .. => false

def isNone : Arguments → Bool
  | none => true
  | _ => false

end Arguments

namespace PathExpr

def leading : PathExpr → Bool
  | mk leading _ => leading

def segments : PathExpr → List Segment
  | mk _ segments => segments

def names (path : PathExpr) : List String := path.segments.map Segment.name

/-- The last name of the path. -/
def last? (path : PathExpr) : Option String := path.names.getLast?

/-- No segment has arguments. -/
def isPlain (path : PathExpr) : Bool := path.segments.all (·.arguments.isNone)

/-- The path is this one name. -/
def isName (path : PathExpr) (name : String) : Bool :=
  match path with
  | mk false [.mk found .none] => found == name
  | _ => false

/-- The names of the path without arguments or blanks. -/
def text (path : PathExpr) : String :=
  (if path.leading then "::" else "") ++ "::".intercalate path.names

end PathExpr

/-! ## Writing -/

/-- Written parts with a separator between them, and one at the end if asked for. -/
def joinTokens (separator : List Token) (trailing : Bool) : List (List Token) → List Token
  | [] => []
  | [part] => part ++ (if trailing then separator else [])
  | part :: next :: rest => part ++ separator ++ joinTokens separator trailing (next :: rest)

def commas (trailing : Bool) (parts : List (List Token)) : List Token :=
  joinTokens (Token.symbol ",") trailing parts

/-- Adds a comma between two parts unless the first is empty or ends in one. -/
def commaBetween (first : List Token) (ended : Bool) (second : List Token) : List Token :=
  if second.isEmpty then first
  else if first.isEmpty || ended then first ++ second
  else first ++ Token.symbol "," ++ second

/-- Parts with lifetimes moved before the others. Each part keeps the comma it had; one is added
where the last lifetime had none. -/
def lifetimesFirst (trailing : Bool) (parts : List (Bool × List Token)) : List Token :=
  let rec withCommas : List (Bool × List Token) → List (Bool × Bool × List Token)
    | [] => []
    | [(isLifetime, part)] => [(isLifetime, trailing, part ++ (if trailing then Token.symbol "," else []))]
    | (isLifetime, part) :: next :: rest =>
      (isLifetime, true, part ++ Token.symbol ",") :: withCommas (next :: rest)
  let all := withCommas parts
  let lifetimes := all.filter (·.1)
  let others := all.filter (!·.1)
  let written (ps : List (Bool × Bool × List Token)) : List Token := ps.flatMap (·.2.2)
  commaBetween (written lifetimes) ((lifetimes.getLast?.map (·.2.1)).getD true) (written others)

mutual

def TypeExpr.tokens : TypeExpr → List Token
  | .array element length => [.enclosed .bracket (element.tokens ++ Token.symbol ";" ++ length)]
  | .slice element => [.enclosed .bracket element.tokens]
  | .tuple elements trailing => [.enclosed .parenthesis (commas trailing (TypeExpr.tokensOfAll elements))]
  | .paren inner => [.enclosed .parenthesis inner.tokens]
  | .pointer mutable target =>
    Token.symbol "*" ++ (Token.word (if mutable then "mut" else "const") :: target.tokens)
  | .reference lifetime mutable referent =>
    Token.symbol "&" ++ (lifetime.map Token.lifetime).getD [] ++
      (if mutable then [Token.word "mut"] else []) ++ referent.tokens
  | .never => Token.symbol "!"
  | .inferred => [Token.word "_"]
  | .path path => path.tokens
  | .qualified subject asTrait rest =>
    Token.symbol "<" ++ subject.tokens ++
      (match asTrait with | some path => Token.word "as" :: path.tokens | none => []) ++
      Token.symbol ">" ++ Token.symbol "::" ++ joinTokens (Token.symbol "::") false (Segment.tokensOfAll rest)
  | .function introduction inputs trailing variadic output =>
    introduction ++
      [.enclosed .parenthesis (commaBetween (commas trailing (Input.tokensOfAll inputs)) trailing variadic)] ++
      (match output with | some type => Token.symbol "->" ++ type.tokens | none => [])
  | .traitObject dyn bounds trailing =>
    (if dyn then [Token.word "dyn"] else []) ++
      joinTokens (Token.symbol "+") trailing (Bound.tokensOfAll bounds)
  | .implTrait bounds trailing =>
    Token.word "impl" :: joinTokens (Token.symbol "+") trailing (Bound.tokensOfAll bounds)
  | .invocation tokens => tokens
  | .verbatim tokens => tokens

def TypeExpr.tokensOfAll : List TypeExpr → List (List Token)
  | [] => []
  | type :: rest => type.tokens :: TypeExpr.tokensOfAll rest

def PathExpr.tokens : PathExpr → List Token
  | .mk leading segments =>
    (if leading then Token.symbol "::" else []) ++
      joinTokens (Token.symbol "::") false (Segment.tokensOfAll segments)

def Segment.tokens : Segment → List Token
  | .mk name arguments => Token.word name :: arguments.tokens

def Segment.tokensOfAll : List Segment → List (List Token)
  | [] => []
  | segment :: rest => segment.tokens :: Segment.tokensOfAll rest

def Arguments.tokens : Arguments → List Token
  | .none => []
  | .angled turbofish arguments trailing =>
    (if turbofish then Token.symbol "::" else []) ++ Token.symbol "<" ++
      lifetimesFirst trailing (Argument.tokensOfAll arguments) ++ Token.symbol ">"
  | .called inputs trailing output =>
    .enclosed .parenthesis (commas trailing (TypeExpr.tokensOfAll inputs)) ::
      (match output with | some type => Token.symbol "->" ++ type.tokens | none => [])

def Argument.tokens : Argument → List Token
  | .lifetime name => Token.lifetime name
  | .type type => type.tokens
  | .constant value => value
  | .binding name generics value => Token.word name :: (generics.tokens ++ Token.symbol "=" ++ value.tokens)
  | .constantBinding name generics value =>
    Token.word name :: (generics.tokens ++ Token.symbol "=" ++ value)
  | .constraint name generics bounds trailing =>
    Token.word name :: (generics.tokens ++ Token.symbol ":" ++
      joinTokens (Token.symbol "+") trailing (Bound.tokensOfAll bounds))

def Argument.tokensOfAll : List Argument → List (Bool × List Token)
  | [] => []
  | .lifetime name :: rest => (true, Token.lifetime name) :: Argument.tokensOfAll rest
  | argument :: rest => (false, argument.tokens) :: Argument.tokensOfAll rest

def Bound.tokens : Bound → List Token
  | .trait inParens introduction path =>
    if inParens then [.enclosed .parenthesis (introduction ++ path.tokens)] else introduction ++ path.tokens
  | .lifetime name => Token.lifetime name
  | .capture tokens => tokens
  | .verbatim tokens => tokens

def Bound.tokensOfAll : List Bound → List (List Token)
  | [] => []
  | bound :: rest => bound.tokens :: Bound.tokensOfAll rest

def Input.tokens : Input → List Token
  | .mk introduction type => introduction ++ type.tokens

def Input.tokensOfAll : List Input → List (List Token)
  | [] => []
  | input :: rest => input.tokens :: Input.tokensOfAll rest

end

def Bound.tokensOfMany (bounds : List Bound) (trailing : Bool) : List Token :=
  joinTokens (Token.symbol "+") trailing (Bound.tokensOfAll bounds)

/-! ## The end of a type -/

mutual

/-- The type ends in a name without arguments, so that angle brackets after it would be read as its
arguments. -/
def TypeExpr.endsInName : TypeExpr → Bool
  | .pointer _ target => target.endsInName
  | .reference _ _ referent => referent.endsInName
  | .path path => path.endsInName
  | .qualified _ _ rest => Segment.lastEndsInName false rest
  | .function _ _ _ _ (some output) => output.endsInName
  | .traitObject _ bounds _ | .implTrait bounds _ => Bound.lastEndsInName false bounds
  | _ => false

def PathExpr.endsInName : PathExpr → Bool
  | .mk _ segments => Segment.lastEndsInName false segments

/-- For the last segment of a list, or what is said when there is none. -/
def Segment.lastEndsInName (otherwise : Bool) : List Segment → Bool
  | [] => otherwise
  | .mk _ arguments :: rest => Segment.lastEndsInName arguments.endInName rest

def Arguments.endInName : Arguments → Bool
  | .none => true
  | .called _ _ (some output) => output.endsInName
  | _ => false

def Bound.lastEndsInName (otherwise : Bool) : List Bound → Bool
  | [] => otherwise
  | .trait _ _ path :: rest => Bound.lastEndsInName path.endsInName rest
  | _ :: rest => Bound.lastEndsInName false rest

end

end BuilderSynthesis.Syntax
