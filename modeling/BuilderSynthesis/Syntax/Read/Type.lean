/-
  BuilderSynthesis.Syntax.Read.Type — types, paths, bounds and generics.

  A reader here first takes the tokens apart and then writes the tree that it has made of them
  (`writtenBy`), so that what has been written is the text of the tree.
-/

import BuilderSynthesis.Syntax.Read.Attribute

namespace BuilderSynthesis.Syntax.Read

open BuilderSynthesis.Syntax.Parser

variable (g : Grammar)

/-- Writes the tokens of what a reader makes, in place of those it takes. -/
def writtenBy {α : Type} (tokens : α → List Token) (p : Parser α) : Parser α := do
  let (a, _) ← captured p
  write (tokens a)
  pure a

/-- What a reader writes. -/
def tokensOf (p : Parser Unit) : Parser (List Token) := do
  let (_, tokens) ← captured p
  write tokens
  pure tokens

/-! ## Constants -/

/-- A block in braces with its statements; its attributes. -/
def block : Parser (List Attribute) :=
  inside .brace do
    let inner ← innerAttributes g
    g.statements
    pure inner

/-- A literal, a name or a block where a constant is passed. -/
def constantArgument : Parser (List Token) :=
  tokensOf do
    if ← sees .literal then discard literal
    else if ← sees .identifier then discard identifier
    else if ← sees (.group .brace) then discard (block g)
    else failNoneOf []

/-! ## Forms that only the compiler gives a meaning -/

def startsBuiltin : Parser Bool := do
  pure ((← sees (.word "builtin")) && (← seesSecond (.mark "#")))

/-- Such a form is kept as it stands in the source. -/
def builtin : Parser Unit :=
  verbatim do
    word "builtin"
    mark "#"
    discard identifier
    inside .parenthesis do
      let tokens ← remaining
      skip tokens.length
      write tokens

/-! ## Bounds -/

/-- The bounds of a parameter, a type or a trait, up to one of the given ends. -/
def bounds (stop : Parser Bool) : Parser (List Bound × Bool) := joinedBy "+" stop (g.bound false true)

/-- Ends the bounds in a where clause. -/
def predicateEnd : Parser Bool := do
  pure ((← atEnd) || (← seesAny [.group .brace, .mark ",", .mark ";", .mark "="]) ||
    (← seesBut (.mark ":") [.mark "::"]))

def parameterEnd : Parser Bool := do
  pure ((← atEnd) || (← seesAny [.mark ",", .mark ">"]))

/-! ## Generic parameters -/

/-- A colon and bounds, written only if there is a bound. -/
def colonBounds (bounds : Parser (List Token)) : Parser (List Token) := do
  if ← mark? ":" then
    let tokens ← bounds
    pure (if tokens.isEmpty then [] else Token.symbol ":" ++ tokens)
  else pure []

def lifetimeParameter (attributes : List Token) : Parser GenericParameter := do
  let name ← lifetime
  let outlives ← colonBounds (do
    let (names, trailing) ← joinedBy "+" parameterEnd lifetime
    pure (joinTokens (Token.symbol "+") trailing (names.map Token.lifetime)))
  pure { kind := .lifetime, name, attributes, declaration := Token.lifetime name ++ outlives, fallback := none }

def typeParameter (attributes : List Token) : Parser GenericParameter := do
  let name ← identifier
  let bounded ← colonBounds (do
    let (list, trailing) ← bounds g (do pure ((← parameterEnd) || (← sees (.mark "="))))
    pure (Bound.tokensOfMany list trailing))
  let fallback ← (do if ← mark? "=" then some <$> g.type true else pure none)
  pure { kind := .type, name, attributes, declaration := Token.word name :: bounded,
         fallback := fallback.map TypeExpr.tokens }

def constantParameter (attributes : List Token) : Parser GenericParameter := do
  word "const"
  let name ← identifier
  mark ":"
  let type ← g.type true
  let fallback ← (do if ← mark? "=" then some <$> constantArgument g else pure none)
  pure { kind := .constant, name, attributes
         declaration := Token.word "const" :: Token.word name :: (Token.symbol ":" ++ type.tokens)
         fallback }

/-- A parameter between angle brackets. The forms are tried in the given order, which is the order
in which a message lists them; an underscore may stand for a type where it is allowed. -/
def genericParameter (order : List Expected) (underscore : Bool) : Parser GenericParameter := do
  let attributes := Attribute.tokensOfAll (← outerAttributes g)
  if ← sees .lifetime then lifetimeParameter attributes
  else if ← sees .identifier then typeParameter g attributes
  else if ← sees (.word "const") then constantParameter g attributes
  else if underscore && (← sees (.word "_")) then
    let name ← anyWord
    pure { kind := .type, name, attributes, declaration := [Token.word name], fallback := none }
  else failNoneOf order

def genericParameters (order : List Expected) (underscore : Bool) : Parser (List GenericParameter × Bool) :=
  separatedUntil (sees (.mark ">")) (mark ",") (genericParameter g order underscore)

/-- Angle brackets here open parameters; they are not the start of a type. -/
def opensGenerics : Parser Bool := do
  pure ((← sees (.mark "<")) &&
    ((← seesSecond (.mark ">")) || (← seesSecond (.mark "#")) || (← seesSecond (.word "const")) ||
      (((← seesSecond .lifetime) || (← seesSecond .identifier)) &&
        (((← seesThird (.mark ":")) && !(← seesThird (.mark "::"))) || (← seesThird (.mark ",")) ||
          (← seesThird (.mark ">")) || (← seesThird (.mark "="))))))

/-- The generic parameters of an item, if it has any. -/
def generics : Parser Generics :=
  writtenBy Generics.tokens do
    if ← sees (.mark "<") then
      mark "<"
      let (parameters, trailing) ← genericParameters g [.lifetime, .identifier, .word "const"] true
      mark ">"
      pure ⟨parameters, trailing⟩
    else pure .empty

/-- The parameters that a `for` binds, as they are written; none without it. -/
def binder : Parser (List Token) := do
  if ← sees (.word "for") then
    tokensOf do
      word "for"
      mark "<"
      let ((parameters, trailing), _) ← captured
        (genericParameters g [.identifier, .lifetime, .word "const"] false)
      write (commas trailing (parameters.map (·.tokens true)))
      mark ">"
  else pure []

/-! ## Where clauses -/

def wherePredicate : Parser (List Token) := do
  if (← sees .lifetime) && (← seesSecond (.mark ":")) then
    let name ← lifetime
    mark ":"
    let (names, trailing) ← joinedBy "+"
      (do pure ((← atEnd) || (← seesAny [.group .brace, .mark ",", .mark ";", .mark ":", .mark "="])))
      lifetime
    pure (Token.lifetime name ++ Token.symbol ":" ++
      joinTokens (Token.symbol "+") trailing (names.map Token.lifetime))
  else
    let introduction ← binder g
    let type ← g.type true
    mark ":"
    let (list, trailing) ← bounds g predicateEnd
    pure (introduction ++ type.tokens ++ Token.symbol ":" ++ Bound.tokensOfMany list trailing)

def whereClause : Parser WhereClause :=
  writtenBy WhereClause.tokens do
    word "where"
    if ← opensGenerics then fail .whereGenerics
    let (predicates, trailing) ← joinedBy "," predicateEnd (wherePredicate g)
    pure ⟨predicates, trailing⟩

def whereClause? : Parser (Option WhereClause) := do
  if ← sees (.word "where") then some <$> whereClause g else pure none

/-! ## Paths -/

def returnType (allowPlus : Bool) : Parser (Option TypeExpr) := do
  if ← mark? "->" then some <$> g.type allowPlus else pure none

/-- The arguments of a function trait: `(A, B) -> C`. -/
def calledArguments : Parser Arguments := do
  let (inputs, trailing) ← inside .parenthesis (commaSeparated (g.type true))
  pure (.called inputs trailing (← returnType g false))

/-- What may follow a name when it is an argument of its own: a value or bounds. -/
def namedArgument (name : String) (generics : Arguments) : Parser (Option Argument) := do
  if ← mark? "=" then
    if ← seesAny [.literal, .group .brace] then
      pure (some (.constantBinding name generics (← constantArgument g)))
    else pure (some (.binding name generics (← g.type true)))
  else if ← mark? ":" then
    let (list, trailing) ← joinedBy "+" (seesAny [.mark ",", .mark ">"]) (g.bound false true)
    pure (some (.constraint name generics list trailing))
  else pure none

def genericArgument : Parser Argument := do
  if (← sees .lifetime) && !(← seesSecond (.mark "+")) then .lifetime <$> lifetime
  else if ← seesAny [.literal, .group .brace] then .constant <$> constantArgument g
  else
    let type ← g.type true
    match type with
    | .path (.mk false [.mk name arguments]) =>
      match arguments with
      | .called .. => pure (.type type)
      | _ => pure ((← namedArgument g name arguments).getD (.type type))
    | _ => pure (.type type)

/-- Arguments in angle brackets, before which separators may stand. -/
def angledArguments : Parser Arguments := do
  let turbofish ← mark? "::"
  mark "<"
  let (arguments, trailing) ← separatedUntil (sees (.mark ">")) (mark ",") (genericArgument g)
  mark ">"
  pure (.angled turbofish arguments trailing)

/-- A name of a path with its arguments. Among expressions, arguments need separators before them. -/
def segment (amongExpressions : Bool) : Parser Segment := do
  if ← seesAny (.word "try" :: pathWords) then
    pure (.mk (← anyWord) .none)
  else
    let name ← (do if ← sees (.word "Self") then anyWord else identifier)
    if (!amongExpressions && (← seesBut (.mark "<") [.mark "<=", .mark "<<="])) ||
        ((← sees (.mark "::")) && (← seesThird (.mark "<"))) then
      pure (.mk name (← angledArguments g))
    else pure (.mk name .none)

/-- A path that starts here. -/
def pathBody (amongExpressions : Bool) : Parser PathExpr := do
  let leading ← mark? "::"
  let first ← segment g amongExpressions
  let others ← whileSeen
    (do pure ((← sees (.mark "::")) && !(← seesThird (.group .parenthesis))))
    (do mark "::"; segment g amongExpressions)
  pure (.mk leading (first :: others))

def path (amongExpressions : Bool) : Parser PathExpr :=
  writtenBy PathExpr.tokens (pathBody g amongExpressions)

/-- A path that may start below a type. -/
def qualifiedPath (amongExpressions : Bool) : Parser TypeExpr :=
  writtenBy TypeExpr.tokens do
    if ← sees (.mark "<") then
      mark "<"
      let subject ← g.type true
      let asTrait ← (do if ← word? "as" then some <$> path g false else pure none)
      mark ">"
      mark "::"
      let first ← segment g amongExpressions
      let others ← whileSeen (sees (.mark "::")) (do mark "::"; segment g amongExpressions)
      pure (.qualified subject asTrait (first :: others))
    else .path <$> pathBody g amongExpressions

/-- Puts arguments on the last segment. -/
def withArguments (arguments : Arguments) : List Segment → List Segment
  | [] => []
  | [.mk name _] => [.mk name arguments]
  | s :: next :: rest => s :: withArguments arguments (next :: rest)

def takesCall (segments : List Segment) : Parser Bool := do
  pure ((segments.getLast?.any (·.arguments.isEmpty)) &&
    ((← sees (.group .parenthesis)) || ((← sees (.mark "::")) && (← seesThird (.group .parenthesis)))))

/-- The segments, with the arguments of a call on the last one if they follow. -/
def callable (segments : List Segment) : Parser (List Segment) := do
  if ← takesCall segments then
    discard (mark? "::")
    pure (withArguments (← calledArguments g) segments)
  else pure segments

/-! ## Bounds of a type -/

/-- A captured parameter, and whether it is a lifetime. -/
def capturedParameter : Parser (Bool × List Token) := do
  let isLifetime ← sees .lifetime
  pure (isLifetime, ← apart (do if isLifetime then discard lifetime else discard anyWord))

/-- The parameters that are captured, and whether a comma ends them. -/
def captureList : Parser (List (Bool × List Token) × Bool) := do
  let step (read : List (Bool × List Token)) :
      Parser (Turn (List (Bool × List Token)) (List (Bool × List Token) × Bool)) := do
    if ← seesAny [.lifetime, .identifier, .word "Self"] then
      let read := (← capturedParameter) :: read
      if ← mark? "," then pure (.again read)
      else if ← sees (.mark ">") then pure (.done (read.reverse, false))
      else failNoneOf [.mark ",", .mark ">"]
    else if ← sees (.mark ">") then pure (.done (read.reverse, true))
    else failNoneOf [.lifetime, .identifier, .mark ">"]
  loop step []

/-- A trait with what stands before it, or nothing when it is a constant one. -/
def traitBound (allowConst : Bool) : Parser (Option (List Token × PathExpr)) := do
  let before ← binder g
  let position ← here
  let inBrackets ← sees (.group .bracket)
  let bare ← sees (.word "const")
  if inBrackets then
    inside .bracket (word "const")
    if !allowConst then failAt position (.constBoundRefused true)
  else if bare then
    word "const"
    if !allowConst then failAt position (.constBoundRefused false)
  let maybeAt ← here
  let maybe ← mark? "?"
  let after ← (do if before.isEmpty && maybe then binder g else pure [])
  let bound ← path g false
  let segments ← callable g bound.segments
  if maybe && !(before ++ after).isEmpty then failAt maybeAt .binderOnMaybeBound
  pure <|
    if inBrackets || bare then none
    else some (before ++ (if maybe then Token.symbol "?" else []), .mk bound.leading segments)

def boundBody (allowCapture allowConst : Bool) : Parser Bound := do
  if ← sees .lifetime then .lifetime <$> lifetime
  else if ← sees (.word "use") then
    let position ← here
    let tokens ← tokensOf do
      word "use"
      mark "<"
      let ((parameters, trailing), _) ← captured captureList
      write (lifetimesFirst trailing parameters)
      mark ">"
    if !allowCapture then failAt position .captureRefused
    pure (.capture tokens)
  else
    let (bound, source) ← sourceOf (do
      if ← sees (.group .parenthesis) then
        pure (true, ← inside .parenthesis (traitBound g allowConst))
      else pure (false, ← traitBound g allowConst))
    match bound with
    | (inParens, some (introduction, path)) => pure (.trait inParens introduction path)
    | (_, none) => pure (.verbatim source)

def bound (allowCapture allowConst : Bool) : Parser Bound :=
  writtenBy Bound.tokens (boundBody g allowCapture allowConst)

/-- After a plus sign, a bound goes on with one of these. -/
def boundStarts (allowConst : Bool) : List Expected :=
  [.anyWord, .mark "::", .mark "?", .lifetime, .group .parenthesis] ++
    (if allowConst then [.group .bracket] else [])

/-- One bound, and more after plus signs where a sum is allowed. -/
def boundSum (allowPlus allowCapture allowConst : Bool) : Parser (List Bound × Bool) := do
  let first ← g.bound allowCapture allowConst
  let step (read : List Bound) : Parser (Turn (List Bound) (List Bound × Bool)) := do
    if allowPlus && (← sees (.mark "+")) then
      mark "+"
      if ← seesAny (boundStarts allowConst) then
        pure (.again ((← g.bound allowCapture allowConst) :: read))
      else pure (.done (read.reverse, true))
    else pure (.done (read.reverse, false))
  loop step [first]

/-- The bounds after the first of a sum that has begun, each after its plus sign. -/
def moreBounds : Parser (List Bound) :=
  whileSeen (sees (.mark "+")) (do mark "+"; g.bound false false)

def Bound.isTrait : Bound → Bool
  | .trait .. => true
  | _ => false

def Bound.namesTrait : Bound → Bool
  | .trait .. | .verbatim _ => true
  | _ => false

/-- The bounds of a trait object; the problem is reported where the object starts. -/
def objectBounds (position : Position) (allowPlus : Bool) : Parser (List Bound × Bool) := do
  let (list, trailing) ← boundSum g allowPlus false false
  if !list.any Bound.isTrait then failAt position .traitMissingInObject
  pure (list, trailing)

/-! ## Function types -/

def abi? : Parser Unit := do
  if ← word? "extern" then
    if ← sees .stringLiteral then discard stringLiteral

/-- A parameter of a function type, whose name is optional. A receiver is kept as it stands. -/
def functionTypeInput (first : Bool) : Parser Input := do
  let attributes := Attribute.tokensOfAll (← outerAttributes g)
  let ((introduction, type?), source) ← sourceOf (do
    let mutSelf := first && (← sees (.word "mut")) && (← seesSecond (.word "self"))
    if mutSelf then word "mut"
    let isSelf := first && !(← seesAny [.identifier, .word "_"]) && (← sees (.word "self"))
    let named := ((← seesAny [.identifier, .word "_"]) || isSelf) &&
      (← seesSecond (.mark ":")) && !(← seesSecond (.mark "::"))
    let introduction ← (do
      if named then tokensOf (do discard anyWord; mark ":") else pure [])
    if first && !(isSelf && named) && (← sees (.word "mut")) && (← seesSecond (.word "self")) then
      word "mut"
      word "self"
      pure (introduction, none)
    else if mutSelf && !named then
      word "self"
      pure (introduction, none)
    else
      let type ← g.type true
      pure (introduction, if mutSelf then none else some type))
  match type? with
  | some type => pure (.mk (attributes ++ introduction) type)
  | none => pure (.mk attributes (.verbatim source))

def variadicInput : Parser (List Token) := do
  tokensOf do
    if ← seesAny [.identifier, .word "_"] then
      discard anyWord
      mark ":"
    mark "..."
    discard (mark? ",")

/-- The parameters of a function type, whether a comma ends them, and a variadic one. -/
def functionTypeInputs : Parser (List Input × Bool × List Token) := do
  let step (read : List Input × Bool) :
      Parser (Turn (List Input × Bool) (List Input × Bool × List Token)) := do
    if ← atEnd then pure (.done (read.1.reverse, read.2, []))
    else
      let attributes ← ahead (outerAttributes g)
      let variadic ← ahead (do
        discard (outerAttributes g)
        pure ((← sees (.mark "...")) ||
          ((← seesAny [.identifier, .word "_"]) && (← seesSecond (.mark ":")) && (← seesThird (.mark "...")))))
      if variadic then
        discard (outerAttributes g)
        let tokens ← variadicInput
        pure (.done (read.1.reverse, read.2, Attribute.tokensOfAll attributes ++ tokens))
      else
        let input ← functionTypeInput g read.1.isEmpty
        if ← atEnd then pure (.done ((input :: read.1).reverse, false, []))
        else
          mark ","
          pure (.again (input :: read.1, true))
  loop step ([], false)

/-- A function type after the parameters that a `for` binds. -/
def functionType (bound : List Token) : Parser TypeExpr := do
  let introduction ← tokensOf (do
    discard (word? "unsafe")
    abi?
    word "fn")
  let (inputs, trailing, variadic) ← inside .parenthesis (functionTypeInputs g)
  pure (.function (bound ++ introduction) inputs trailing variadic (← returnType g false))

/-! ## Types -/

/-- A type in round brackets, which may turn out to be a tuple or the first of several bounds. -/
def parenthesized (allowPlus : Bool) : Parser TypeExpr := do
  let (type, isOpen) ← inside .parenthesis (do
    if ← atEnd then pure (TypeExpr.tuple [] false, false)
    else if ← sees .lifetime then
      let position ← here
      let (list, trailing) ← objectBounds g position true
      pure (.paren (.traitObject false list trailing), false)
    else if ← sees (.mark "?") then
      match ← traitBound g false with
      | some (introduction, path) => pure (.traitObject false [.trait true introduction path] false, true)
      | none => failNoneOf []
    else
      let first ← g.type true
      if ← sees (.mark ",") then
        mark ","
        let (others, trailing) ← commaSeparated (g.type true)
        pure (.tuple (first :: others) (others.isEmpty || trailing), false)
      else pure (.paren first, true))
  match type, isOpen with
  | .traitObject dyn list _, true => pure (.traitObject dyn (list ++ (← moreBounds g)) false)
  | .paren inner, true =>
    if allowPlus && (← sees (.mark "+")) then
      match inner with
      | .path path => pure (.traitObject false (.trait true [] path :: (← moreBounds g)) false)
      | .traitObject false [.trait _ introduction path] false =>
        pure (.traitObject false (.trait true introduction path :: (← moreBounds g)) false)
      | .traitObject false [other] false => pure (.traitObject false (other :: (← moreBounds g)) false)
      | _ => pure type
    else pure type
  | _, _ => pure type

/-- A type that starts with a path. -/
def pathType (allowPlus : Bool) (bound : List Token) : Parser TypeExpr := do
  match ← qualifiedPath g false with
  | .path path =>
    if (← seesBut (.mark "!") [.mark "!="]) && path.isPlain then
      let tokens ← tokensOf (do
        write path.tokens
        mark "!"
        discard anyGroup)
      pure (.invocation tokens)
    else if !bound.isEmpty || (allowPlus && (← sees (.mark "+"))) then
      let first := Bound.trait false bound path
      let step (read : List Bound) : Parser (Turn (List Bound) (List Bound × Bool)) := do
        if allowPlus && (← sees (.mark "+")) then
          mark "+"
          if ← seesAny (boundStarts false) then pure (.again ((← g.bound false false) :: read))
          else pure (.done (read.reverse, true))
        else pure (.done (read.reverse, false))
      let (list, trailing) ← loop step [first]
      pure (.traitObject false list trailing)
    else pure (.path path)
  | other => pure other

def pathStarts : List Expected :=
  [.identifier, .word "super", .word "self", .word "Self", .word "crate", .mark "::", .mark "<"]

def boundTypeStarts : List Expected :=
  [.identifier, .word "fn", .word "unsafe", .word "extern", .word "super", .word "self", .word "Self",
   .word "crate"]

def typeStarts : List Expected :=
  [.word "for", .group .parenthesis, .word "fn", .word "unsafe", .word "extern", .identifier, .mark "::",
   .mark "<", .word "dyn", .group .bracket, .mark "*", .mark "&", .mark "!", .word "impl", .word "_", .lifetime]

def pointer : Parser TypeExpr := do
  mark "*"
  if ← word? "const" then pure (.pointer false (← g.type false))
  else if ← word? "mut" then pure (.pointer true (← g.type false))
  else failNoneOf [.word "const", .word "mut"]

def reference : Parser TypeExpr := do
  mark "&"
  let name ← lifetime?
  let mutable ← word? "mut"
  pure (.reference name mutable (← g.type false))

def dynamic (allowPlus : Bool) : Parser TypeExpr := do
  let position ← here
  let ((starred, list, trailing), source) ← sourceOf (do
    word "dyn"
    let starred ← mark? "*"
    pure (starred, ← objectBounds g position allowPlus))
  pure (if starred then .verbatim source else .traitObject true list trailing)

def implicit (allowPlus : Bool) : Parser TypeExpr := do
  let position ← here
  word "impl"
  let (list, trailing) ← boundSum g allowPlus true true
  if !list.any Bound.namesTrait then failAt position .traitMissingInBounds
  pure (.implTrait list trailing)

def bracketed : Parser TypeExpr :=
  inside .bracket do
    let element ← g.type true
    if ← mark? ";" then
      pure (.array element (← tokensOf g.expressionAlone))
    else pure (.slice element)

def typeBody (allowPlus : Bool) : Parser TypeExpr := do
  let before ← remaining
  let bound ← binder g
  if !bound.isEmpty && !(← seesAny boundTypeStarts) then
    failNoneOf boundTypeStarts
  if ← sees (.group .parenthesis) then parenthesized g allowPlus
  else if ← seesAny [.word "fn", .word "unsafe", .word "extern"] then functionType g bound
  else if ← startsBuiltin then
    builtin
    pure (.verbatim (before.take (before.length - (← remaining).length)))
  else if ← seesAny pathStarts then pathType g allowPlus bound
  else if ← sees (.word "dyn") then dynamic g allowPlus
  else if ← sees (.group .bracket) then bracketed g
  else if ← sees (.mark "*") then pointer g
  else if ← sees (.mark "&") then reference g
  else if ← seesBut (.mark "!") [.mark "="] then
    mark "!"
    pure .never
  else if ← sees (.word "impl") then implicit g allowPlus
  else if ← word? "_" then pure .inferred
  else if ← sees .lifetime then
    let position ← here
    let (list, trailing) ← objectBounds g position true
    pure (.traitObject false list trailing)
  else failNoneOf typeStarts

def type (allowPlus : Bool) : Parser TypeExpr := writtenBy TypeExpr.tokens (typeBody g allowPlus)

end BuilderSynthesis.Syntax.Read
