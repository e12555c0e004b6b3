/-
  BuilderSynthesis.Syntax.Read.Item — items and whole files.

  Structs, functions and blocks of functions are taken apart; all other items are checked and
  written. An item that the language accepts only for tools to see (a function without a body, a
  constant without a value) is written as it stands in the source and counts as plain.
-/

import BuilderSynthesis.Syntax.Read.Statement

namespace BuilderSynthesis.Syntax.Read

open BuilderSynthesis.Syntax.Parser

variable (g : Grammar)

/-! ## Visibility -/

/-- A restriction in brackets belongs to the visibility when it is one path word alone or starts
with `in`; any other bracket starts the type of a field. Whether one stands here. -/
def restriction : Parser Bool := do
  match ← remaining with
  | .group .parenthesis [.ident name _] _ _ :: _ =>
    if name == "crate" || name == "self" || name == "super" then
      discard (inside .parenthesis anyWord)
      pure true
    else if name == "in" then
      discard (inside .parenthesis (do word "in"; plainPath))
      pure true
    else pure false
  | .group .parenthesis (.ident "in" _ :: _) _ _ :: _ =>
    discard (inside .parenthesis (do word "in"; plainPath))
    pure true
  | _ => pure false

def visibility : Parser VisibilityExpr := do
  if !(← sees (.word "pub")) then return .inherited
  let (restricted, tokens) ← captured (do
    word "pub"
    restriction)
  write tokens
  pure (if restricted then .restricted tokens else .everywhere)

/-! ## Fields -/

/-- A field without a name may list fields of its own, which are kept as they stand. -/
def fieldType (unnamed : Bool) : Parser TypeExpr := do
  if unnamed && ((← sees (.word "struct")) || ((← sees (.word "union")) && (← seesSecond (.group .brace)))) then
    let (_, source) ← sourceOf (do
      discard anyWord
      g.namedFields)
    write source
    pure (.verbatim source)
  else g.type true

def namedField : Parser Field := do
  let attributes ← outerAttributes g
  let visibility ← visibility
  let position ← here
  let unnamed ← sees (.word "_")
  let name ← (do if unnamed then anyWord else identifier)
  mark ":"
  pure { attributes, visibility, name := some (name, position), type := ← fieldType g unnamed }

def unnamedField : Parser Field := do
  let attributes ← outerAttributes g
  let visibility ← visibility
  pure { attributes, visibility, name := none, type := ← g.type true }

def namedFields : Parser (List Field × Bool) := inside .brace (commaSeparated (namedField g))

def unnamedFields : Parser (List Field × Bool) := inside .parenthesis (commaSeparated (unnamedField g))

/-! ## Structs, enums and unions -/

/-- What follows the generics of a struct. -/
def structBody : Parser (Option WhereClause × Fields) := do
  let clause ← whereClause? g
  if clause.isNone && (← sees (.group .parenthesis)) then
    let (fields, trailing) ← unnamedFields g
    let clause ← whereClause? g
    if ← mark? ";" then pure (clause, .unnamed fields trailing)
    else failNoneOf ((if clause.isNone then [.word "where"] else []) ++ [.mark ";"])
  else if ← sees (.group .brace) then
    let (fields, trailing) ← namedFields g
    pure (clause, .named fields trailing)
  else if ← mark? ";" then pure (clause, .unit)
  else
    failNoneOf ((if clause.isNone then [.word "where", .group .parenthesis] else []) ++
      [.group .brace, .mark ";"])

def structItem (attributes : List Attribute) (visibility : VisibilityExpr) : Parser StructItem := do
  word "struct"
  let nameAt ← here
  let name ← identifier
  let generics ← generics g
  let (whereClause, fields) ← structBody g
  pure { attributes, visibility, name, nameAt, generics, whereClause, fields }

/-- A variant of an enum; a visibility on it is not written. -/
def variant : Parser Unit := do
  discard (outerAttributes g)
  discard (captured visibility)
  discard identifier
  if ← sees (.group .brace) then discard (namedFields g)
  else if ← sees (.group .parenthesis) then discard (unnamedFields g)
  if ← mark? "=" then g.expressionAlone

def enumItem : Parser String := do
  word "enum"
  let name ← identifier
  discard (generics g)
  discard (whereClause? g)
  discard (inside .brace (commaSeparated (variant g)))
  pure name

def unionItem : Parser String := do
  word "union"
  let name ← identifier
  discard (generics g)
  discard (whereClause? g)
  discard (namedFields g)
  pure name

/-! ## Functions -/

/-- The value of a method and where the word `self` stands. -/
def receiver : Parser (Bool × Bool × Position) := do
  let reference ← mark? "&"
  if reference then discard lifetime?
  let mutable ← word? "mut"
  let position ← here
  word "self"
  if !reference then
    if ← mark? ":" then discard (g.type true)
  pure (reference, mutable, position)

/-- The value of a method stands here, and no pattern that starts as it does. -/
def startsReceiver : Parser Bool :=
  ahead (do
    if ← mark? "&" then discard lifetime?
    discard (word? "mut")
    pure ((← sees (.word "self")) && !(← seesSecond (.mark "::"))))

/-- A parameter, or the variadic end of the parameters. -/
inductive ParameterRead where
  | receiver (input : FunctionInput) (selfAt : Position)
  | typed (input : FunctionInput)
  | variadic (tokens : List Token)

def functionInput : Parser ParameterRead := do
  let attributes ← outerAttributes g
  let introduction := Attribute.tokensOfAll attributes
  if ← sees (.mark "...") then
    let tokens ← tokensOf (mark "...")
    return .variadic (introduction ++ tokens)
  if ← startsReceiver then
    let ((reference, mutable, position), tokens) ← captured (receiver g)
    write tokens
    return .receiver (.receiver reference mutable (introduction ++ tokens)) position
  else
    if (← sees .identifier) && (← seesSecond (.mark "<")) then
      write (Token.word "_" :: Token.symbol ":")
      return .typed (.typed attributes .other [Token.word "_"] (← g.type true))
    let (shape, pattern) ← captured g.pattern
    write pattern
    mark ":"
    if ← mark? "..." then
      return .variadic (introduction ++ pattern ++ Token.symbol ":" ++ Token.symbol "...")
    return .typed (.typed attributes shape pattern (← g.type true))

/-- What the parameters of a function come to. -/
structure InputsRead where
  inputs : List FunctionInput
  trailing : Bool
  variadic : List Token
  hasReceiver : Bool

def functionInputs : Parser InputsRead := do
  let step (read : InputsRead) : Parser (Turn InputsRead InputsRead) := do
    if ← atEnd then return .done read
    match ← functionInput g with
    | .variadic tokens =>
      if ← atEnd then return .done { read with variadic := tokens }
      mark ","
      return .done { read with variadic := tokens ++ Token.symbol "," }
    | .receiver input selfAt =>
      if read.hasReceiver then failAt selfAt .secondReceiver
      else if !read.inputs.isEmpty then failAt selfAt .lateReceiver
      else next { read with inputs := read.inputs ++ [input], hasReceiver := true }
    | .typed input => next { read with inputs := read.inputs ++ [input] }
  loop step ⟨[], false, [], false⟩
where
  next (read : InputsRead) : Parser (Turn InputsRead InputsRead) := do
    if ← atEnd then pure (.done { read with trailing := false })
    else
      mark ","
      pure (.again { read with trailing := true })

/-- The words before the word `fn`: whether they call the function asynchronous, unsafe, and safe. -/
def qualifiers (allowSafe : Bool) : Parser (Bool × Bool × Bool) := do
  discard (word? "const")
  let isAsync ← word? "async"
  let isUnsafe ← word? "unsafe"
  let isSafe ← (do if allowSafe && !isUnsafe then word? "safe" else pure false)
  abi?
  pure (isAsync, isUnsafe, isSafe)

/-- A signature, and whether it calls the function safe. -/
def signatureAs (allowSafe : Bool) : Parser (Signature × Bool) := do
  let ((isAsync, isUnsafe, isSafe), qualifiers) ← captured (qualifiers allowSafe)
  write qualifiers
  word "fn"
  let nameAt ← here
  let name ← identifier
  let generics ← generics g
  let read ← inside .parenthesis (functionInputs g)
  let output ← returnType g true
  let whereClause ← whereClause? g
  pure ({ isAsync, isUnsafe, name, nameAt, generics, inputs := read.inputs, trailing := read.trailing,
          variadic := read.variadic, output, whereClause, qualifiers }, isSafe)

def signature : Parser Signature := do
  let (read, _) ← signatureAs g false
  pure read

def startsSignature (allowSafe : Bool) : Parser Bool :=
  ahead (do
    discard (qualifiers allowSafe)
    sees (.word "fn"))

def functionBody : Parser (List Attribute × List Token) :=
  inside .brace do
    let inner ← innerAttributes g
    let (_, body) ← captured g.statements
    write body
    pure (inner, body)

def functionAfter (attributes : List Attribute) (visibility : VisibilityExpr) (isDefault : Bool)
    (signature : Signature) : Parser FunctionItem := do
  let (innerAttributes, body) ← functionBody g
  pure { attributes, visibility, isDefault, signature, innerAttributes, body }

/-! ## Constants, types and macros inside items -/

/-- Writes what is read in canonical form if the reader says so, and otherwise as it stands. -/
def orAsItStands {α : Type} (p : Parser (α × Bool)) : Parser α := do
  let (((a, canonical), tokens), source) ← sourceOf (captured p)
  write (if canonical then tokens else source)
  pure a

def constantName : Parser String := do
  if ← seesAny [.identifier, .word "_"] then anyWord else failNoneOf [.identifier, .word "_"]

/-- A constant after its visibility. -/
structure ConstantRead where
  name : String
  valued : Bool
  /-- Neither the brackets of parameters nor a where clause are there. -/
  bare : Bool

def constantItem : Parser ConstantRead := do
  word "const"
  let name ← constantName
  let angled ← sees (.mark "<")
  discard (generics g)
  mark ":"
  discard (g.type true)
  let valued ← (do
    if ← mark? "=" then
      g.expressionAlone
      pure true
    else pure false)
  let clause ← whereClause? g
  mark ";"
  pure { name, valued, bare := !angled && clause.isNone }

/-- Bounds after a colon, up to one of the given ends, and whether the colon is there. It is written
only before a bound. -/
def bounded (stops : List Expected) : Parser Bool := do
  if ← sees (.mark ":") then
    let ((list, _), tokens) ← captured (do
      mark ":"
      separatedUntil (seesAny stops) (mark "+") (g.bound false true))
    if !list.isEmpty then write tokens
    pure true
  else pure false

/-- Where the where clause of a type item may stand: before its definition, after it, or in one of
the two places. -/
inductive ClausePlace where
  | before
  | after
  | either
  deriving DecidableEq

structure TypeItemRead where
  name : String
  bounded : Bool
  defined : Bool

def typeItem (clauseAt : ClausePlace) : Parser TypeItemRead := do
  word "type"
  let name ← identifier
  discard (generics g)
  let bounded ← bounded g [.word "where", .mark "=", .mark ";"]
  let clause ← (do if clauseAt == .after then pure none else whereClause? g)
  let defined ← (do
    if ← mark? "=" then
      discard (g.type true)
      pure true
    else pure false)
  if clauseAt != .before && clause.isNone then discard (whereClause? g)
  mark ";"
  pure { name, bounded, defined }

def invocationStarts : List Expected := [.identifier, .word "self", .word "super", .word "crate", .mark "::"]

def semicolonUnlessBraces (delimiter : Delimiter) : Parser Unit :=
  if delimiter == .brace then pure () else mark ";"

/-- A macro where an item inside a block is expected. -/
def innerInvocation : Parser Unit := do
  discard plainPath
  mark "!"
  let (delimiter, _) ← anyGroup
  semicolonUnlessBraces delimiter

/-! ## Blocks of functions -/

def startsDefault : Parser Bool := do
  pure ((← sees (.word "default")) && !(← seesSecond (.mark "!")))

/-- An item of a block, if it is a function with a body. -/
def blockItem : Parser (Option FunctionItem) :=
  orAsItStands do
    let attributes ← outerAttributes g
    let visibility ← visibility
    let isDefault ← startsDefault
    if isDefault then word "default"
    if ← startsSignature false then
      let signature ← signature g
      if ← mark? ";" then pure (none, false)
      else pure (some (← functionAfter g attributes visibility isDefault signature), true)
    else if ← sees (.word "const") then
      let constant ← constantItem g
      pure (none, constant.valued && constant.bare)
    else if ← sees (.word "type") then
      let type ← typeItem g .after
      pure (none, type.defined && !type.bounded)
    else if visibility.isInherited && !isDefault && (← seesAny invocationStarts) then
      innerInvocation
      pure (none, true)
    else
      failNoneOf ((if isDefault then [] else [.word "default"]) ++ [.word "fn", .word "const", .word "type"] ++
        (if visibility.isInherited && !isDefault then invocationStarts else []))

/-- The word `const` before the trait of a block, perhaps with a question mark; whether it stands here. -/
def constModifier : Parser Bool := do
  let isConst := (← sees (.word "const")) || ((← sees (.mark "?")) && (← seesSecond (.word "const")))
  if isConst then
    discard (mark? "?")
    word "const"
  pure isConst

/-- A block of functions after its visibility, and whether it is an ordinary one. -/
def functionsItem (attributes : List Attribute) (visible : Bool) : Parser (Item × Bool) := do
  discard (word? "default")
  discard (word? "unsafe")
  word "impl"
  if ← opensGenerics then discard (generics g)
  let isConst ← constModifier
  let position ← here
  let negative := (← sees (.mark "!")) && !(← seesSecond (.group .brace))
  if negative then mark "!"
  let first ← g.type true
  let ofTrait ← word? "for"
  let (subject, ordinary) ← (do
    if ofTrait then
      let named := match first with
        | .path _ => true
        | _ => false
      pure (← g.type true, named)
    else if negative then failAt position .negativeInherentBlock
    else pure (first, true))
  discard (whereClause? g)
  inside .brace do
    let inner ← innerAttributes g
    let items ← untilEnd (blockItem g)
    let ordinary := ordinary && !visible && !isConst
    pure (if ordinary then .functions (attributes ++ inner) ofTrait subject (items.filterMap id) else .plain, ordinary)

/-! ## Traits -/

def traitFunction : Parser Unit := do
  discard (signature g)
  if ← sees (.group .brace) then discard (functionBody g)
  else if !(← mark? ";") then failNoneOf [.group .brace, .mark ";"]

/-- A constant of a trait, or a function whose first word is `const`; and whether it is written in
canonical form. -/
def traitConstant : Parser Bool := do
  if (← seesSecond .identifier) || (← seesSecond (.word "_")) then
    let constant ← constantItem g
    pure constant.bare
  else if (← seesSecond (.word "async")) || (← seesSecond (.word "unsafe")) || (← seesSecond (.word "extern")) ||
      (← seesSecond (.word "fn")) then
    traitFunction g
    pure true
  else
    word "const"
    failNoneOf [.identifier, .word "_", .word "async", .word "unsafe", .word "extern", .word "fn"]

def traitItem : Parser Unit :=
  orAsItStands do
    discard (outerAttributes g)
    let visibility ← visibility
    let isDefault ← word? "default"
    let ordinary := visibility.isInherited && !isDefault
    if ← startsSignature false then
      traitFunction g
      pure ((), ordinary)
    else if ← sees (.word "const") then
      let canonical ← traitConstant g
      pure ((), canonical && ordinary)
    else if ← sees (.word "type") then
      discard (typeItem g .after)
      pure ((), ordinary)
    else if ordinary && (← seesAny invocationStarts) then
      innerInvocation
      pure ((), true)
    else
      failNoneOf ([.word "fn", .word "const", .word "type"] ++ (if ordinary then invocationStarts else []))

def traitBody (attributes : List Attribute) : Parser (List Attribute) := do
  discard (bounded g [.word "where", .group .brace])
  discard (whereClause? g)
  inside .brace do
    let inner ← innerAttributes g
    discard (untilEnd (traitItem g))
    pure (attributes ++ inner)

/-- A trait, or another name for traits, which is plain and stands after the word `trait` alone. -/
def traitOrAlias (attributes : List Attribute) (visibility : VisibilityExpr) : Parser Item := do
  let isUnsafe ← word? "unsafe"
  let isAuto ← word? "auto"
  word "trait"
  let name ← identifier
  discard (generics g)
  if isUnsafe || isAuto then
    pure (.named .trait (← traitBody g attributes) visibility name)
  else if ← seesAny [.group .brace, .mark ":", .word "where"] then
    pure (.named .trait (← traitBody g attributes) visibility name)
  else if ← mark? "=" then
    discard (separatedUntil (seesAny [.word "where", .mark ";"]) (mark "+") (g.bound false true))
    discard (whereClause? g)
    mark ";"
    pure .plain
  else failNoneOf [.group .brace, .mark ":", .word "where", .mark "="]

/-! ## Imports and foreign items -/

/-- What an import names. A part of a group may start at the root only where that is allowed;
whether one does. -/
def useTree (rootAllowed : Bool) : Parser Bool := do
  if ← seesAny [.identifier, .word "self", .word "super", .word "crate", .word "try"] then
    discard anyWord
    if ← mark? "::" then g.useTree false
    else if ← word? "as" then
      if ← sees .identifier then discard identifier
      else if !(← word? "_") then fail .renameMissing
      pure false
    else pure false
  else if ← mark? "*" then pure false
  else if ← sees (.group .brace) then
    let (rooted, _) ← inside .brace (commaSeparated (do
      let atRoot ← (do if rootAllowed then mark? "::" else pure false)
      let withinAtRoot ← g.useTree (rootAllowed && !atRoot)
      pure (atRoot || withinAtRoot)))
    pure (rooted.any id)
  else
    failNoneOf [.identifier, .word "self", .word "super", .word "crate", .word "try", .mark "*", .group .brace]

/-- An import, and whether it is written in canonical form. -/
def useItem : Parser Bool := do
  word "use"
  let atRoot ← mark? "::"
  let rooted ← g.useTree (!atRoot)
  mark ";"
  pure !rooted

def externCrate : Parser Unit := do
  word "extern"
  word "crate"
  if ← sees (.word "self") then discard anyWord else discard identifier
  if ← word? "as" then
    if !(← word? "_") then discard identifier
  mark ";"

def staticBody : Parser Unit := do
  word "static"
  discard (word? "mut")
  discard identifier

/-- A function of a block of foreign items, and whether it is written in canonical form. -/
def foreignFunction : Parser Bool := do
  let (_, isSafe) ← signatureAs g true
  if ← sees (.group .brace) then
    discard (functionBody g)
    pure false
  else
    mark ";"
    pure !isSafe

/-- A static item of such a block, likewise. -/
def foreignStatic : Parser Bool := do
  let isUnsafe ← word? "unsafe"
  let isSafe ← (do if isUnsafe then pure false else word? "safe")
  staticBody
  mark ":"
  discard (g.type true)
  let valued ← mark? "="
  if valued then g.expressionAlone
  mark ";"
  pure !(isUnsafe || isSafe || valued)

def foreignItem : Parser Unit :=
  orAsItStands do
    discard (outerAttributes g)
    let visibility ← visibility
    if ← startsSignature true then pure ((), ← foreignFunction g)
    else if (← sees (.word "static")) ||
        ((← seesAny [.word "unsafe", .word "safe"]) && (← seesSecond (.word "static"))) then
      pure ((), ← foreignStatic g)
    else if ← sees (.word "type") then
      let type ← typeItem g .either
      pure ((), !(type.bounded || type.defined))
    else if visibility.isInherited && (← seesAny invocationStarts) then
      innerInvocation
      pure ((), true)
    else
      failNoneOf ([.word "fn", .word "static", .word "type"] ++
        (if visibility.isInherited then invocationStarts else []))

def foreignItems : Parser Unit := do
  discard (word? "unsafe")
  word "extern"
  if ← sees .stringLiteral then discard stringLiteral
  inside .brace do
    discard (innerAttributes g)
    discard (untilEnd (foreignItem g))

/-! ## Items -/

/-- A static item, and whether it is one with a type and a value. -/
def staticItem : Parser (String × Bool) := do
  word "static"
  discard (word? "mut")
  let name ← identifier
  if ← mark? "=" then
    g.expressionAlone
    mark ";"
    pure (name, false)
  else
    mark ":"
    discard (g.type true)
    if ← mark? ";" then pure (name, false)
    else
      mark "="
      g.expressionAlone
      mark ";"
      pure (name, true)

def moduleItem (attributes : List Attribute) (visibility : VisibilityExpr) : Parser Item := do
  discard (word? "unsafe")
  word "mod"
  let name ← (do if ← sees (.word "try") then anyWord else identifier)
  if ← mark? ";" then pure (.module attributes visibility name [])
  else if ← sees (.group .brace) then
    inside .brace do
      let inner ← innerAttributes g
      pure (.module (attributes ++ inner) visibility name (← untilEnd g.item))
  else failNoneOf [.mark ";", .group .brace]

/-- A macro that is defined by name and arms. -/
def macroDefinition : Parser Unit := do
  word "macro"
  discard identifier
  let called ← sees (.group .parenthesis)
  if called then discard anyGroup
  if ← sees (.group .brace) then discard anyGroup
  else failNoneOf ((if called then [] else [.group .parenthesis]) ++ [.group .brace])

def invocationItem : Parser Unit := do
  discard plainPath
  mark "!"
  if ← sees (.word "try") then discard anyWord
  else if ← sees .identifier then discard identifier
  let (delimiter, _) ← anyGroup
  semicolonUnlessBraces delimiter

def itemStarts : List Expected :=
  [.word "fn", .word "extern", .word "use", .word "static", .word "const", .word "unsafe", .word "mod",
   .word "type", .word "struct", .word "enum", .word "union", .word "trait", .word "auto", .word "impl",
   .word "default", .word "macro"]

/-- A block of foreign items takes no visibility; the problem is reported where that starts. -/
def unlessVisible (visibility : VisibilityExpr) (start : Position) : Parser Unit := do
  if !visibility.isInherited then failAt start (.expected (.word "extern"))

def externItem (visibility : VisibilityExpr) (start : Position) : Parser Unit := do
  let next ← ahead (do
    word "extern"
    if ← sees (.word "crate") then pure true
    else if ← sees (.group .brace) then pure false
    else if ← sees .stringLiteral then
      discard stringLiteral
      if ← sees (.group .brace) then pure false else failNoneOf [.group .brace]
    else failNoneOf [.word "crate", .group .brace, .stringLiteral])
  if next then externCrate
  else
    unlessVisible visibility start
    foreignItems g

def unsafeItem (attributes : List Attribute) (visibility : VisibilityExpr) (start : Position) :
    Parser (Item × Bool) := do
  let isTrait := (← seesSecond (.word "trait")) || ((← seesSecond (.word "auto")) && (← seesThird (.word "trait")))
  if isTrait then pure (← traitOrAlias g attributes visibility, true)
  else if ← seesSecond (.word "impl") then functionsItem g attributes !visibility.isInherited
  else if ← seesSecond (.word "extern") then
    unlessVisible visibility start
    foreignItems g
    pure (.plain, true)
  else if ← seesSecond (.word "mod") then pure (← moduleItem g attributes visibility, true)
  else
    word "unsafe"
    failNoneOf [.word "trait", .word "auto", .word "impl", .word "extern", .word "mod"]

/-- An item after its attributes and its visibility, and whether it is written in canonical form. -/
def itemBody (attributes : List Attribute) (visibility : VisibilityExpr) (start : Position) :
    Parser (Item × Bool) := do
  if ← startsSignature false then
    let signature ← signature g
    if ← mark? ";" then pure (.plain, false)
    else
      let function ← functionAfter g attributes visibility false signature
      pure (.function function, true)
  else if ← sees (.word "extern") then
    externItem g visibility start
    pure (.plain, true)
  else if ← sees (.word "use") then
    pure (.plain, ← useItem g)
  else if ← sees (.word "static") then
    let (name, complete) ← staticItem g
    pure (if complete then .named .static attributes visibility name else .plain, complete)
  else if ← sees (.word "const") then
    let constant ← constantItem g
    let complete := constant.valued && constant.bare
    pure (if complete then .named .constant attributes visibility constant.name else .plain, complete)
  else if ← sees (.word "unsafe") then unsafeItem g attributes visibility start
  else if ← sees (.word "mod") then pure (← moduleItem g attributes visibility, true)
  else if ← sees (.word "type") then
    let type ← typeItem g .before
    let complete := type.defined && !type.bounded
    pure (if complete then .named .typeAlias attributes visibility type.name else .plain, complete)
  else if ← sees (.word "struct") then pure (.struct (← structItem g attributes visibility), true)
  else if ← sees (.word "enum") then pure (.named .enumeration attributes visibility (← enumItem g), true)
  else if (← sees (.word "union")) && (← seesSecond .identifier) then
    pure (.named .union attributes visibility (← unionItem g), true)
  else if (← sees (.word "trait")) || ((← sees (.word "auto")) && (← seesSecond (.word "trait"))) then
    pure (← traitOrAlias g attributes visibility, true)
  else if (← sees (.word "impl")) || (← startsDefault) then
    functionsItem g attributes !visibility.isInherited
  else if ← sees (.word "macro") then
    macroDefinition
    pure (.plain, false)
  else if visibility.isInherited && (← seesAny invocationStarts) then
    invocationItem
    pure (.plain, true)
  else failNoneOf (itemStarts ++ (if visibility.isInherited then invocationStarts else []))

def item : Parser Item :=
  orAsItStands do
    let attributes ← outerAttributes g
    let start ← here
    let visibility ← visibility
    itemBody g attributes visibility start

/-! ## Items alone -/

/-- A type for which something is derived: a struct, or the name of one of another kind. -/
inductive DeriveInput where
  | struct (item : StructItem)
  | other (name : String)

def deriveInput : Parser DeriveInput := do
  let attributes ← outerAttributes g
  let visibility ← visibility
  if ← sees (.word "struct") then .struct <$> structItem g attributes visibility
  else if ← sees (.word "enum") then .other <$> enumItem g
  else if ← sees (.word "union") then .other <$> unionItem g
  else failNoneOf [.word "struct", .word "enum", .word "union"]

/-- A function with a body as it stands in a block of functions. -/
def blockFunction : Parser FunctionItem := do
  let attributes ← outerAttributes g
  let visibility ← visibility
  let isDefault ← word? "default"
  functionAfter g attributes visibility isDefault (← signature g)

/-- All items of a file. -/
def file : Parser (List Item) := do
  discard (innerAttributes g)
  untilEnd g.item

end BuilderSynthesis.Syntax.Read
