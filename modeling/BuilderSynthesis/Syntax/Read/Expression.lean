/-
  BuilderSynthesis.Syntax.Read.Expression — expressions.

  The readers of expressions write nothing: an expression is written by what it is a part of, when
  it is known where it stands. The parts of an atom are written at once, as nothing outside of it
  can reach them.
-/

import BuilderSynthesis.Syntax.Read.Pattern

namespace BuilderSynthesis.Syntax.Read

open BuilderSynthesis.Syntax.Parser

variable (g : Grammar)

/-! ## Operators -/

/-- The operators between two operands; of two that both stand at a place, the first is meant. -/
def operators : List (String × Precedence) :=
  [("+=", .assign), ("-=", .assign), ("*=", .assign), ("/=", .assign), ("%=", .assign), ("^=", .assign),
   ("&=", .assign), ("|=", .assign), ("<<=", .assign), (">>=", .assign), ("&&", .and), ("||", .or),
   ("<<", .shift), (">>", .shift), ("==", .compare), ("<=", .compare), ("!=", .compare), (">=", .compare),
   ("+", .sum), ("-", .sum), ("*", .product), ("/", .product), ("%", .product), ("^", .bitXor),
   ("&", .bitAnd), ("|", .bitOr), ("<", .compare), (">", .compare)]

def operator? : Parser (Option (String × Precedence)) := do
  let tokens ← remaining
  pure (operators.find? fun (operator, _) => (Expected.mark operator).stands tokens)

/-- How tightly what follows binds. -/
def nextPrecedence : Parser Precedence := do
  match ← operator? with
  | some (_, precedence) => pure precedence
  | none =>
    if ← seesBut (.mark "=") [.mark "=>"] then pure .assign
    else if ← sees (.mark "..") then pure .range
    else if ← sees (.word "as") then pure .cast
    else pure .jump

/-- After a cast, none of these may follow directly. -/
def checkCast : Parser Unit := do
  if ← seesBut (.mark ".") [.mark ".."] then
    if ← seesSecond (.word "await") then fail (.castFollowedBy "`.await`")
    else if (← seesSecond .identifier) && ((← seesThird (.group .parenthesis)) || (← seesThird (.mark "::"))) then
      fail (.castFollowedBy "a method call")
    else fail (.castFollowedBy "a field access")
  else if ← sees (.mark "?") then fail (.castFollowedBy "`?`")
  else if ← sees (.group .bracket) then fail (.castFollowedBy "indexing")
  else if ← sees (.group .parenthesis) then fail (.castFollowedBy "a function call")

/-! ## What begins and ends an expression -/

def startsExpression : Parser Bool := do
  pure ((← seesBut .anyWord [.word "as"]) ||
    (← seesAny [.group .parenthesis, .group .bracket, .group .brace, .literal, .mark "..", .mark "::", .lifetime,
      .mark "#"]) ||
    (← seesBut (.mark "!") [.mark "!="]) || (← seesBut (.mark "-") [.mark "-=", .mark "->"]) ||
    (← seesBut (.mark "*") [.mark "*="]) || (← seesBut (.mark "|") [.mark "|="]) ||
    (← seesBut (.mark "&") [.mark "&="]) || (← seesBut (.mark "<") [.mark "<=", .mark "<<="]))

/-- No end of a range stands here. -/
def endsRange (allowStruct : Bool) : Parser Bool := do
  pure ((← atEnd) || (← seesBut (.mark ".") [.mark ".."]) || (!allowStruct && (← sees (.group .brace))) ||
    (← seesAny [.mark ",", .mark ";", .mark "?", .mark "=>", .mark "=", .mark "+", .mark "/", .mark "%", .mark "^",
      .mark ">", .mark "<=", .mark "!=", .mark "-=", .mark "*=", .mark "&=", .mark "|=", .mark "<<=",
      .word "as"]))

/-! ## Operators after an operand -/

/-- The right side of an operator: everything that binds more tightly, and another assignment
after an assignment. -/
def rightSide (allowStruct : Bool) (precedence : Precedence) : Parser Expression := do
  let step (read : Expression) : Parser (Turn Expression Expression) := do
    let next ← nextPrecedence
    if precedence.below next || (next == precedence && precedence == .assign) then
      let before := (← remaining).length
      let more ← g.continued read allowStruct next
      if (← remaining).length == before then pure (.done more) else pure (.again more)
    else pure (.done read)
  loop step (← g.operand allowStruct)

/-- The dots of a range and its end, if it has one. -/
def rangeRest (allowStruct : Bool) : Parser (String × Option Expression) := do
  let (closed, _) ← captured (rangeDots false)
  let dots := if closed then "..=" else ".."
  if closed || !(← endsRange allowStruct) then pure (dots, some (← rightSide g allowStruct .range))
  else pure (dots, none)

/-- Reads on after an operand with operators that bind at least as tightly as `base`. -/
def continued (first : Expression) (allowStruct : Bool) (base : Precedence) : Parser Expression := do
  let step (read : Expression) : Parser (Turn Expression Expression) := do
    if read.isRange then return .done read
    match ← operator? with
    | some (operator, precedence) =>
      if precedence.below base then pure (.done read)
      else if precedence == .compare && read.isComparison then fail .comparisonChained
      else
        discard (apart (mark operator))
        pure (.again (.binary [] read operator precedence (← rightSide g allowStruct precedence)))
    | none =>
      if base.atMost .assign && (← seesBut (.mark "=") [.mark "=>"]) then
        discard (apart (mark "="))
        pure (.again (.assign [] read (← rightSide g allowStruct .assign)))
      else if base.atMost .range && (← sees (.mark "..")) then
        match ← rangeRest g allowStruct with
        | (dots, some stop) => pure (.again (.rangeBetween [] read dots stop))
        | (_, none) => pure (.again (.rangeFrom [] read))
      else if ← sees (.word "as") then
        let (type, _) ← captured (do
          word "as"
          g.type false)
        checkCast
        pure (.again (.cast [] read type))
      else pure (.done read)
  loop step first

/-! ## What follows an operand directly -/

/-- Numbered fields that were read as one number with a point: `x.0.1`. Whether the last of the
points is still to be followed by a field. -/
def numberedFields (position : Position) (text : String) : Parser Bool := do
  let parts := text.splitOn "."
  let trailing := parts.getLast? == some ""
  let indices ← (if trailing then parts.dropLast else parts).mapM (fieldIndex position)
  write (joinTokens (Token.symbol ".") false (indices.map fun index => [index]))
  if trailing then write (Token.symbol ".")
  pure trailing

def fieldOrMethod : Parser Unit := do
  mark "."
  let again ← (do
    match ← number? with
    | some (false, text, position, count) =>
      skip count
      numberedFields position text
    | _ => pure true)
  if again then
    if !(← word? "await") then
      let named ← member
      let turbofish ← (do
        if named && (← sees (.mark "::")) then
          discard (writtenBy Arguments.tokens (angledArguments g))
          pure true
        else pure false)
      if turbofish || (named && (← sees (.group .parenthesis))) then
        discard (inside .parenthesis (commaSeparated g.expressionAlone))

/-- The arguments of a call, each as it is written, and whether a comma ends them. -/
def callArguments : Parser (List (List Token) × Bool) := do
  let (arguments, _) ← captured (inside .parenthesis (commaSeparated (apart g.expressionAlone)))
  pure arguments

def trailers (first : Expression) : Parser Expression := do
  let step (read : Expression) : Parser (Turn Expression Expression) := do
    if ← sees (.group .parenthesis) then
      let (arguments, trailing) ← callArguments g
      pure (.again (.call [] read arguments trailing))
    else if !read.isRange && (← seesBut (.mark ".") [.mark ".."]) then
      pure (.again (.member [] read (← apart (fieldOrMethod g))))
    else if ← sees (.group .bracket) then
      pure (.again (.index [] read (← apart (inside .bracket g.expressionAlone))))
    else if !read.isRange && (← sees (.mark "?")) then
      pure (.again (.member [] read (← apart (mark "?"))))
    else pure (.done read)
  loop step first

/-! ## Atoms -/

def fieldValue : Parser Unit := do
  discard (outerAttributes g)
  let named ← member
  if (← sees (.mark ":")) || !named then
    mark ":"
    g.expressionAlone

/-- The fields of a struct that is written out. -/
def structValues : Parser Unit :=
  inside .brace do
    let step (_ : Unit) : Parser (Turn Unit Unit) := do
      if ← atEnd then pure (.done ())
      else if ← mark? ".." then
        if !(← atEnd) then g.expressionAlone
        pure (.done ())
      else
        fieldValue g
        if ← atEnd then pure (.done ())
        else
          mark ","
          pure (.again ())
    loop step ()

def pathAtom (allowStruct : Bool) : Parser Atom := do
  let path ← qualifiedPath g true
  let plain := match path with
    | .path p => p.isPlain
    | _ => false
  if plain && (← seesBut (.mark "!") [.mark "!="]) then
    mark "!"
    let (delimiter, _) ← anyGroup
    pure (.invocation delimiter)
  else if allowStruct && (← sees (.group .brace)) then
    structValues g
    pure .fields
  else
    match path with
    | .path p => pure (.path p)
    | .qualified _ _ rest => pure (.path (.mk false rest))
    | _ => pure .other

/-- An expression in brackets, or a tuple. -/
def parenAtom : Parser Unit :=
  discard (inside .parenthesis (commaSeparated g.expressionAlone))

def arrayAtom : Parser Unit :=
  inside .bracket do
    if !(← atEnd) then
      g.expressionAlone
      if (← atEnd) || (← sees (.mark ",")) then
        let step (_ : Unit) : Parser (Turn Unit Unit) := do
          if ← atEnd then pure (.done ())
          else
            mark ","
            if ← atEnd then pure (.done ())
            else
              g.expressionAlone
              pure (.again ())
        loop step ()
      else if ← mark? ";" then g.expressionAlone
      else fail .commaOrSemicolonMissing

/-- What decides about a branch or a loop. -/
def condition : Parser Unit := g.expressionIn .ofCondition false

def ifExpression : Parser Unit := do
  let step (_ : Unit) : Parser (Turn Unit Unit) := do
    word "if"
    condition g
    inside .brace g.statements
    if ← word? "else" then
      if ← sees (.word "if") then pure (.again ())
      else if ← sees (.group .brace) then
        inside .brace g.statements
        pure (.done ())
      else failNoneOf [.word "if", .group .brace]
    else pure (.done ())
  loop step ()

def whileExpression : Parser Unit := do
  word "while"
  condition g
  discard (block g)

def forExpression : Parser Unit := do
  word "for"
  discard (anyPattern g)
  word "in"
  condition g
  discard (block g)

def loopExpression : Parser Unit := do
  word "loop"
  discard (block g)

def label : Parser Unit := do
  discard lifetime
  mark ":"

def labeled : Parser Unit := do
  label
  if ← sees (.word "while") then whileExpression g
  else if ← sees (.word "for") then forExpression g
  else if ← sees (.word "loop") then loopExpression g
  else if ← sees (.group .brace) then discard (block g)
  else fail .loopOrBlockMissing

/-- A parameter of a closure. -/
def closureInput : Parser Unit := do
  let attributes ← apart (outerAttributes g)
  let (shape, pattern) ← captured g.pattern
  if ← sees (.mark ":") then
    write (attributes ++ pattern)
    mark ":"
    discard (g.type true)
  else
    write <| match shape with
      | .verbatim => pattern
      | .halfOpen _ | .range => attributes ++ parenthesesIf (!attributes.isEmpty) pattern
      | _ => attributes ++ pattern

/-- Everything before the body of a closure, and whether the type of its value is named. -/
def closureHead : Parser Bool := do
  discard (binder g)
  discard (word? "const")
  discard (word? "static")
  discard (word? "async")
  discard (word? "move")
  mark "|"
  discard (separatedUntil (sees (.mark "|")) (mark ",") (closureInput g))
  mark "|"
  if ← mark? "->" then
    discard (g.type true)
    pure true
  else pure false

def closure (allowStruct : Bool) : Parser Expression := do
  let (typed, head) ← captured (closureHead g)
  let body ← (do
    if typed then pure (.atom [] (.block false true) (← apart (inside .brace g.statements)))
    else g.expression allowStruct)
  pure (.closure [] typed head body)

/-- A jump with the value that may follow. -/
def jump (leaves labeled valued : Bool) (head : List Token) : Parser Expression := do
  if valued && (← startsExpression) then pure (.jump [] leaves labeled head (← g.expression true))
  else pure (.atom [] (.jump leaves) head)

def breakExpression (allowStruct : Bool) : Parser Expression := do
  let (labeled, head) ← captured (do
    word "break"
    if ← sees .lifetime then
      let position ← here
      if (← ahead (do discard lifetime; sees (.mark ":"))) then
        discard (g.expression true)
        failAt position .labelNeedsParentheses
      discard lifetime
      pure true
    else pure false)
  jump g true labeled (allowStruct || !(← sees (.group .brace))) head

def letExpression (allowStruct : Bool) : Parser Expression := do
  let head ← apart (do
    word "let"
    discard (anyPattern g)
    mark "=")
  pure (.binding [] head (← continued g (← g.operand allowStruct) allowStruct .compare))

/-- Bound parameters come after the word `for`, and no loop. -/
def bindsParameters : Parser Bool := do
  if ← sees (.word "for") then
    ahead (do
      word "for"
      opensGenerics)
  else pure false

def startsClosure : Parser Bool := do
  pure ((← seesAny [.mark "|", .word "move", .word "static"]) || (← bindsParameters) ||
    ((← sees (.word "const")) && !(← seesSecond (.group .brace))) ||
    ((← sees (.word "async")) && ((← seesSecond (.mark "|")) || (← seesSecond (.word "move")))))

def startsPath : Parser Bool := do
  pure ((← seesAny [.identifier, .mark "::", .mark "<", .word "self", .word "Self", .word "super",
      .word "crate"]) ||
    ((← sees (.word "try")) && ((← seesSecond (.mark "!")) || (← seesSecond (.mark "::")))))

def asyncBlock : Parser Unit := do
  word "async"
  discard (word? "move")
  inside .brace g.statements

/-- One arm of a match. The next arm may follow a block without a comma. -/
def arm : Parser Unit := do
  discard (outerAttributes g)
  discard (anyPattern g)
  if ← word? "if" then g.expressionAlone
  mark "=>"
  let body ← g.boundary
  write (body.tokens .ofArm)
  if !body.endsArm && !(← atEnd) then mark "," else discard (mark? ",")

def matchExpression : Parser Unit := do
  word "match"
  condition g
  inside .brace do
    discard (innerAttributes g)
    discard (untilEnd (arm g))

/-- A loop, a branch or a block, if one stands here. -/
def blockKind? : Parser (Option Atom) := do
  if ← sees (.word "if") then
    ifExpression g
    pure (some (.block false false))
  else if ← sees (.word "while") then
    whileExpression g
    pure (some (.block false false))
  else if (← sees (.word "for")) && !(← bindsParameters) then
    forExpression g
    pure (some (.block false false))
  else if ← sees (.word "loop") then
    loopExpression g
    pure (some (.block false false))
  else if ← sees (.word "match") then
    matchExpression g
    pure (some (.block false false))
  else if (← seesAny [.word "unsafe"]) || ((← sees (.word "const")) && (← seesSecond (.group .brace))) then
    discard anyWord
    discard (block g)
    pure (some (.block false false))
  else if (← sees (.word "try")) && (← seesSecond (.group .brace)) then
    word "try"
    inside .brace g.statements
    pure (some (.block false false))
  else if ← sees (.group .brace) then
    let inner ← block g
    pure (some (.block false inner.isEmpty))
  else if ← sees .lifetime then
    labeled g
    pure (some (.block true false))
  else pure none

def blockAtom? : Parser (Option Expression) := do
  let (kind?, content) ← captured (blockKind? g)
  pure (kind?.map (.atom [] · content))

/-- An atom of the kind that a reader finds, with what it writes. -/
def atomOf (p : Parser Atom) : Parser Expression := do
  let (kind, content) ← captured p
  pure (.atom [] kind content)

/-- An expression that a keyword or a mark begins, other than a loop, a branch or a block. -/
def simpleAtom (allowStruct : Bool) : Parser Expression := do
  if ← sees .literal then atomOf (do discard literal; pure .other)
  else if (← sees (.word "async")) && ((← seesSecond (.group .brace)) ||
      ((← seesSecond (.word "move")) && (← seesThird (.group .brace)))) then
    atomOf (do asyncBlock g; pure .other)
  else if ← startsClosure then closure g allowStruct
  else if ← startsBuiltin then .verbatim <$> apart builtin
  else if ← startsPath then atomOf (pathAtom g allowStruct)
  else if ← sees (.group .parenthesis) then atomOf (do parenAtom g; pure .other)
  else if ← sees (.word "break") then breakExpression g allowStruct
  else if ← sees (.word "continue") then atomOf (do word "continue"; discard lifetime?; pure .other)
  else if ← sees (.word "return") then jump g false false true (← apart (word "return"))
  else if ← sees (.word "become") then
    let (_, source) ← sourceOf (do
      word "become"
      g.expression true)
    pure (.verbatim source)
  else if ← sees (.group .bracket) then atomOf (do arrayAtom g; pure .other)
  else if ← sees (.word "let") then letExpression g allowStruct
  else if ← sees (.word "yield") then jump g false false true (← apart (word "yield"))
  else if ← sees (.mark "..") then
    match ← rangeRest g allowStruct with
    | (dots, some stop) => pure (.rangeTo [] dots stop)
    | (dots, none) => pure (.atom [] .everything (Token.symbol dots))
  else if ← sees (.word "_") then atomOf (do word "_"; pure .other)
  else fail .expressionMissing

/-! ## Operands and whole expressions -/

def prefixOperator? : Parser (Option (List Token)) := do
  if ← sees (.mark "&") then
    some <$> apart (do
      mark "&"
      if (← sees (.word "raw")) && ((← seesSecond (.word "mut")) || (← seesSecond (.word "const"))) then
        word "raw"
        if !(← word? "mut") then word "const"
      else discard (word? "mut"))
  else if ← sees (.mark "*") then some <$> apart (mark "*")
  else if ← sees (.mark "!") then some <$> apart (mark "!")
  else if ← sees (.mark "-") then some <$> apart (mark "-")
  else pure none

/-- An operand with the operators before it and the calls, fields and indices after it. -/
def operand (allowStruct : Bool) : Parser Expression := do
  let ((attributes, position, read), source) ← sourceOf (do
    let attributes ← apart (outerAttributes g)
    let position ← here
    match ← prefixOperator? with
    | some operator => pure (attributes, position, .prefixed [] operator (← g.operand allowStruct))
    | none =>
      let first ← (do
        match ← blockAtom? g with
        | some atom => pure atom
        | none => simpleAtom g allowStruct)
      pure (attributes, position, ← trailers g first))
  match read with
  | .verbatim _ => pure (.verbatim source)
  | _ =>
    if !attributes.isEmpty && read.isRange then failAt position .attributesOnRange
    pure (read.withAttributes attributes)

def expression (allowStruct : Bool) : Parser Expression := do
  continued g (← operand g allowStruct) allowStruct .jump

/-- An expression in the place of a statement or of the body of a match arm: a loop, a branch or a
block ends it unless a point or a question mark follows. -/
def boundary : Parser Expression := do
  let attributes ← apart (outerAttributes g)
  match ← blockAtom? g with
  | some atom =>
    if (← seesBut (.mark ".") [.mark ".."]) || (← sees (.mark "?")) then
      continued g ((← trailers g atom).withAttributes attributes) true .jump
    else pure (atom.withAttributes attributes)
  | none => continued g ((← operand g true).withAttributes attributes) true .jump

end BuilderSynthesis.Syntax.Read
