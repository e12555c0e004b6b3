/-
  BuilderSynthesis.Syntax.Read.Statement — the statements of a block.
-/

import BuilderSynthesis.Syntax.Read.Expression

namespace BuilderSynthesis.Syntax.Read

open BuilderSynthesis.Syntax.Parser

variable (g : Grammar)

/-- What the start of a statement tells after its attributes. -/
inductive StatementStart where
  /-- A macro with braces that is a statement of its own. -/
  | invocation
  /-- A macro that defines an item. -/
  | itemInvocation
  | anything

def statementStart : Parser StatementStart :=
  ahead do
    match ← attempt plainPath with
    | none => pure .anything
    | some _ =>
      if ← sees (.mark "!") then
        if (← seesSecond .identifier) || (← seesSecond (.word "try")) then pure .itemInvocation
        else if (← seesSecond (.group .brace)) &&
            !(((← seesThird (.mark ".")) && !(← seesThird (.mark ".."))) || (← seesThird (.mark "?"))) then
          pure .invocation
        else pure .anything
      else pure .anything

/-- A static or constant item rather than a closure or a block. -/
def startsStaticItem : Parser Bool := do
  if ← sees (.word "static") then
    pure ((← seesSecond (.word "mut")) || ((← seesSecond .identifier) &&
      !((← seesSecond (.word "async")) && ((← seesThird (.word "move")) || (← seesThird (.mark "|"))))))
  else if ← sees (.word "const") then
    pure !((← seesSecond (.group .brace)) || (← seesSecond (.word "static")) ||
      ((← seesSecond (.word "async")) &&
        !((← seesThird (.word "unsafe")) || (← seesThird (.word "extern")) || (← seesThird (.word "fn")))) ||
      (← seesSecond (.word "move")) || (← seesSecond (.mark "|")))
  else pure false

def startsItem : Parser Bool := do
  pure ((← seesAny [.word "pub", .word "extern", .word "use", .word "fn", .word "mod", .word "type", .word "struct",
      .word "enum", .word "trait", .word "impl", .word "macro"]) ||
    ((← sees (.word "crate")) && !(← seesSecond (.mark "::"))) || (← startsStaticItem) ||
    ((← sees (.word "unsafe")) && !(← seesSecond (.group .brace))) ||
    ((← sees (.word "async")) &&
      ((← seesSecond (.word "unsafe")) || (← seesSecond (.word "extern")) || (← seesSecond (.word "fn")))) ||
    ((← sees (.word "union")) && (← seesSecond .identifier)) ||
    ((← sees (.word "auto")) && (← seesSecond (.word "trait"))) ||
    ((← sees (.word "default")) && ((← seesSecond (.word "unsafe")) || (← seesSecond (.word "impl")))))

/-- A binding by `let`. An `else` may follow only a value that does not end in a brace. -/
def letStatement : Parser Unit := do
  word "let"
  discard g.pattern
  if ← mark? ":" then discard (g.type true)
  if ← mark? "=" then
    let (value, source) ← sourceOf (g.expression true)
    write (value.tokens .alone)
    let endsInBrace := match source.getLast? with
      | some (.group .brace _ _ _) => true
      | _ => false
    if !endsInBrace && (← sees (.word "else")) then
      word "else"
      inside .brace g.statements
  mark ";"

/-- An expression with the semicolon after it. Whether a separator is missing. -/
def expressionStatement : Parser Bool := do
  let ((attributes, value), source) ← sourceOf (do
    let attributes ← apart (outerAttributes g)
    pure (attributes, ← g.boundary))
  write <| match value with
    | .verbatim _ => source
    | _ => (value.withLeadingAttributes attributes).tokens .ofStatement
  let ended ← mark? ";"
  pure !(ended || value.endsStatement)

/-- One statement. Whether nothing may follow it. -/
def statement : Parser Bool := do
  let start ← ahead (do
    discard (outerAttributes g)
    statementStart)
  let isLet ← ahead (do
    discard (outerAttributes g)
    sees (.word "let"))
  let isItem ← ahead (do
    discard (outerAttributes g)
    startsItem)
  match start with
  | .invocation =>
    discard (outerAttributes g)
    discard plainPath
    mark "!"
    discard anyGroup
    discard (mark? ";")
    pure false
  | .itemInvocation =>
    discard g.item
    pure false
  | .anything =>
    if isLet then
      discard (outerAttributes g)
      letStatement g
      pure false
    else if isItem then
      discard g.item
      pure false
    else expressionStatement g

def statements : Parser Unit := do
  let step (_ : Unit) : Parser (Turn Unit Unit) := do
    discard (whileSeen (sees (.mark ";")) (mark ";"))
    if ← atEnd then pure (.done ())
    else
      let unended ← statement g
      if ← atEnd then pure (.done ())
      else if unended then fail .semicolonMissing
      else pure (.again ())
  loop step ()

end BuilderSynthesis.Syntax.Read
