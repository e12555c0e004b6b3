/-
  BuilderSynthesis.Syntax.Grammar — the readers that call each other in a circle.

  Types, patterns, expressions, statements and items contain one another. The readers of each are
  written against a `Grammar`, a record of readers for the parts, and the circle is closed in one
  place by giving each layer the layer below it.
-/

import BuilderSynthesis.Syntax.Item
import BuilderSynthesis.Syntax.Parser
import BuilderSynthesis.Syntax.Surroundings

namespace BuilderSynthesis.Syntax

structure Grammar where
  /-- A type, which may be a sum of traits or not. -/
  type : Bool → Parser TypeExpr
  /-- A bound, which may be a capture or not, and may be constant or not. -/
  bound : Bool → Bool → Parser Bound
  /-- A single pattern. -/
  pattern : Parser PatternShape
  /-- An expression, in which a struct may be written out or not. Like the next three readers, it
  writes nothing, as the place where an expression stands settles how it is written. -/
  expression : Bool → Parser Expression
  /-- An operand. -/
  operand : Bool → Parser Expression
  /-- What goes on after an operand with operators that bind at least as tightly as one. -/
  continued : Expression → Bool → Precedence → Parser Expression
  /-- An expression in the place of a statement or of the body of a match arm. -/
  boundary : Parser Expression
  /-- The statements of a block. -/
  statements : Parser Unit
  item : Parser Item
  /-- The fields between the braces of a struct, and whether a comma ends them. -/
  namedFields : Parser (List Field × Bool)
  /-- What an import names. A group may start at the root or not; whether one does. -/
  useTree : Bool → Parser Bool

namespace Grammar

/-- The grammar of no text at all. -/
def nothing : Grammar where
  type _ := Parser.fail (.noneOf [])
  bound _ _ := Parser.fail (.noneOf [])
  pattern := Parser.fail (.noneOf [])
  expression _ := Parser.fail (.noneOf [])
  operand _ := Parser.fail (.noneOf [])
  continued _ _ _ := Parser.fail (.noneOf [])
  boundary := Parser.fail (.noneOf [])
  statements := Parser.fail (.noneOf [])
  item := Parser.fail (.noneOf [])
  namedFields := Parser.fail (.noneOf [])
  useTree _ := Parser.fail (.noneOf [])

variable (g : Grammar)

/-- Reads an expression and writes it as it stands in a place. -/
def expressionIn (place : Surroundings) (allowStruct : Bool) : Parser Unit := do
  Parser.write ((← g.expression allowStruct).tokens place)

/-- Reads and writes an expression that has nothing around it. -/
def expressionAlone : Parser Unit := g.expressionIn .alone true

end Grammar

end BuilderSynthesis.Syntax
