/-
  BuilderSynthesis.Expansion.Directives — what the compiler makes of a directive.

  A directive leaves its item in place, without modifiers, and takes in the file of the builder
  that a pass has written for it. What is wrong with a directive becomes an error of the compiler
  at that place.
-/

import BuilderSynthesis.Builder.Code
import BuilderSynthesis.Expansion.Stripped
import BuilderSynthesis.Plan.Request

namespace BuilderSynthesis

/-- The directives, as they stand before an item. -/
inductive DirectiveForm where
  | derive
  | builder
  | builderOf
  | constructor
  deriving DecidableEq, Repr

namespace Expansion

open Syntax Fragment

/-! ## Pieces -/

/-- Takes in the file of a builder. -/
def inclusion (unit : String) : Code :=
  globalPath ["buildergen", "include_builder"] ++ Token.symbol "!" ++ parens (words [unit]) ++ semicolon

/-- Stops the compiler with a message. -/
def compileError (message : String) : Code :=
  globalPath ["core", "compile_error"] ++ Token.symbol "!" ++ braces (Fragment.text message)

/-- The name of the builder for a struct: its own with the suffix, read as one name. -/
def unitName (target suffix : String) : Except String String :=
  match readIdentifier (target ++ suffix) with
  | .ok unit => .ok unit
  | .error _ => .error ("`" ++ target ++ suffix ++ "` is not a valid builder name")

/-- Takes in the builder for a struct, or stops if it can have no such name. -/
def inclusionFor (target suffix : String) : Code :=
  match unitName target suffix with
  | .ok unit => inclusion unit
  | .error message => compileError message

def place : String := "builder directives belong on structs with named fields or on associated constructors"

/-! ## Directives -/

def misplaced (what : String) : Code := compileError (place ++ ", not on " ++ what)

/-- A derived builder adds to the struct and does not repeat it. -/
def derived (item : List Token) : Code :=
  match readTokens Read.deriveInput item .start with
  | .error problem => compileError problem.message
  | .ok (.other _, _) => misplaced "an enum or union"
  | .ok (.struct s, _) =>
    if s.fields.isNamed then inclusionFor s.name Request.defaultSuffix
    else misplaced "a struct without named fields"

def noArguments (directive : String) : Code := compileError ("`" ++ directive ++ "` takes no arguments")

/-- On a struct the builder is taken in beside it; on a function its author takes it in. -/
def onItem (item : List Token) : Code :=
  match readTokens Read.item item .start with
  | .error problem => compileError problem.message
  | .ok (.struct s, _) =>
    (strippedStruct s).tokens ++
      (if s.fields.isNamed then inclusionFor s.name Request.defaultSuffix else compileError place)
  | .ok (.function f, _) => (strippedFunction f).tokens
  | .ok (_, written) => written ++ compileError place

/-- A constructor that only carries modifiers. -/
def onConstructor (item : List Token) : Code :=
  match readTokens Read.blockFunction item .start with
  | .error problem => compileError problem.message
  | .ok (f, _) => (strippedFunction f).tokens

/-- What the arguments of a directive for a struct elsewhere give: the name of the struct and the
suffix. -/
structure Elsewhere where
  target : Option String
  suffix : Option String
  deriving DecidableEq, Repr

def elsewhereEntry (g : Grammar) (given : Elsewhere) (path : PathExpr) (position : Position) : Parser Elsewhere := do
  if path.isName "target" then
    let target ← Read.entryValue (Read.path g false)
    pure { given with target := target.last? }
  else if path.isName "suffix" then
    let suffix ← Read.entryValue Parser.stringLiteral
    pure { given with suffix := some (Text.literalValue suffix) }
  else if path.isName "use_constructors" then
    discard (Read.entryValue Parser.booleanLiteral)
    pure given
  else Parser.failAt position (.unknownKind "builder_of argument")

/-- The item stays as it is written, and the builder of the struct elsewhere is taken in beside it. -/
def elsewhere (arguments : List Token) (closesAt : Position) (item : List Token) : Code :=
  item ++
    match Read.entries (elsewhereEntry (grammarFor arguments)) ⟨none, none⟩ arguments closesAt with
    | (_, .error problem) => compileError problem.message
    | (⟨none, _⟩, .ok ()) => compileError "builder_of requires `target = path::to::Type`"
    | (⟨some target, suffix⟩, .ok ()) => inclusionFor target (suffix.getD Request.defaultSuffix)

/-- The code that a directive with its arguments, which close at the given place, and its item becomes. -/
def expand (form : DirectiveForm) (arguments : List Token) (closesAt : Position) (item : List Token) : Code :=
  match form with
  | .derive => derived item
  | .builder => if arguments.isEmpty then onItem item else noArguments "builder"
  | .builderOf => elsewhere arguments closesAt item
  | .constructor => if arguments.isEmpty then onConstructor item else noArguments "constructor"

/-- The text of a directive's expansion. Texts that are no tokens have none. -/
def expandText (form : DirectiveForm) (arguments item : String) : Except Problem String :=
  let read (text : String) : Except Problem (List Token) :=
    match tokens text with
    | .ok found => .ok found
    | .error position => .error ⟨.notTokens, position, false⟩
  do
    let arguments ← if form == .derive then pure [] else read arguments
    let item ← read item
    pure (printed (expand form arguments .start item))

end Expansion

end BuilderSynthesis
