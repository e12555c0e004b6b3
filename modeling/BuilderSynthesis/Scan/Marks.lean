/-
  BuilderSynthesis.Scan.Marks — what attributes say about builders.

  An attribute is a directive when its path names one, alone or below the name of the library. The
  entries of a directive or of a modifier are read one by one; an entry that is not understood ends
  the reading of its attribute and is reported, and what the entries before it said stays.
-/

import BuilderSynthesis.Declaration.Directive
import BuilderSynthesis.Syntax.Text

namespace BuilderSynthesis.Scan

open Syntax

/-- A place in a file as a location. -/
def locate (file : String) (position : Position) : Location := ⟨file, position.line, position.column⟩

def reported (file : String) (problem : Problem) : Diagnostic :=
  .error problem.message (locate file problem.position)

/-! ## Directives -/

/-- The library, below which its directives may be named. -/
def libraryName : String := "buildergen"

def namesDirective (path : PathExpr) (name : String) : Bool :=
  match path.names with
  | [only] => only == name
  | [library, last] => library == libraryName && last == name
  | _ => false

def isBuilder (attr : Attribute) : Bool := namesDirective attr.path "builder"

def isBuilderOf (attr : Attribute) : Bool := namesDirective attr.path "builder_of"

/-- The attribute derives a list of traits with the builder among them. -/
def derivesBuilder (attr : Attribute) : Bool :=
  attr.path.isName "derive" &&
    match attr.form with
    | .list content closesAt =>
      match readTokens (fun g => Parser.commaSeparated (Read.path g false)) content closesAt with
      | .ok ((paths, _), _) => paths.any (namesDirective · "Builder")
      | .error _ => false
    | _ => false

/-- A directive that asks for a builder of the item it stands on. -/
def isOwnDirective (attr : Attribute) : Bool := isBuilder attr || derivesBuilder attr

/-- A string literal's value, and any other literal as it is written. -/
def literalText : Parser.Literal → String
  | .token text => if isStringLiteral text then Text.literalValue text else text
  | other => printed other.tokens

/-- The arguments of a directive for a type elsewhere, as far as they are given. -/
structure ExternalArguments where
  target : Option String
  suffix : Option String
  useConstructors : Bool

def externalEntry (g : Grammar) (given : ExternalArguments) (path : PathExpr) (position : Position) :
    Parser ExternalArguments := do
  if path.isName "target" then
    let target ← Read.entryValue (Read.path g false)
    pure { given with target := some target.text }
  else if path.isName "suffix" then
    let suffix ← Read.entryValue Parser.stringLiteral
    pure { given with suffix := some (Text.literalValue suffix) }
  else if path.isName "use_constructors" then
    pure { given with useConstructors := ← Read.entryValue Parser.booleanLiteral }
  else Parser.failAt position (.unknownEntry "builder_of argument" path.text)

/-- The directive for a type elsewhere that an attribute gives, or the problem with it. -/
def external (file : String) (visibility : Visibility) (attr : Attribute) : Except Diagnostic DirectiveKind :=
  match Read.attributeEntries (externalEntry (grammarFor attr.listed)) ⟨none, none, false⟩ attr with
  | (_, .error problem) => .error (reported file problem)
  | (⟨none, _, _⟩, .ok ()) =>
    .error (.error "builder_of requires `target = path::to::Type`" (locate file attr.position))
  | (⟨some target, suffix, useConstructors⟩, .ok ()) => .ok (.external target suffix useConstructors visibility)

/-! ## Modifiers -/

def modifierEntry (given : Modifiers) (path : PathExpr) (position : Position) : Parser Modifiers := do
  if path.isName "nullable_element" then pure { given with nullableElement := true }
  else if path.isName "mutable" then pure { given with mutable := true }
  else if path.isName "default" then
    let value ← Read.entryValue Parser.literal
    pure { given with default := some (literalText value) }
  else Parser.failAt position (.unknownEntry "builder modifier" path.text)

/-- The attribute carries modifiers of a field or parameter. -/
def isModifier (attr : Attribute) : Bool := attr.path.isName "builder"

/-- The modifiers in the attributes of a field or parameter, and what was wrong with them. -/
def modifiers (file : String) (attrs : List Attribute) : Modifiers × List Diagnostic :=
  (attrs.filter isModifier).foldl
    (fun (given, problems) attr =>
      match Read.attributeEntries modifierEntry given attr with
      | (given, .ok ()) => (given, problems)
      | (given, .error problem) => (given, problems ++ [reported file problem]))
    (.none, [])

end BuilderSynthesis.Scan
