/-
  BuilderSynthesis.Plan.Default — the value that a field starts with.

  A default is written as the value of an attribute. For a field that holds text it may leave the
  quotes out; for an optional field it may be wrapped in `Some` or not, and `None` is no default.
-/

import BuilderSynthesis.Descriptor.Basic
import BuilderSynthesis.Declaration.Basic
import BuilderSynthesis.Syntax.Text

namespace BuilderSynthesis.Default

open Syntax

/-- A text between double quotes. -/
def isQuoted (value : String) : Bool :=
  match value.toList with
  | '"' :: rest => rest.getLast? == some '"'
  | _ => false

/-- The argument of a call of `Some`, which may be qualified. -/
def someArgument? (value : String) : Option String :=
  match readExpression value with
  | .ok (.call _ (.atom _ (.path path) _) [argument] _) => if path.last? == some "Some" then some (printed argument) else none
  | _ => none

/-- The value that is given, for an optional field without `Some` around it. -/
def given (descriptor : Descriptor) (value : String) : String :=
  if descriptor.nullable then (someArgument? value).getD value else value

/-- The value as an expression of the field's type. -/
def spelled (descriptor : Descriptor) (value : String) : String :=
  if descriptor.asNonNull.isStringLike && !isQuoted value then Text.quoted value else value

/-- The default of a field, or what is wrong with it. -/
def expression (raw : String) (descriptor : Descriptor) (name : String) (location : Location) :
    Option String × List Diagnostic :=
  let trimmed := Text.trimBlank raw
  if trimmed == "None" then (none, [])
  else
    let value := given descriptor trimmed
    let text := spelled descriptor value
    match readExpression text with
    | .ok _ => (some text, [])
    | .error problem =>
      (none, [.error ("default value `" ++ value ++ "` of `" ++ name ++ "` is not a Rust expression: " ++
        problem.message) location])

end BuilderSynthesis.Default
