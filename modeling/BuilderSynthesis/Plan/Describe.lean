/-
  BuilderSynthesis.Plan.Describe — the descriptor of a field with its modifiers applied.

  Modifiers are applied one after the other, the optional element first. One that does not fit the
  type is reported where the field stands and skipped.
-/

import BuilderSynthesis.Declaration.Basic
import BuilderSynthesis.Descriptor.Collection

namespace BuilderSynthesis

namespace Descriptor

/-- Applies an adjustment if it is asked for, and otherwise or if it fails keeps the descriptor. -/
def adjustIf (asked : Bool) (adjust : Descriptor → Except AdjustmentError Descriptor) (location : Location)
    (d : Descriptor) : Descriptor × List Diagnostic :=
  if asked then
    match adjust d with
    | .ok adjusted => (adjusted, [])
    | .error e => (d, [.error e.message location])
  else (d, [])

/-- The descriptor of a declared type with its modifiers, and what did not fit. -/
def describe (type : TypeRef) (modifiers : Modifiers) (location : Location) : Descriptor × List Diagnostic :=
  let (first, problems) := adjustIf modifiers.nullableElement withNullableElement location (canonical type)
  let (second, more) := adjustIf modifiers.mutable asMutableCollection location first
  (second, problems ++ more)

end Descriptor

end BuilderSynthesis
