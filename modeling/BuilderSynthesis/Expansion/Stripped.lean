/-
  BuilderSynthesis.Expansion.Stripped — items without the modifiers that only a scan reads.

  Every attribute named `builder` on a field or a parameter is a modifier and is taken away; all
  else stays.
-/

import BuilderSynthesis.Scan.Marks

namespace BuilderSynthesis

namespace Expansion

open Syntax

def withoutModifiers (attrs : List Attribute) : List Attribute := attrs.filter (!Scan.isModifier ·)

def strippedField (f : Field) : Field := { f with attributes := withoutModifiers f.attributes }

def strippedStruct (s : StructItem) : StructItem := { s with fields := s.fields.map strippedField }

/-- A method's own value keeps its attributes. -/
def strippedInput : FunctionInput → FunctionInput
  | .receiver reference mutable tokens => .receiver reference mutable tokens
  | .typed attributes pattern patternTokens type => .typed (withoutModifiers attributes) pattern patternTokens type

def strippedFunction (f : FunctionItem) : FunctionItem :=
  { f with signature := { f.signature with inputs := f.signature.inputs.map strippedInput } }

end Expansion

end BuilderSynthesis
