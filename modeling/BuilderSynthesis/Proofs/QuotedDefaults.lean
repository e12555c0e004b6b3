/-
  BuilderSynthesis.Proofs.QuotedDefaults — defaults of fields that hold text.

  The default of a field that holds text need not be put between quotes. If it is not, and if it says
  neither that there is none nor, for an optional field, that it is some value, then the field starts with
  the text that was written, blanks around it aside: the default is a string literal of just this value,
  and nothing is reported (`field_starts_with_text`).
-/

import BuilderSynthesis.Plan.Request
import BuilderSynthesis.Proofs.QuotedText
import BuilderSynthesis.Proofs.Rereading

namespace BuilderSynthesis

open Syntax

namespace Syntax

/-- A literal is an expression by itself. -/
theorem onTokens_literal (g : Grammar) (text : String) (pos closesAt : Position) :
    (Parser.onTokens [.literal text pos] closesAt (Read.expression g true)).map Prod.fst =
      .ok (.atom [] .other [Token.text text]) := rfl

/-- So is the text of one. -/
theorem readExpression_of_isLiteral {text : String} (h : IsLiteral text) :
    readExpression text = .ok (.atom [] .other [Token.text text]) := by
  have hspells : Spells text.toList [Token.text text] :=
    List.append_nil text.toList ▸ Spells.literal h rfl .nil
  obtain ⟨us, htokens, hagree⟩ := tokensOf_of_spells hspells
  obtain ⟨u, rest, rfl, hu, hrest⟩ := hagree.of_cons
  obtain ⟨pos, rfl⟩ := hu.of_literal
  obtain rfl := Token.AllAgree.of_nil hrest
  rw [readExpression, readText, readChars, htokens]
  exact onTokens_literal _ text pos .start

/-- The text is a call of `Some`, which may be qualified, with one argument. -/
def IsCallOfSome (text : String) : Prop :=
  ∃ attributes own path tokens argument trailing,
    readExpression text = .ok (.call attributes (.atom own (.path path) tokens) [argument] trailing) ∧ path.last? = some "Some"

end Syntax

namespace Default

variable {value raw name : String} {descriptor : Descriptor} {location : Location}

theorem someArgument?_eq_none (h : ¬ IsCallOfSome value) : someArgument? value = none := by
  unfold someArgument?
  split
  · rename_i attributes own path tokens argument trailing hread
    refine if_neg fun hlast => h ?_
    exact ⟨attributes, own, path, tokens, argument, trailing, hread, beq_iff_eq.mp hlast⟩
  · rfl

/-- The text starts and ends with a double quote of its own each. -/
def StandsInQuotes (value : String) : Prop :=
  2 ≤ value.toList.length ∧ value.toList.head? = some '"' ∧ value.toList.getLast? = some '"'

instance (value : String) : Decidable (StandsInQuotes value) := inferInstanceAs (Decidable (_ ∧ _))

theorem isQuoted_iff : isQuoted value = true ↔ StandsInQuotes value := by
  unfold isQuoted StandsInQuotes
  split
  · rename_i rest hvalue
    rw [hvalue, List.head?_cons, beq_iff_eq]
    cases rest with
    | nil => simp
    | cons c rest => simp
  · rename_i hother
    refine iff_of_false Bool.false_ne_true ?_
    rintro ⟨-, hhead, -⟩
    obtain ⟨rest, hvalue⟩ := List.head?_eq_some_iff.mp hhead
    exact hother rest hvalue

/-- What is written for a text is the text between quotes. -/
theorem expression_eq_quoted (hs : descriptor.asNonNull.isStringLike = true) (hn : Text.trimBlank raw ≠ "None")
    (hq : ¬ StandsInQuotes (Text.trimBlank raw)) (hc : descriptor.nullable = true → ¬ IsCallOfSome (Text.trimBlank raw)) :
    expression raw descriptor name location = (some (Text.quoted (Text.trimBlank raw)), []) := by
  have hgiven : given descriptor (Text.trimBlank raw) = Text.trimBlank raw := by
    unfold given
    split
    · rename_i hnullable
      rw [someArgument?_eq_none (hc hnullable)]
      rfl
    · rfl
  have hspelled : spelled descriptor (Text.trimBlank raw) = Text.quoted (Text.trimBlank raw) := by
    have hunquoted : isQuoted (Text.trimBlank raw) = false := Bool.eq_false_iff.mpr fun h => hq (isQuoted_iff.mp h)
    rw [spelled, hs, hunquoted]
    rfl
  unfold expression
  simp only [beq_iff_eq, if_neg hn, hgiven, hspelled, readExpression_of_isLiteral (Text.isLiteral_quoted _)]

end Default

namespace Request

/-- A field without the default that was written for it. -/
def withoutDefault (f : Parameter) : Parameter := { f with modifiers := { f.modifiers with default := none } }

/-- A field that holds text starts with the text that is written as its default, if this neither stands in
quotes already nor is `None` or, for an optional field, a call of `Some`. The default is a string literal
with just this value, and nothing is reported for it. -/
theorem field_starts_with_text (r : Request) (c : Constructor) (f : Parameter) {raw : String}
    (hraw : f.modifiers.default = some raw) (hs : (r.field c f).1.descriptor.asNonNull.isStringLike = true)
    (hn : Text.trimBlank raw ≠ "None") (hq : ¬ Default.StandsInQuotes (Text.trimBlank raw))
    (hc : (r.field c f).1.descriptor.nullable = true → ¬ IsCallOfSome (Text.trimBlank raw)) :
    (r.field c f).2 = (r.field c (withoutDefault f)).2 ∧ ∃ text, (r.field c f).1.default = some text ∧
      readExpression text = .ok (.atom [] .other [Token.text text]) ∧ isStringLiteral text = true ∧
      Text.literalValue text = Text.trimBlank raw := by
  have hexpression : Default.expression raw (r.fieldDescriptor c f).1 f.name f.location = (some (Text.quoted (Text.trimBlank raw)), []) :=
    Default.expression_eq_quoted hs hn hq hc
  have hfield : r.field c f = (⟨f.name, (r.fieldDescriptor c f).1, some (Text.quoted (Text.trimBlank raw)),
      !(r.fieldDescriptor c f).1.nullable, (r.fieldCopy f (r.fieldDescriptor c f).1).1⟩,
      (r.fieldDescriptor c f).2 ++ [] ++ (r.fieldCopy f (r.fieldDescriptor c f).1).2) := by
    unfold field
    simp only [hraw, hexpression]
  rw [hfield]
  refine ⟨rfl, _, rfl, readExpression_of_isLiteral (Text.isLiteral_quoted _), ?_, Text.literalValue_quoted _⟩
  rw [isStringLiteral, Text.quoted, String.toList_ofList]
  rfl

/-- An optional text. Its default has quotes of its own, and a backslash. -/
def noteField : Parameter :=
  ⟨"note", .path "Option" [.path "String" []], ⟨false, false, some " \"hi\" \\o/ "⟩, ⟨"lib.rs", 2, 5⟩⟩

def noteConstructor : Constructor := ⟨.memberwise, [noteField], .everywhere, .crateRoot 0, ⟨"lib.rs", 1, 1⟩⟩

def noteRequest : Request where
  target := ⟨"Note", "Note", none, none⟩
  suffix := defaultSuffix
  visibility := .everywhere
  fields := [noteField]
  constructors := [noteConstructor]
  accessors := []
  entryPoint := true
  module := .crateRoot 0
  location := ⟨"lib.rs", 1, 1⟩

set_option maxRecDepth 100000 in
theorem field_starts_with_text_of_a_note :
    ∃ text, (noteRequest.field noteConstructor noteField).1.default = some text ∧
      readExpression text = .ok (.atom [] .other [Token.text text]) ∧ Text.literalValue text = "\"hi\" \\o/" := by
  have htrimmed : Text.trimBlank " \"hi\" \\o/ " = "\"hi\" \\o/" := by decide +kernel
  have hcall : ¬ IsCallOfSome "\"hi\" \\o/" := by
    rintro ⟨_, _, _, _, _, _, hread, -⟩
    have hfails : (readExpression "\"hi\" \\o/").toOption.isSome = false := by decide +kernel
    rw [hread] at hfails
    cases hfails
  obtain ⟨-, text, hd, hread, -, hvalue⟩ := field_starts_with_text noteRequest noteConstructor noteField rfl
    (by decide +kernel) (by decide +kernel) (by decide +kernel) fun _ => htrimmed.symm ▸ hcall
  exact ⟨text, hd, hread, hvalue.trans htrimmed⟩

end Request

end BuilderSynthesis
