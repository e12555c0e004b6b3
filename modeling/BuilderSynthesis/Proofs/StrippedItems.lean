/-
  BuilderSynthesis.Proofs.StrippedItems — items without modifiers.

  Tokens that differ in nothing but their places are printed alike (`printed_of_allMatch`), and items that
  are alike are written with such tokens (`FunctionItem.Alike.like_tokens`). A plain item stays plain
  without its modifiers (`isPlain_strippedStruct`, `isPlain_strippedFunction`), and of one that is like it
  nothing is left to take away (`strippedFunction_of_alike`).
-/

import BuilderSynthesis.Expansion.Stripped
import BuilderSynthesis.Proofs.BlockReading

namespace BuilderSynthesis

open Syntax Syntax.Parser

/-! ## Printing -/

namespace Syntax

mutual

theorem Token.print_of_agrees : ∀ {t u : Token}, t.Agrees u → u.Agrees t → t.print = u.print ∧ t.joins = u.joins
  | .ident .., .ident .., h, _ => ⟨congrArg String.toList h, rfl⟩
  | .punct _ joint _, .punct _ jointly _, h, h' => by
    obtain ⟨rfl, hj⟩ := h
    obtain rfl : joint = jointly := by
      have hback := h'.2
      cases joint <;> cases jointly <;> simp_all
    exact ⟨rfl, rfl⟩
  | .literal .., .literal .., h, _ => ⟨congrArg String.toList h, rfl⟩
  | .group delimiter content _ _, .group _ inner _ _, h, h' => by
    obtain ⟨rfl, hc⟩ := h
    have hprint := Token.printAll_of_agree hc h'.2
    refine ⟨?_, rfl⟩
    cases delimiter with
    | brace =>
      cases content with
      | nil =>
        obtain rfl := hc.of_nil
        rfl
      | cons t ts =>
        obtain ⟨u, us, rfl, -, -⟩ := hc.of_cons
        simp only [Token.print, hprint]
    | _ => simp only [Token.print, hprint]

theorem Token.printAll_of_agree : ∀ {ts us : List Token}, Token.AllAgree ts us → Token.AllAgree us ts →
    Token.printAll ts = Token.printAll us
  | [], [], _, _ => rfl
  | [t], [u], h, h' => (Token.print_of_agrees h.1 h'.1).1
  | t :: next :: ts, u :: other :: us, h, h' => by
    obtain ⟨hprint, hjoins⟩ := Token.print_of_agrees h.1 h'.1
    rw [Token.printAll, Token.printAll, hprint, hjoins, Token.printAll_of_agree h.2 h'.2]

end

/-- Only the places of tokens are not printed. -/
theorem printed_of_allMatch {ts us : List Token} (h : Token.AllMatch ts us) : printed ts = printed us :=
  congrArg String.ofList (Token.printAll_of_agree h.1 h.2)

/-! ## Items that are alike are written alike -/

theorem Attribute.Alike.like_tokens {a b : Attribute} (h : a.Alike Token.AllMatch b) : Token.AllMatch a.tokens b.tokens := by
  unfold tokens
  rw [h.placed]
  exact Token.Likeness.append (Token.Likeness.refl _) (Token.Placeless.group h.content)

theorem like_flatMap {α : Type} {tokens : α → List Token} {items others : List α}
    (h : List.Forall₂ (fun a b => Token.AllMatch (tokens a) (tokens b)) items others) :
    Token.AllMatch (items.flatMap tokens) (others.flatMap tokens) := by
  induction h with
  | nil => exact Token.Likeness.refl _
  | cons first rest ih => exact Token.Likeness.append first ih

theorem Attribute.like_tokensOfAll {attrs others : List Attribute} (h : List.Forall₂ (Attribute.Alike Token.AllMatch) attrs others) :
    Token.AllMatch (tokensOfAll attrs) (tokensOfAll others) := like_flatMap (h.imp fun _ _ h => h.like_tokens)

theorem VisibilityExpr.Alike.like_tokens {v w : VisibilityExpr} (h : v.Alike Token.AllMatch w) : Token.AllMatch v.tokens w.tokens := by
  cases v <;> cases w <;> first | exact h.elim | exact Token.Likeness.refl _ | exact h

theorem FunctionInput.Alike.like_tokens {i j : FunctionInput} (h : i.Alike Token.AllMatch j) : Token.AllMatch i.tokens j.tokens := by
  obtain ⟨attrs, written⟩ := h
  exact Token.Likeness.append (Token.Likeness.append (Token.Likeness.append (Attribute.like_tokensOfAll attrs) written)
    (Token.Likeness.refl _)) (Token.Likeness.refl _)

theorem like_commaBetween {ts us : List Token} (h : Token.AllMatch ts us) (ended : Bool) (second : List Token) :
    Token.AllMatch (commaBetween ts ended second) (commaBetween us ended second) := by
  have hempty : us.isEmpty = ts.isEmpty := by
    cases ts with
    | nil => rw [h.1.of_nil]
    | cons t rest =>
      obtain ⟨u, vs, rfl, -⟩ := h.1.of_cons
      rfl
  unfold commaBetween
  rw [hempty]
  split
  · exact h
  · split
    · exact Token.Likeness.append h (Token.Likeness.refl _)
    · exact Token.Likeness.append (Token.Likeness.append h (Token.Likeness.refl _)) (Token.Likeness.refl _)

theorem Signature.Alike.like_tokens {s s' : Signature} (h : s.Alike Token.AllMatch s') : Token.AllMatch s.tokens s'.tokens := by
  obtain ⟨-, -, qualifiers, name, generics, inputs, trailing, variadic, output, whereClause⟩ := h
  have hinputs : List.Forall₂ Token.AllMatch (s.inputs.map FunctionInput.tokens) (s'.inputs.map FunctionInput.tokens) :=
    List.forall₂_map_left_iff.mpr (List.forall₂_map_right_iff.mpr (inputs.imp fun _ _ h => h.like_tokens))
  have hbracket := like_commaBetween (like_commas hinputs s.trailing) s.trailing s.variadic
  unfold tokens
  rw [name, generics, trailing, variadic, output, whereClause]
  refine Token.Likeness.append (Token.Likeness.append (Token.Likeness.append (Token.Likeness.append qualifiers ?_) ?_) ?_) ?_
  · exact Token.Likeness.refl _
  · exact Token.Placeless.group hbracket
  · exact Token.Likeness.refl _
  · exact Token.Likeness.refl _

theorem FunctionItem.Alike.like_tokens {f f' : FunctionItem} (h : f.Alike Token.AllMatch f') : Token.AllMatch f.tokens f'.tokens := by
  rw [f.tokens_eq, f'.tokens_eq, h.isDefault]
  refine Token.Likeness.append (Attribute.like_tokensOfAll h.attributes) (Token.Likeness.append h.visibility.like_tokens ?_)
  refine Token.Likeness.append (Token.Likeness.refl _) (Token.Likeness.append h.signature.like_tokens ?_)
  exact Token.Placeless.group (Token.Likeness.append (Attribute.like_tokensOfAll h.innerAttributes) h.body)

end Syntax

/-! ## Items without modifiers -/

namespace Expansion

theorem mem_withoutModifiers {attrs : List Attribute} {a : Attribute} (h : a ∈ withoutModifiers attrs) :
    a ∈ attrs ∧ Scan.isModifier a = false := by
  obtain ⟨ha, hm⟩ := List.mem_filter.mp h
  exact ⟨ha, (Bool.not_eq_true' _).mp hm⟩

theorem isPlain_strippedField {f : Field} (h : f.IsPlain) : (strippedField f).IsPlain :=
  ⟨fun a ha => h.attributes a (mem_withoutModifiers ha).1, h.visibility, h.named, h.type⟩

theorem isPlain_strippedStruct {s : StructItem} (h : s.IsPlain) : (strippedStruct s).IsPlain := by
  obtain ⟨fields, trailing, hfields, hended, hplain⟩ := h.fields
  refine ⟨h.attributes, h.visibility, h.name, h.generics, h.whereClause, fields.map strippedField, trailing, ?_, ?_, ?_⟩
  · rw [strippedStruct, hfields]
    rfl
  · exact fun he => hended (List.map_eq_nil_iff.mp he)
  · exact List.forall_mem_map.mpr fun f hf => isPlain_strippedField (hplain f hf)

theorem isPlain_strippedInput {i : FunctionInput} (h : i.IsPlain) : (strippedInput i).IsPlain := by
  obtain ⟨plain, free, plainType, proper⟩ := h
  exact .typed (fun a ha => plain a (mem_withoutModifiers ha).1) free plainType proper

theorem isPlain_strippedFunction {f : FunctionItem} (h : f.IsPlain) : (strippedFunction f).IsPlain where
  attributes := h.attributes
  visibility := h.visibility
  signature :=
    { qualifiers := h.signature.qualifiers
      name := h.signature.name
      generics := h.signature.generics
      inputs := List.forall_mem_map.mpr fun i hi => isPlain_strippedInput (h.signature.inputs i hi)
      ended := fun he => h.signature.ended (List.map_eq_nil_iff.mp he)
      fixed := h.signature.fixed
      output := h.signature.output
      whereClause := h.signature.whereClause }
  innerAttributes := h.innerAttributes
  body := h.body

/-- Nothing is left to take away. -/
theorem withoutModifiers_of_alike {attrs others : List Attribute}
    (h : List.Forall₂ (Attribute.Alike Token.AllMatch) (withoutModifiers attrs) others) : ∀ a ∈ others, Scan.isModifier a = false := by
  have hnone : ∀ a ∈ withoutModifiers attrs, Scan.isModifier a = false := fun a ha => (mem_withoutModifiers ha).2
  generalize withoutModifiers attrs = stripped at h hnone
  induction h with
  | nil => exact nofun
  | @cons a b _ _ first rest ih =>
    obtain ⟨hfirst, hrest⟩ := List.forall_mem_cons.mp hnone
    refine List.forall_mem_cons.mpr ⟨?_, ih hrest⟩
    rw [Scan.isModifier, first.path]
    exact hfirst

theorem withoutModifiers_eq_self {attrs : List Attribute} (h : ∀ a ∈ attrs, Scan.isModifier a = false) : withoutModifiers attrs = attrs :=
  List.filter_eq_self.mpr fun a ha => (Bool.not_eq_true' _).mpr (h a ha)

theorem strippedInput_of_alike {i i' : FunctionInput} (h : (strippedInput i).Alike Token.AllMatch i') : strippedInput i' = i' := by
  cases i with
  | receiver => cases h
  | typed attributes pattern tokens type =>
    cases h with
    | typed attrs written => rw [strippedInput, withoutModifiers_eq_self (withoutModifiers_of_alike attrs)]

/-- A function without modifiers stays as it is. -/
theorem strippedFunction_of_alike {f f' : FunctionItem} (h : (strippedFunction f).Alike Token.AllMatch f') : strippedFunction f' = f' := by
  have hinputs : ∀ {inputs others : List FunctionInput},
      List.Forall₂ (FunctionInput.Alike Token.AllMatch) (inputs.map strippedInput) others → others.map strippedInput = others := by
    intro inputs others hall
    induction inputs generalizing others with
    | nil =>
      cases hall
      rfl
    | cons i rest ih =>
      cases hall with
      | cons first more => rw [List.map_cons, strippedInput_of_alike first, ih more]
  rw [strippedFunction, hinputs h.signature.inputs]

end Expansion

end BuilderSynthesis
