/-
  BuilderSynthesis.Proofs.BuilderFunctions — the functions of builders are read.

  A function of a builder may take its own value and then parameters with plain types, and has a body
  that every deep grammar reads (`MethodExpr.IsPlain`). Among the items of a block it is read as a function
  that nothing is noted about (`makes_method`): its own attributes say nothing about builders and its
  parameters have none.
-/

import BuilderSynthesis.Proofs.BuilderStatements

namespace BuilderSynthesis.Syntax

open BuilderSynthesis.Syntax.Parser

/-! ## Taking the own value -/

/-- The own value of a function, by reference or not, and mutable or not. -/
def receiverTokens (reference mutable : Bool) : List Token :=
  (if reference then Token.symbol "&" else []) ++ ((if mutable then [Token.word "mut"] else []) ++ [Token.word "self"])

/-- No attribute stands before the parameter. -/
def FunctionInput.Unmarked : FunctionInput → Prop
  | .receiver .. => True
  | .typed attributes .. => attributes = []

namespace Read

variable {g : Grammar} {bound : Nat}

theorem exists_of_endsField {ts : List Token} (h : endsField ts = true) :
    ts = [] ∨ ∃ joint pos rest, ts = .punct ',' joint pos :: rest := by
  rcases Bool.or_eq_true_iff.mp h with h | h
  · refine Or.inr ?_
    cases ts with
    | nil => cases h
    | cons t rest =>
      cases t with
      | punct c joint pos =>
        by_cases hc : c = ','
        · exact ⟨joint, pos, rest, by rw [hc]⟩
        · have hmark : (Expected.mark ",").stands (.punct c joint pos :: rest) = false := by
            show (if c == ',' && ',' != '\'' then some rest else none).isSome = false
            rw [beq_eq_false_iff_ne.mpr hc]
            rfl
          rw [hmark] at h
          cases h
      | _ => cases h
  · exact Or.inl (List.isEmpty_iff.mp h)

theorem exists_of_receiver {reference mutable : Bool} {us : List Token} (hu : Token.AllAgree (receiverTokens reference mutable) us) :
    ∃ joint amp word selfAt, us = (if reference then [.punct '&' joint amp] else []) ++
      ((if mutable then [.ident "mut" word] else []) ++ [.ident "self" selfAt]) := by
  obtain ⟨vs, ws, rfl, hv, hw⟩ := hu.of_append
  obtain ⟨xs, ys, rfl, hx, hy⟩ := hw.of_append
  obtain ⟨selfAt, rfl⟩ := exists_of_word hy
  have hmut : ∃ pos, xs = if mutable then [.ident "mut" pos] else [] := by
    cases mutable with
    | true => exact exists_of_word hx
    | false => exact ⟨.start, hx.of_nil⟩
  obtain ⟨word, rfl⟩ := hmut
  have hamp : ∃ joint pos, vs = if reference then [.punct '&' joint pos] else [] := by
    cases reference with
    | true => exact Token.AllAgree.of_symbol_alone hv '&' rfl
    | false => exact ⟨true, .start, hv.of_nil⟩
  obtain ⟨joint, amp, rfl⟩ := hamp
  exact ⟨joint, amp, word, selfAt, rfl⟩

/-- The own value of a function is read as it. -/
theorem makes_receiver (reference mutable : Bool) :
    Makes Token.AllMatch (functionInput g) (receiverTokens reference mutable) endsField fun read =>
      ∃ tokens selfAt, read = .receiver (.receiver reference mutable tokens) selfAt := by
  intro us more s hu hm hs
  obtain ⟨_, closesAt, within, leftover, written⟩ := s
  obtain rfl := hs
  obtain ⟨joint, amp, word, selfAt, rfl⟩ := exists_of_receiver hu.1
  -- What follows is nothing or a comma, so each of the forms is read by computation.
  rcases exists_of_endsField hm with rfl | ⟨joint, comma, rest, rfl⟩ <;> cases reference <;> cases mutable <;>
    exact ⟨_, _, ⟨_, _, rfl⟩, rfl⟩

end Read

/-! ## Functions -/

/-- A function of a builder, as it is written. -/
structure MethodExpr where
  attributes : List Attribute
  visibility : VisibilityExpr
  name : String
  /-- How it takes its own value, if it does: by reference, and mutably. -/
  own : Option (Bool × Bool)
  inputs : List FunctionInput
  output : TypeExpr
  body : List Token

namespace MethodExpr

def parameters (m : MethodExpr) : List Token :=
  let inputs := commas false (m.inputs.map FunctionInput.tokens)
  match m.own with
  | some (reference, mutable) =>
    receiverTokens reference mutable ++ (if m.inputs.isEmpty then [] else Token.symbol "," ++ inputs)
  | none => inputs

/-- The function from its name on. -/
def core (m : MethodExpr) : List Token :=
  Token.word m.name :: .enclosed .parenthesis m.parameters :: (Signature.returned (some m.output) ++ [.enclosed .brace m.body])

def tokens (m : MethodExpr) : List Token :=
  Attribute.tokensOfAll m.attributes ++ (m.visibility.tokens ++ Token.word "fn" :: m.core)

structure IsPlain (m : MethodExpr) : Prop where
  attributes : ∀ a ∈ m.attributes, a.IsPlain false
  visibility : m.visibility.Proper
  name : isReserved m.name = false
  inputs : ∀ i ∈ m.inputs, i.IsPlain ∧ i.Unmarked
  output : m.output.isPlain = true ∧ m.output.Proper
  body : IsBody m.body
  apart : Read.KeepsApart m.body

end MethodExpr

/-- Nothing is noted about the function: its attributes are like the given ones, and its parameters have none. -/
structure FunctionItem.IsQuiet (attributes : List Attribute) (f : FunctionItem) : Prop where
  attributes : List.Forall₂ (Attribute.Alike Token.AllMatch) attributes f.attributes
  inner : f.innerAttributes = []
  inputs : ∀ i ∈ f.signature.inputs, i.Unmarked

namespace Read

variable {g : Grammar} {bound : Nat}

theorem unmarked_of_alike {inputs others : List FunctionInput} (h : ∀ i ∈ inputs, i.Unmarked)
    (halike : List.Forall₂ (FunctionInput.Alike Token.AllMatch) inputs others) : ∀ i ∈ others, i.Unmarked := by
  induction halike with
  | nil => nofun
  | cons first rest ih =>
    refine List.forall_mem_cons.mpr ⟨?_, ih fun i hi => h i (List.mem_cons_of_mem _ hi)⟩
    obtain ⟨attrs, -⟩ := first
    have hnone := h _ List.mem_cons_self
    obtain rfl : _ = [] := hnone
    cases attrs
    rfl

/-- The own value of a function, with the comma after it or at the end. -/
theorem makes_receiverStep (reference mutable comma : Bool) :
    Makes Token.AllMatch (inputsStep g ⟨[], false, [], false⟩)
      (receiverTokens reference mutable ++ if comma then Token.symbol "," else []) (fun more => comma || more.isEmpty) fun turn =>
      ∃ tokens, turn = if comma then .again ⟨[.receiver reference mutable tokens], true, [], true⟩
        else .done ⟨[.receiver reference mutable tokens], false, [], true⟩ := by
  have hends : ∀ {us more : List Token}, Token.AllMatch (if comma then Token.symbol "," else []) us → (comma || more.isEmpty) = true →
      endsField (us ++ more) = true ∧ (us ++ more).isEmpty = !comma := by
    intro us more hu hm
    cases comma with
    | true =>
      obtain ⟨joint, pos, rfl⟩ := Token.AllAgree.of_symbol_alone (hu.1 : Token.AllAgree (Token.symbol ",") _) ',' rfl
      exact ⟨rfl, rfl⟩
    | false =>
      rw [eq_nil_of_like hu, List.isEmpty_iff.mp hm]
      exact ⟨rfl, rfl⟩
  refine reads_atEnd false (fun {us more} hu _ => ?_) ?_
  · obtain ⟨vs, ws, rfl, hv, -⟩ := Token.Likeness.of_append hu
    obtain ⟨joint, amp, word, selfAt, rfl⟩ := exists_of_receiver hv.1
    cases reference <;> cases mutable <;> rfl
  refine Makes.bind (makes_receiver reference mutable) (fun parameter hparameter => ?_) fun hu hm => (hends hu hm).1
  obtain ⟨tokens, selfAt, rfl⟩ := hparameter
  refine reads_atEnd (!comma) (fun hu hm => (hends hu hm).2) ?_
  cases comma with
  | true => exact Makes.bind_nil (copies_mark "," (by decide)).makes fun _ _ => reads_pure ⟨tokens, rfl⟩
  | false => exact reads_pure ⟨tokens, rfl⟩

/-- The parameters of a function of a builder. -/
theorem makes_parameters (hg : RereadsBounds g bound) (hp : RereadsPatterns g) {m : MethodExpr} (h : ∀ i ∈ m.inputs, i.IsPlain ∧ i.Unmarked)
    (hsize : Token.sizes m.parameters < bound) :
    Makes Token.AllMatch (functionInputs g) m.parameters List.isEmpty fun read => ∀ i ∈ read.inputs, i.Unmarked := by
  have hplain : ∀ i ∈ m.inputs, i.IsPlain := fun i hi => (h i hi).1
  have hunmarked : ∀ i ∈ m.inputs, i.Unmarked := fun i hi => (h i hi).2
  unfold MethodExpr.parameters at hsize ⊢
  cases hown : m.own with
  | none =>
    rw [hown] at hsize
    exact (makes_functionInputs hg hp hplain (fun _ => rfl) hsize).imp fun hread => unmarked_of_alike hunmarked hread.1
  | some own =>
    obtain ⟨reference, mutable⟩ := own
    rw [hown] at hsize
    dsimp only at hsize ⊢
    refine Reads.loop fun n hn => ?_
    obtain ⟨n, rfl⟩ : ∃ k, n = k + 1 := ⟨n - 1, by omega⟩
    cases hinputs : m.inputs.isEmpty with
    | true =>
      refine Makes.bind_nil (makes_receiverStep reference mutable false) fun turn ht => ?_
      obtain ⟨tokens, rfl⟩ := ht
      exact reads_pure (List.forall_mem_singleton.mpr trivial)
    | false =>
      rw [hinputs] at hsize hn
      simp only [Bool.false_eq_true, if_false, sizes_append] at hsize hn ⊢
      rw [← List.append_assoc]
      have hstep : Makes Token.AllMatch (inputsStep g ⟨[], false, [], false⟩) (receiverTokens reference mutable ++ Token.symbol ",")
          (fun _ => true) _ := makes_receiverStep reference mutable true
      refine Makes.bind hstep (fun turn ht => ?_) fun _ _ => rfl
      obtain ⟨tokens, rfl⟩ := ht
      refine (makes_turnsOfInputs hg hp hplain (by omega) _ n ?_).imp ?_
      · rw [List.length_append, List.length_append, show (Token.symbol ",").length = 1 from rfl] at hn
        omega
      · rintro found - ⟨others, rfl, hothers⟩
        exact List.forall_mem_cons.mpr ⟨trivial, unmarked_of_alike hunmarked hothers⟩

theorem generics_empty_isPlain : Generics.empty.IsPlain := ⟨nofun, rfl, fun _ => rfl⟩

/-- What is before the body of a function of a builder. -/
theorem makes_methodSignature (hg : RereadsBounds g bound) (hp : RereadsPatterns g) {m : MethodExpr} (h : m.IsPlain)
    (hsize : Token.sizes m.core < bound) :
    Makes Token.AllMatch (signature g) (Token.word "fn" :: Token.word m.name :: .enclosed .parenthesis m.parameters ::
      Signature.returned (some m.output)) endsSignature fun s => ∀ i ∈ s.inputs, i.Unmarked := by
  simp only [MethodExpr.core, Token.sizes, sizes_append, Token.enclosed, Token.size] at hsize
  have hread : Makes Token.AllMatch (signatureAs g false) ([] ++ Token.word "fn" :: Token.word m.name ::
      .enclosed .parenthesis m.parameters :: Signature.returned (some m.output)) endsSignature
      fun read => ∀ i ∈ read.1.inputs, i.Unmarked := by
    refine Makes.keep (copies_qualifiers (q := ⟨false, false, false, none⟩) fun _ h => absurd h (Option.not_mem_none _)) (fun read written hread _ => ?_) fun hu _ => ?_
    rotate_left
    · obtain ⟨pos, vs, rfl, -⟩ := Token.AllMatch.of_ident hu
      rfl
    subst hread
    refine Takes.bind (takes_word : Takes _ _ [Token.word "fn"] (fun _ => true) _) ?_ fun _ _ => rfl
    refine reads_ignored (fun s => ⟨_, rfl⟩) fun nameAt => ?_
    refine Takes.bind (takes_identifier h.name : Takes _ _ [Token.word m.name] (fun _ => true) _) ?_ fun _ _ => rfl
    have hgenerics : Takes Token.AllMatch (generics g) [] endsGenerics .empty :=
      Reads.of_agree (takes_generics hg generics_empty_isPlain (show 0 < bound by omega))
    refine Takes.bind hgenerics ?_ fun hu _ => ?_
    rotate_left
    · obtain ⟨v, vs, rfl, hv, -⟩ := Token.AllAgree.of_cons hu.1
      obtain ⟨inner, opens, closes, rfl, -⟩ := hv.of_group
      rfl
    refine Makes.bind (Makes.inside (makes_parameters hg hp h.inputs (by omega)) : Makes _ _ [_] (fun _ => true) _)
      (fun read hinputs => ?_) fun _ _ => rfl
    have hbrace : ∀ {more : List Token}, endsSignature more = true →
        (endsType more && !(Expected.mark "->").stands more) = true ∧ endsClause more = true := by
      intro more hm
      obtain ⟨content, opensAt, closesAt, rest, rfl⟩ := exists_of_endsSignature hm
      exact ⟨rfl, rfl⟩
    have houtput : ∀ type ∈ some m.output, type.isPlain = true ∧ type.Proper := fun type ht => by
      obtain rfl := Option.mem_some.mp ht
      exact h.output
    refine Takes.bind_nil ((takes_returnType hg houtput (by omega)).mono fun more hm => (hbrace hm).1) ?_
    have hclause : Takes Token.AllMatch (whereClause? g) [] endsSignature none :=
      (takes_whereClause? hg (fun _ h => absurd h (Option.not_mem_none _)) (show 0 < bound by omega)).mono fun more hm => (hbrace hm).2
    exact Takes.bind_nil hclause (reads_pure hinputs)
  exact Makes.bind_nil hread fun read hinputs => reads_pure hinputs

/-- The body of a function of a builder. -/
theorem makes_methodBody {body : List Token} (h : IsBody body) (hapart : KeepsApart body) {depth : Nat} (hsize : Token.sizes body ≤ depth)
    {next : List Token → Bool} :
    Makes Token.AllMatch (functionBody (grammar (depth + 3))) [.enclosed .brace body] next fun read => read.1 = [] := by
  have hinner : Copies Token.AllMatch (innerAttributes (grammar (depth + 3))) (Attribute.tokensOfAll []) endsInnerAttributes
      (List.Forall₂ (Attribute.Alike Token.AllMatch) []) := copies_innerAttributes nofun
  refine Makes.inside (Makes.nil_bind hinner.makes (fun inner hnone => ?_) fun hu hm => ?_)
  · cases hnone
    have hstatements : Makes Token.AllMatch (captured (grammar (depth + 3)).statements) body List.isEmpty fun _ => True :=
      (Reads.captured (h depth hsize)).imp fun _ => trivial
    exact Makes.bind_nil hstatements fun read _ => makes_writing (reads_pure rfl)
  · rw [List.isEmpty_iff.mp hm, List.append_nil]
    exact hapart hu

/-- A function of a builder is read among the items of a block as one that nothing is noted about. -/
theorem makes_method {m : MethodExpr} (h : m.IsPlain) {depth : Nat} (hsize : Token.sizes m.tokens < depth) {next : List Token → Bool} :
    Makes Token.AllMatch (blockItem (grammar (depth + 3))) m.tokens next fun read => ∃ f, read = some f ∧ f.IsQuiet m.attributes := by
  have hr := rereadsFunctions_grammar depth
  simp only [MethodExpr.tokens, Token.sizes, sizes_append] at hsize
  have hbody : Token.sizes m.body ≤ depth := by
    simp only [MethodExpr.core, Token.sizes, sizes_append, Token.enclosed, Token.size] at hsize
    omega
  refine Reads.imp (Reads.orAsItStands (?_ : Makes _ _ _ _ fun read => ∃ f, read.1 = some f ∧ f.IsQuiet m.attributes))
    fun hread => ?_
  rotate_left
  · obtain ⟨_, _, hfound⟩ := hread
    exact hfound
  refine makes_visible h.attributes h.visibility (by decide) fun attrs' v' hattrs' hv' => ?_
  refine reads_idle false (fun {us more s} hu _ hs => ?_) (reads_idle true (fun {us more s} hu _ hs => ?_) ?_)
  · obtain ⟨pos, vs, rfl, -⟩ := Token.AllMatch.of_ident hu
    obtain ⟨_, closesAt, within, leftover, written⟩ := s
    obtain rfl := hs
    rfl
  · obtain ⟨pos, vs, rfl, -⟩ := Token.AllMatch.of_ident hu
    obtain ⟨_, closesAt, within, leftover, written⟩ := s
    obtain rfl := hs
    rfl
  have hsplit : Token.word "fn" :: m.core = (Token.word "fn" :: Token.word m.name :: .enclosed .parenthesis m.parameters ::
      Signature.returned (some m.output)) ++ [.enclosed .brace m.body] := rfl
  rw [hsplit]
  have hbrace : ∀ {us more : List Token}, Token.AllMatch [.enclosed .brace m.body] us →
      endsSignature (us ++ more) = true ∧ (Expected.mark ";").stands (us ++ more) = false := by
    intro us more hu
    obtain ⟨inner, opens, closes, rfl, -⟩ := exists_of_group hu
    exact ⟨rfl, rfl⟩
  refine Makes.bind (makes_methodSignature hr.bounds hr.patterns h (by omega)) (fun s hs => ?_) fun hu _ => (hbrace hu).1
  refine reads_unmarked (fun hu _ => (hbrace hu).2) ?_
  have hafter : Makes Token.AllMatch (functionAfter (grammar (depth + 3)) attrs' v' false s) [.enclosed .brace m.body] next
      fun f => f.IsQuiet m.attributes :=
    Makes.bind_nil (makes_methodBody h.body h.apart hbody) fun read hread => reads_pure ⟨hattrs', hread, hs⟩
  exact Makes.bind_nil hafter fun f hf => reads_pure ⟨f, rfl, hf⟩

end Read

theorem MethodExpr.tokens_ne_nil (m : MethodExpr) : m.tokens ≠ [] := by simp [MethodExpr.tokens]

namespace Read

/-- The functions of a builder are read one after the other. -/
theorem makes_methods {methods : List MethodExpr} (h : ∀ m ∈ methods, m.IsPlain) {depth : Nat}
    (hsize : Token.sizes (methods.flatMap MethodExpr.tokens) < depth) :
    Makes Token.AllMatch (untilEnd (blockItem (grammar (depth + 3)))) (methods.flatMap MethodExpr.tokens) List.isEmpty fun read =>
      List.Forall₂ (fun m f => f.IsQuiet m.attributes) methods (read.filterMap id) := by
  refine (makes_untilEnd (fun m hm => makes_method (h m hm) ?_) fun m _ => m.tokens_ne_nil).imp fun hread => ?_
  · have hle := sizes_le_flatMap MethodExpr.tokens hm
    omega
  · clear h hsize
    induction hread with
    | nil => exact .nil
    | cons first rest ih =>
      obtain ⟨f, rfl, hf⟩ := first
      exact .cons hf ih

theorem keepsApart_methods {methods : List MethodExpr} (h : ∀ m ∈ methods, m.IsPlain) : KeepsApart (methods.flatMap MethodExpr.tokens) := by
  intro us hu
  cases methods with
  | nil =>
    rw [eq_nil_of_like hu]
    rfl
  | cons first others =>
    have hfirst := h first List.mem_cons_self
    rw [List.flatMap_cons] at hu
    obtain ⟨vs, ws, rfl, hv, -⟩ := Token.Likeness.of_append hu
    exact endsInnerAttributes_of_visible hfirst.attributes hfirst.visibility hv.1

/-- A block of functions of a builder is read as a block of functions that nothing is noted about. -/
theorem makes_methodBlock {attributes : List Attribute} (hattributes : ∀ a ∈ attributes, a.IsPlain false) {header : BlockHeader}
    (h : header.IsPlain) {methods : List MethodExpr} (hmethods : ∀ m ∈ methods, m.IsPlain) {depth : Nat}
    (hsize : Token.sizes (header.around (methods.flatMap MethodExpr.tokens)) < depth) {next : List Token → Bool} :
    Makes Token.AllMatch (item (grammar (depth + 3)))
      (Attribute.tokensOfAll attributes ++ header.around (methods.flatMap MethodExpr.tokens)) next fun read =>
        ∃ attributes' functions, List.Forall₂ (Attribute.Alike Token.AllMatch) attributes attributes' ∧
          List.Forall₂ (fun m f => f.IsQuiet m.attributes) methods functions ∧
          read = .functions attributes' header.ofTrait.isSome (.path header.subject) functions := by
  have hbody : Token.sizes (methods.flatMap MethodExpr.tokens) < depth := by
    simp only [BlockHeader.around, Token.sizes, sizes_append, Token.enclosed, Token.size] at hsize
    omega
  refine (makes_functionsOf (rereadsFunctions_grammar depth).bounds hattributes h (makes_methods hmethods hbody)
    (keepsApart_methods hmethods) hsize).imp ?_
  rintro read - ⟨attributes', functions, hattributes', hfunctions, rfl⟩
  exact ⟨attributes', _, hattributes', hfunctions, rfl⟩

end Read

end BuilderSynthesis.Syntax
