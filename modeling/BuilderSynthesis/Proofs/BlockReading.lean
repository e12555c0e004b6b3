/-
  BuilderSynthesis.Proofs.BlockReading — functions, blocks of functions and files are read again.

  A plain function has a plain signature and a plain body. It is read again as one that is alike wherever
  one may stand: as an item (`makes_function`), alone in a block (`makes_blockFunction`) and among the
  items of a block (`makes_blockItem`). So is a block of such functions behind a plain header
  (`makes_functions`), and a file whose items are each read again (`makes_file`).
-/

import BuilderSynthesis.Proofs.SignatureReading
import BuilderSynthesis.Proofs.StatementReading

namespace BuilderSynthesis.Syntax

open BuilderSynthesis.Syntax.Parser

/-! ## Grammars that read functions -/

namespace Read

theorem RereadsBounds.mono {g : Grammar} {bound n : Nat} (h : RereadsBounds g bound) (hn : n ≤ bound) : RereadsBounds g n where
  types allowPlus t hplain hproper hsize := h.types allowPlus t hplain hproper (by omega)
  bounds b hb hsize := h.bounds b hb (by omega)

/-- What a grammar has to read again so that plain functions are read again. -/
structure RereadsFunctions (g : Grammar) (bound : Nat) : Prop where
  bounds : RereadsBounds g bound
  patterns : RereadsPatterns g
  bodies : RereadsBodies Token.AllMatch g bound

end Read

theorem rereadsFunctions_grammar (depth : Nat) : Read.RereadsFunctions (grammar (depth + 3)) depth where
  bounds := (rereadsBounds_grammar (depth + 1)).mono (Nat.le_succ _)
  patterns := Read.rereadsPatterns_layer _
  bodies := rereadsBodies_grammar depth

/-! ## Functions with bodies -/

structure FunctionItem.IsPlain (f : FunctionItem) : Prop where
  attributes : ∀ a ∈ f.attributes, a.IsPlain false
  visibility : f.visibility.Proper
  signature : f.signature.IsPlain
  innerAttributes : ∀ a ∈ f.innerAttributes, a.IsPlain true
  body : IsPlainBody f.body

/-- The functions have signatures that are alike, and are written alike. -/
structure FunctionItem.Alike (like : List Token → List Token → Prop) (f f' : FunctionItem) : Prop where
  attributes : List.Forall₂ (Attribute.Alike like) f.attributes f'.attributes
  visibility : f.visibility.Alike like f'.visibility
  isDefault : f'.isDefault = f.isDefault
  signature : f.signature.Alike like f'.signature
  innerAttributes : List.Forall₂ (Attribute.Alike like) f.innerAttributes f'.innerAttributes
  body : like f.body f'.body

namespace FunctionItem

/-- What is in the braces of a function. -/
def block (f : FunctionItem) : List Token := Attribute.tokensOfAll f.innerAttributes ++ f.body

theorem tokens_eq (f : FunctionItem) :
    f.tokens = Attribute.tokensOfAll f.attributes ++ (f.visibility.tokens ++ (Qualifiers.wordIf "default" f.isDefault ++
      (f.signature.tokens ++ [.enclosed .brace f.block]))) := by
  unfold tokens block
  simp only [List.append_assoc]
  rfl

theorem tokens_ne_nil (f : FunctionItem) : f.tokens ≠ [] := by
  rw [f.tokens_eq]
  simp

end FunctionItem

/-- The words that a signature may start with. -/
def signatureWords : List String := ["const", "async", "unsafe", "extern", "fn"]

theorem Signature.IsPlain.exists_word {s : Signature} (h : s.IsPlain) : ∃ name ∈ signatureWords, ∃ ts, s.tokens = Token.word name :: ts := by
  obtain ⟨q, -, hqualifiers, -⟩ := h.qualifiers
  rw [h.tokens_eq, hqualifiers]
  obtain ⟨isConst, isAsync, isUnsafe, convention⟩ := q
  unfold Qualifiers.tokens
  cases isConst with
  | true => exact ⟨"const", by decide, _, rfl⟩
  | false =>
    cases isAsync with
    | true => exact ⟨"async", by decide, _, rfl⟩
    | false =>
      cases isUnsafe with
      | true => exact ⟨"unsafe", by decide, _, rfl⟩
      | false =>
        cases convention with
        | none => exact ⟨"fn", by decide, _, rfl⟩
        | some name => exact ⟨"extern", by decide, _, rfl⟩

theorem IsPlainBody.opens {body : List Token} (h : IsPlainBody body) {us : List Token} (hu : Token.AllAgree body us) :
    us = [] ∨ ∃ t rest, us = t :: rest ∧ opensOperand t = true := by
  cases h with
  | nil => exact Or.inl hu.of_nil
  | value plain => exact Or.inr (Read.exists_of_plainExpression plain hu)
  | statement plain others =>
    obtain ⟨vs, ws, rfl, hv, -⟩ := hu.of_append
    obtain ⟨t, rest, rfl, ht⟩ := Read.exists_of_plainExpression plain hv
    exact Or.inr ⟨t, rest ++ ws, rfl, ht⟩

namespace Read

variable {g : Grammar} {bound : Nat}

theorem makes_functionBody (hr : RereadsFunctions g bound) {f : FunctionItem} (h : f.IsPlain)
    (hsize : Token.sizes f.block < bound) {next : List Token → Bool} :
    Makes Token.AllMatch (functionBody g) [.enclosed .brace f.block] next fun read =>
      List.Forall₂ (Attribute.Alike Token.AllMatch) f.innerAttributes read.1 ∧ Token.AllMatch f.body read.2 := by
  rw [FunctionItem.block, sizes_append] at hsize
  refine Makes.inside (Makes.bind (copies_innerAttributes h.innerAttributes).makes (fun inner hinner => ?_) fun hu hm => ?_)
  · have hbody : Copies Token.AllMatch (captured g.statements >>= fun read => write read.2 >>= fun _ => pure (inner, read.2)) f.body
        List.isEmpty fun read =>
          List.Forall₂ (Attribute.Alike Token.AllMatch) f.innerAttributes read.1 ∧ Token.AllMatch f.body read.2 :=
      Copies.keep_nil (hr.bodies f.body h.body (by omega)) fun _ _ _ hws => reads_pure ⟨⟨hinner, hws⟩, Token.Likeness.refl _⟩
    exact hbody.makes
  · rcases h.body.opens hu.1 with rfl | ⟨t, rest, rfl, ht⟩
    · rw [List.isEmpty_iff.mp hm]
      rfl
    · rw [endsInnerAttributes, List.cons_append, not_stands_of_opensOperand (e := .mark "#") ht rfl]
      rfl

/-- A function after its attributes, its visibility and its signature. -/
theorem makes_functionAfter (hr : RereadsFunctions g bound) {f : FunctionItem} (h : f.IsPlain)
    (hsize : Token.sizes f.block < bound) {attributes : List Attribute} {v : VisibilityExpr} {signature : Signature}
    (hattributes : List.Forall₂ (Attribute.Alike Token.AllMatch) f.attributes attributes) (hv : f.visibility.Alike Token.AllMatch v)
    (hsignature : f.signature.Alike Token.AllMatch signature) {next : List Token → Bool} :
    Makes Token.AllMatch (functionAfter g attributes v f.isDefault signature) [.enclosed .brace f.block] next (f.Alike Token.AllMatch) :=
  Makes.bind_nil (makes_functionBody hr h hsize) fun _ hread =>
    reads_pure ⟨hattributes, hv, rfl, hsignature, hread.1, hread.2⟩

theorem not_stands_of_signatureWords {name word : String} (h : name ∈ signatureWords) (hword : word ∉ signatureWords) {pos : Position}
    {rest : List Token} : (Expected.word word).stands (.ident name pos :: rest) = false := by
  refine beq_eq_false_iff_ne.mpr ?_
  rintro rfl
  exact hword h

/-- A function with its signature, as it is read where one starts. -/
theorem makes_functionWith (hr : RereadsFunctions g bound)
    {f : FunctionItem} (h : f.IsPlain) (hsize : Token.sizes f.tokens < bound) {attributes : List Attribute} {v : VisibilityExpr}
    (hattributes : List.Forall₂ (Attribute.Alike Token.AllMatch) f.attributes attributes) (hv : f.visibility.Alike Token.AllMatch v)
    {α : Type} {p : Signature → Parser α} {holds : α → Prop} {next : List Token → Bool}
    (hafter : ∀ signature, f.signature.Alike Token.AllMatch signature →
      Makes Token.AllMatch (functionAfter g attributes v f.isDefault signature) [.enclosed .brace f.block] next (f.Alike Token.AllMatch) →
      Makes Token.AllMatch (p signature) [.enclosed .brace f.block] next holds) :
    Makes Token.AllMatch (signature g >>= p) (f.signature.tokens ++ [.enclosed .brace f.block]) next holds := by
  rw [f.tokens_eq] at hsize
  simp only [sizes_append, Token.sizes, Token.enclosed, Token.size] at hsize
  refine Makes.bind (makes_signature hr.bounds hr.patterns h.signature (by omega)) (fun signature hsignature => ?_) fun hu _ => ?_
  · exact hafter signature hsignature (makes_functionAfter hr h (by omega) hattributes hv hsignature)
  · obtain ⟨inner, opens, closes, rfl, -⟩ := exists_of_group hu
    rfl

/-- A plain function is read again as an item of a module. -/
theorem makes_function (hr : RereadsFunctions g bound)
    {f : FunctionItem} (h : f.IsPlain) (hdefault : f.isDefault = false) (hsize : Token.sizes f.tokens < bound) {next : List Token → Bool} :
    Makes Token.AllMatch (item g) f.tokens next fun read => ∃ f', read = .function f' ∧ f.Alike Token.AllMatch f' := by
  obtain ⟨name, hname, ts, hts⟩ := h.signature.exists_word
  have htokens : f.tokens = Attribute.tokensOfAll f.attributes ++ (f.visibility.tokens ++
      Token.word name :: (ts ++ [.enclosed .brace f.block])) := by
    rw [f.tokens_eq, hdefault, hts]
    rfl
  rw [htokens]
  refine makes_item h.attributes h.visibility (ne_of_mem_of_not_mem hname (by decide)) fun attrs' v' start hattrs' hv' => ?_
  rw [← List.cons_append, ← hts]
  refine reads_idle true (fun hu _ hs => ?_) ?_
  · obtain ⟨vs, ws, rfl, hv, -⟩ := Token.Likeness.of_append hu
    rw [List.append_assoc] at hs
    exact run_startsSignature h.signature hv hs
  rw [if_pos rfl]
  refine makes_functionWith hr h hsize hattrs' hv' fun signature hsignature hafter => ?_
  rw [hdefault] at hafter
  refine reads_unmarked (fun hu _ => ?_) ?_
  · obtain ⟨inner, opens, closes, rfl, -⟩ := exists_of_group hu
    rfl
  exact Makes.bind_nil hafter fun f' hf' => reads_pure ⟨f', rfl, hf'⟩

theorem exists_of_signature {s : Signature} (h : s.IsPlain) {ts us : List Token} (hu : Token.AllAgree (s.tokens ++ ts) us) :
    ∃ name ∈ signatureWords, ∃ pos rest, us = .ident name pos :: rest := by
  obtain ⟨name, hname, others, hothers⟩ := h.exists_word
  rw [hothers] at hu
  obtain ⟨v, vs, rfl, hv, -⟩ := Token.AllAgree.of_cons (hu : Token.AllAgree (Token.word name :: _) _)
  obtain ⟨pos, rfl⟩ := hv.of_ident
  exact ⟨name, hname, pos, vs, rfl⟩

/-- Whether the word `default` stands before a signature is seen. -/
theorem run_startsDefault {f : FunctionItem} (h : f.IsPlain) {us more : List Token} {s : Stream}
    (hu : Token.AllAgree (Qualifiers.wordIf "default" f.isDefault ++ (f.signature.tokens ++ [.enclosed .brace f.block])) us)
    (hs : s.rest = us ++ more) : startsDefault s = .ok (f.isDefault, s) := by
  unfold startsDefault
  simp only [run_bind, run_sees, run_seesSecond, run_pure, hs]
  cases hdefault : f.isDefault with
  | true =>
    rw [hdefault] at hu
    obtain ⟨v, vs, rfl, hv, hvs⟩ := Token.AllAgree.of_cons hu
    obtain ⟨pos, rfl⟩ := hv.of_ident
    obtain ⟨name, -, nameAt, rest, rfl⟩ := exists_of_signature h.signature hvs
    rfl
  | false =>
    rw [hdefault] at hu
    obtain ⟨name, hname, pos, rest, rfl⟩ := exists_of_signature h.signature hu
    rw [List.cons_append, not_stands_of_signatureWords hname (by decide)]
    rfl

/-- Attributes and a visibility, and then the word `default` or a signature. -/
theorem makes_visibleFunction {f : FunctionItem} (h : f.IsPlain) {α : Type} {p : List Attribute → VisibilityExpr → Parser α}
    {holds : α → Prop} {next : List Token → Bool}
    (hp : ∀ attrs' v', List.Forall₂ (Attribute.Alike Token.AllMatch) f.attributes attrs' → f.visibility.Alike Token.AllMatch v' →
      Makes Token.AllMatch (p attrs' v') (Qualifiers.wordIf "default" f.isDefault ++ (f.signature.tokens ++ [.enclosed .brace f.block])) next holds) :
    Makes Token.AllMatch (do p (← outerAttributes g) (← visibility)) f.tokens next holds := by
  obtain ⟨name, hname, ts, hts⟩ := h.signature.exists_word
  rw [f.tokens_eq]
  cases hdefault : f.isDefault with
  | true =>
    rw [hdefault] at hp
    exact makes_visible h.attributes h.visibility (by decide) hp
  | false =>
    rw [hdefault, hts] at hp
    rw [hts]
    exact makes_visible h.attributes h.visibility (ne_of_mem_of_not_mem hname (by decide)) hp

/-- A plain function is read again where only a function may stand. -/
theorem makes_blockFunction (hr : RereadsFunctions g bound)
    {f : FunctionItem} (h : f.IsPlain) (hsize : Token.sizes f.tokens < bound) {next : List Token → Bool} :
    Makes Token.AllMatch (blockFunction g) f.tokens next (f.Alike Token.AllMatch) := by
  refine makes_visibleFunction h fun attrs' v' hattrs' hv' => ?_
  have hrest : Makes Token.AllMatch (do functionAfter g attrs' v' f.isDefault (← signature g))
      (f.signature.tokens ++ [.enclosed .brace f.block]) next (f.Alike Token.AllMatch) :=
    makes_functionWith hr h hsize hattrs' hv' fun _ _ hafter => hafter
  cases hdefault : f.isDefault with
  | true =>
    rw [hdefault] at hrest
    exact makes_worded hrest
  | false =>
    rw [hdefault] at hrest
    refine reads_unworded (fun hu _ => ?_) hrest
    obtain ⟨name, hname, pos, rest, rfl⟩ := exists_of_signature h.signature hu.1
    exact not_stands_of_signatureWords hname (by decide)

/-- A plain function is read again as an item of a block of functions. -/
theorem makes_blockItem (hr : RereadsFunctions g bound)
    {f : FunctionItem} (h : f.IsPlain) (hsize : Token.sizes f.tokens < bound) {next : List Token → Bool} :
    Makes Token.AllMatch (blockItem g) f.tokens next fun read => ∃ f', read = some f' ∧ f.Alike Token.AllMatch f' := by
  refine Reads.imp (Reads.orAsItStands (?_ : Makes _ _ _ _ fun read => ∃ f', read.1 = some f' ∧ f.Alike Token.AllMatch f'))
    fun ⟨_, _, h⟩ => h
  refine makes_visibleFunction h fun attrs' v' hattrs' hv' => ?_
  have hsignature : ∀ {us more : List Token} {s : Stream}, Token.AllMatch (f.signature.tokens ++ [.enclosed .brace f.block]) us →
      s.rest = us ++ more → startsSignature false s = .ok (true, s) := by
    intro us more s hu hs
    obtain ⟨vs, ws, rfl, hv, -⟩ := Token.Likeness.of_append hu
    rw [List.append_assoc] at hs
    exact run_startsSignature h.signature hv hs
  have hrest : Makes Token.AllMatch (do
      let signature ← signature g
      if ← mark? ";" then pure (none, false)
      else pure (some (← functionAfter g attrs' v' f.isDefault signature), true))
      (f.signature.tokens ++ [.enclosed .brace f.block]) next
        fun read : Option FunctionItem × Bool => ∃ f', read.1 = some f' ∧ f.Alike Token.AllMatch f' := by
    refine makes_functionWith hr h hsize hattrs' hv' fun signature hsignature hafter => reads_unmarked (fun hu _ => ?_) ?_
    · obtain ⟨inner, opens, closes, rfl, -⟩ := exists_of_group hu
      rfl
    · exact Makes.bind_nil hafter fun f' hf' => reads_pure ⟨f', rfl, hf'⟩
  refine reads_idle f.isDefault (fun hu _ hs => run_startsDefault h hu.1 hs) ?_
  cases hdefault : f.isDefault with
  | true =>
    rw [hdefault] at hrest
    refine Makes.bind (copies_word : Copies _ _ [Token.word "default"] (fun _ => true) _).makes (fun _ _ => ?_) fun _ _ => rfl
    exact reads_idle true (fun hu _ hs => hsignature hu hs) hrest
  | false =>
    rw [hdefault] at hrest
    exact reads_idle true (fun hu _ hs => hsignature hu hs) hrest

end Read

/-! ## Blocks of functions -/

/-- A block of functions of a type, or of a trait for a type, without its functions. -/
structure BlockHeader where
  generics : Generics
  ofTrait : Option PathExpr
  subject : PathExpr
  whereClause : Option WhereClause

namespace BlockHeader

/-- The trait of a block, with the word after it. -/
def traitTokens : Option PathExpr → List Token
  | some path => path.tokens ++ [Token.word "for"]
  | none => []

/-- The header with the given functions in braces behind it. -/
def around (h : BlockHeader) (functions : List Token) : List Token :=
  Token.word "impl" :: (h.generics.tokens ++ (traitTokens h.ofTrait ++ (h.subject.tokens ++
    ((h.whereClause.map WhereClause.tokens).getD [] ++ [.enclosed .brace functions]))))

structure IsPlain (h : BlockHeader) : Prop where
  generics : h.generics.IsPlain
  ofTrait : ∀ path ∈ h.ofTrait, path.isOfPlain = true ∧ path.Proper
  subject : h.subject.isOfPlain = true ∧ h.subject.Proper
  whereClause : ∀ clause ∈ h.whereClause, clause.IsPlain

end BlockHeader

theorem Token.AllMatch.of_ident {name : String} {pos : Position} {ts us : List Token} (h : Token.AllMatch (.ident name pos :: ts) us) :
    ∃ found vs, us = .ident name found :: vs ∧ Token.AllMatch ts vs := by
  obtain ⟨h, hback⟩ := h
  obtain ⟨v, vs, rfl, hv, hvs⟩ := h.of_cons
  obtain ⟨found, rfl⟩ := hv.of_ident
  exact ⟨found, vs, rfl, hvs, hback.2⟩

namespace Read

variable {g : Grammar} {bound : Nat}

/-- What stands after the first parameter in angle brackets tells that parameters are declared. -/
def afterParameter (ts : List Token) : Bool :=
  ((Expected.mark ":").stands ts && !(Expected.mark "::").stands ts) || (Expected.mark ",").stands ts ||
    (Expected.mark ">").stands ts || (Expected.mark "=").stands ts

theorem afterParameter_of_symbol {operator : String} (h : operator ∈ [":", ",", ">", "="]) {ts us more : List Token}
    (hu : Token.AllMatch (Token.symbol operator ++ ts) us) : afterParameter (us ++ more) = true := by
  simp only [List.mem_cons, List.not_mem_nil, or_false] at h
  rcases h with rfl | rfl | rfl | rfl <;>
  · obtain ⟨pos, vs, rfl, -⟩ := Token.AllMatch.of_punct hu
    rfl

theorem afterParameter_of_colon {bounds ts us more : List Token} (hu : Token.AllMatch (afterColon bounds ++ ts) us)
    (h : ∀ {vs}, Token.AllMatch ts vs → afterParameter (vs ++ more) = true) : afterParameter (us ++ more) = true := by
  unfold afterColon at hu
  split at hu
  · exact h hu
  · rw [List.append_assoc] at hu
    exact afterParameter_of_symbol (by decide) hu

/-- A parameter stands here, and not the start of a type. -/
def opensParameter (ts : List Token) : Bool :=
  (Expected.mark ">").stands ts || (Expected.mark "#").stands ts || (Expected.word "const").stands ts ||
    ((Expected.lifetime.stands ts || Expected.identifier.stands ts) && afterParameter (afterTree ts))

theorem opensParameter_of_plain {p : GenericParameter} (h : p.IsPlain) {ts us more : List Token}
    (hu : Token.AllMatch (p.tokens true ++ ts) us) (hts : ∀ {vs}, Token.AllMatch ts vs → afterParameter (vs ++ more) = true) :
    opensParameter (us ++ more) = true := by
  rw [h.tokens_eq] at hu
  cases h with
  | lifetime named lifetimes ended =>
    obtain ⟨letters, rfl, -⟩ := named
    simp only [Option.map_none, Option.getD_none, List.append_nil, List.append_assoc] at hu
    obtain ⟨vs, ws, rfl, hv, hw⟩ := Token.Likeness.of_append hu
    obtain ⟨pos, namePos, rfl⟩ := exists_of_lifetime hv.1
    exact Bool.or_eq_true_iff.mpr (Or.inr (afterParameter_of_colon hw hts))
  | @type name bounds trailing fallback named free plain ended other =>
    simp only [List.cons_append, List.append_assoc] at hu
    obtain ⟨pos, ws, rfl, hw⟩ := Token.AllMatch.of_ident hu
    have hafter : afterParameter (ws ++ more) = true := by
      refine afterParameter_of_colon hw fun hx => ?_
      cases fallback with
      | none => exact hts hx
      | some value =>
        simp only [Option.map_some, Option.getD_some, List.append_assoc] at hx
        exact afterParameter_of_symbol (by decide) hx
    have hname : Expected.identifier.stands (.ident name pos :: (ws ++ more)) = true := (Bool.not_eq_true' _).mpr free
    refine Bool.or_eq_true_iff.mpr (Or.inr (Bool.and_eq_true_iff.mpr ⟨Bool.or_eq_true_iff.mpr (Or.inr hname), hafter⟩))
  | constant named free plain proper other =>
    simp only [List.cons_append] at hu
    obtain ⟨pos, ws, rfl, -⟩ := Token.AllMatch.of_ident hu
    rfl

/-- Plain parameters after the word `impl` are seen to be declared there. -/
theorem run_opensGenerics {parameters : Generics} (h : parameters.IsPlain) (hne : parameters.parameters ≠ []) {us more : List Token}
    (hu : Token.AllMatch parameters.tokens us) {s : Stream} (hs : s.rest = us ++ more) : opensGenerics s = .ok (true, s) := by
  obtain ⟨list, trailing⟩ := parameters
  obtain ⟨first, others, rfl⟩ := List.exists_cons_of_ne_nil hne
  rw [Generics.tokens, h.angled_eq _ hne] at hu
  obtain ⟨pos, vs, rfl, hv⟩ := Token.AllMatch.of_punct hu
  have hopens : opensParameter (vs ++ more) = true := by
    by_cases hlast : others = [] ∧ trailing = false
    · obtain ⟨rfl, rfl⟩ := hlast
      rw [show commas false (List.map (·.tokens true) [first]) = first.tokens true from List.append_nil _] at hv
      exact opensParameter_of_plain (h.parameters first List.mem_cons_self) hv fun hw => afterParameter_of_symbol (by decide)
        (List.append_nil (Token.symbol ">") ▸ hw)
    · have hmore : others.map (·.tokens true) = [] → trailing = true := fun he =>
        Bool.not_eq_false _ ▸ fun hf => hlast ⟨List.map_eq_nil_iff.mp he, hf⟩
      simp only [List.map_cons] at hv
      rw [commas_cons hmore, List.append_assoc, List.append_assoc] at hv
      exact opensParameter_of_plain (h.parameters first List.mem_cons_self) hv fun hw => afterParameter_of_symbol (by decide) hw
  have hrun : opensGenerics s = .ok ((Expected.mark "<").stands s.rest && opensParameter (afterTree s.rest), s) := rfl
  rw [hrun, hs]
  show Except.ok (true && opensParameter (vs ++ more), s) = _
  rw [hopens]
  rfl

/-- What starts with attributes, a visibility and a word belongs to nothing that is around it. -/
theorem endsInnerAttributes_of_visible {attrs : List Attribute} (hattrs : ∀ a ∈ attrs, a.IsPlain false) {v : VisibilityExpr}
    (hv : v.Proper) {name : String} {rest us more : List Token}
    (hu : Token.AllAgree (Attribute.tokensOfAll attrs ++ (v.tokens ++ Token.word name :: rest)) us) : endsInnerAttributes (us ++ more) = true := by
  cases attrs with
  | nil =>
    obtain ⟨first, pos, others, rfl, -⟩ := exists_of_visible hv hu
    rfl
  | cons a others =>
    have hplaced := (hattrs a List.mem_cons_self).placed
    rw [Attribute.tokensOfAll, List.flatMap_cons, Attribute.tokens, hplaced] at hu
    obtain ⟨v, vs, rfl, hv, hvs⟩ := Token.AllAgree.of_cons hu
    obtain ⟨joint, pos, rfl, -⟩ := hv.of_punct
    obtain ⟨w, ws, rfl, hw, -⟩ := Token.AllAgree.of_cons hvs
    obtain ⟨inner, opens, closes, rfl, -⟩ := hw.of_group
    rfl

theorem endsInnerAttributes_of_function {f : FunctionItem} (h : f.IsPlain) {us more : List Token} (hu : Token.AllAgree f.tokens us) :
    endsInnerAttributes (us ++ more) = true := by
  rw [f.tokens_eq] at hu
  cases hdefault : f.isDefault with
  | true =>
    rw [hdefault] at hu
    exact endsInnerAttributes_of_visible h.attributes h.visibility hu
  | false =>
    obtain ⟨name, hname, ts, hts⟩ := h.signature.exists_word
    rw [hdefault, hts] at hu
    exact endsInnerAttributes_of_visible h.attributes h.visibility hu

/-- Nothing is taken at first. -/
theorem Makes.nil_bind {α β : Type} {p : Parser α} {f : α → Parser β} {us : List Token} {middle next : List Token → Bool}
    {holds : α → Prop} {holds' : β → Prop} (hp : Makes Token.AllMatch p [] middle holds)
    (hf : ∀ a, holds a → Makes Token.AllMatch (f a) us next holds')
    (hnext : ∀ {vs more}, Token.AllMatch us vs → next more = true → middle (vs ++ more) = true) :
    Makes Token.AllMatch (p >>= f) us next holds' := Makes.bind hp hf hnext

/-- Something is left. -/
def goesOn (ts : List Token) : Bool := !ts.isEmpty

/-- What is read to the end of the tokens. -/
theorem makes_untilEnd {α ι : Type} {p : Parser α} {tokens : ι → List Token} {holds : ι → α → Prop} {items : List ι}
    (hitem : ∀ i ∈ items, Makes Token.AllMatch p (tokens i) (fun _ => true) (holds i)) (hne : ∀ i ∈ items, tokens i ≠ []) :
    Makes Token.AllMatch (untilEnd p) (items.flatMap tokens) List.isEmpty fun read => List.Forall₂ holds items read := by
  have htest : ∀ s, (do pure !(← atEnd)) s = .ok (goesOn s.rest, s) := fun _ => rfl
  refine (reads_whileSeen (fun _ => true) htest (fun hm => ?_) (fun i hi us more hu => ?_) hitem hne).imp fun hread => ?_
  · exact ⟨(Bool.not_eq_false' _).mpr hm, rfl⟩
  · exact ⟨(Bool.not_eq_true' _).mpr (isEmpty_of_like (hne i hi) hu), rfl⟩
  · exact hread.forall₂.imp fun _ _ ⟨_, ha⟩ => ha

theorem forall₂_filterMap {functions : List FunctionItem} {read : List (Option FunctionItem)}
    (h : List.Forall₂ (fun f read => ∃ f', read = some f' ∧ f.Alike Token.AllMatch f') functions read) :
    List.Forall₂ (FunctionItem.Alike Token.AllMatch) functions (read.filterMap id) := by
  induction h with
  | nil => exact .nil
  | cons first rest ih =>
    obtain ⟨f', rfl, hf'⟩ := first
    exact .cons hf' ih

/-- Plain functions are read one after the other. -/
theorem makes_blockItems (hr : RereadsFunctions g bound) {functions : List FunctionItem} (h : ∀ f ∈ functions, f.IsPlain)
    (hsize : Token.sizes (functions.flatMap FunctionItem.tokens) < bound) :
    Makes Token.AllMatch (untilEnd (blockItem g)) (functions.flatMap FunctionItem.tokens) List.isEmpty fun read =>
      List.Forall₂ (FunctionItem.Alike Token.AllMatch) functions (read.filterMap id) := by
  refine (makes_untilEnd (fun f hf => makes_blockItem hr (h f hf) ?_) fun f _ => f.tokens_ne_nil).imp forall₂_filterMap
  have hle := sizes_le_flatMap FunctionItem.tokens hf
  omega

/-- Nothing in braces belongs to what is around them. -/
def KeepsApart (body : List Token) : Prop := ∀ ⦃us⦄, Token.AllMatch body us → endsInnerAttributes us = true

theorem keepsApart_functions {functions : List FunctionItem} (h : ∀ f ∈ functions, f.IsPlain) :
    KeepsApart (functions.flatMap FunctionItem.tokens) := by
  intro us hu
  cases functions with
  | nil =>
    rw [eq_nil_of_like hu]
    rfl
  | cons first others =>
    rw [List.flatMap_cons] at hu
    obtain ⟨vs, ws, rfl, hv, -⟩ := Token.Likeness.of_append hu
    exact endsInnerAttributes_of_function (h first List.mem_cons_self) hv.1

/-- A block of functions after its subject, whatever the functions are read as. -/
theorem makes_blockRest (hg : RereadsBounds g bound) {clause : Option WhereClause} (hclause : ∀ found ∈ clause, found.IsPlain)
    (hsize : Token.sizes ((clause.map WhereClause.tokens).getD []) < bound) {body : List Token}
    {items : List (Option FunctionItem) → Prop} (hitems : Makes Token.AllMatch (untilEnd (blockItem g)) body List.isEmpty items)
    (hapart : KeepsApart body) {α : Type} {f : List Attribute → List (Option FunctionItem) → α} {holds : α → Prop}
    {next : List Token → Bool} (hf : ∀ read, items read → holds (f [] read)) :
    Makes Token.AllMatch (do
      discard (whereClause? g)
      inside .brace do
        let inner ← innerAttributes g
        let items ← untilEnd (blockItem g)
        pure (f inner items))
      ((clause.map WhereClause.tokens).getD [] ++ [.enclosed .brace body]) next holds := by
  have hdiscard : Makes Token.AllMatch (discard (whereClause? g)) ((clause.map WhereClause.tokens).getD []) endsClause fun _ => True :=
    Makes.bind_nil (takes_whereClause? hg hclause hsize) fun _ _ => reads_pure trivial
  refine Makes.bind hdiscard (fun _ _ => Makes.inside ?_) fun hu _ => ?_
  · have hinner : Copies Token.AllMatch (innerAttributes g) (Attribute.tokensOfAll []) endsInnerAttributes
        (List.Forall₂ (Attribute.Alike Token.AllMatch) []) := copies_innerAttributes fun _ ha => absurd ha List.not_mem_nil
    refine Makes.nil_bind hinner.makes (fun inner hnone => ?_) fun hu hm => ?_
    · cases hnone
      exact Makes.bind_nil hitems fun read hread => reads_pure (hf read hread)
    · rw [List.isEmpty_iff.mp hm, List.append_nil]
      exact hapart hu
  · obtain ⟨inner, opens, closes, rfl, -⟩ := exists_of_group hu
    rfl

/-- A path stands here, and no word or mark that belongs to the header of a block. -/
theorem not_stands_of_subject {path : PathExpr} (hproper : path.Proper) {e : Expected}
    (he : e ∈ [Expected.word "const", .mark "?", .mark "!", .mark "<"]) {us more : List Token} (hu : Token.AllAgree path.tokens us) :
    e.stands (us ++ more) = false := by
  simp only [List.mem_cons, List.not_mem_nil, or_false] at he
  rcases exists_of_path hproper hu with ⟨pos, joint, next, rest, rfl⟩ | ⟨name, pos, rest, rfl, hname⟩
  · rcases he with rfl | rfl | rfl | rfl <;> rfl
  · rcases he with rfl | rfl | rfl | rfl
    · refine beq_eq_false_iff_ne.mpr ?_
      rintro rfl
      cases hname
    all_goals rfl

/-- The header goes on with a path, of the trait or else of the subject. -/
theorem not_stands_of_header {ofTrait : Option PathExpr} (htrait : ∀ path ∈ ofTrait, path.Proper) {subject : PathExpr}
    (hsubject : subject.Proper) {e : Expected} (he : e ∈ [Expected.word "const", .mark "?", .mark "!", .mark "<"])
    {rest us more : List Token} (hu : Token.AllMatch (BlockHeader.traitTokens ofTrait ++ (subject.tokens ++ rest)) us) :
    e.stands (us ++ more) = false := by
  obtain ⟨first, hfirst, others, hothers⟩ : ∃ first : PathExpr, first.Proper ∧ ∃ others,
      BlockHeader.traitTokens ofTrait ++ (subject.tokens ++ rest) = first.tokens ++ others := by
    cases ofTrait with
    | none => exact ⟨subject, hsubject, _, rfl⟩
    | some path => exact ⟨path, htrait path rfl, _, List.append_assoc ..⟩
  rw [hothers] at hu
  obtain ⟨vs, ws, rfl, hv, -⟩ := Token.Likeness.of_append hu
  rw [List.append_assoc]
  exact not_stands_of_subject hfirst he hv.1

/-- A type ends where the clause of a header starts, or its functions. -/
theorem endsType_of_clause {clause : Option WhereClause} {body us more : List Token}
    (hu : Token.AllMatch ((clause.map WhereClause.tokens).getD [] ++ [.enclosed .brace body]) us) :
    endsType (us ++ more) = true ∧ (Expected.word "for").stands (us ++ more) = false := by
  rcases exists_of_clause hu.1 with ⟨pos, rest, rfl⟩ | ⟨inner, opens, closes, rfl⟩ <;> exact ⟨rfl, rfl⟩

/-- The parameters of a block, if it has any. -/
theorem takes_blockGenerics (hg : RereadsBounds g bound) {parameters : Generics} (h : parameters.IsPlain)
    (hsize : Token.sizes parameters.tokens < bound) {α : Type} {p : Parser α} {ts : List Token} {holds : α → Prop} {next : List Token → Bool}
    (hts : ∀ {us more}, Token.AllMatch ts us → next more = true → (Expected.mark "<").stands (us ++ more) = false)
    (hp : Makes Token.AllMatch p ts next holds) :
    Makes Token.AllMatch (do
      if ← opensGenerics then discard (generics g)
      p) (parameters.tokens ++ ts) next holds := by
  by_cases hne : parameters.parameters = []
  · have hnone : parameters.tokens = [] := by
      rw [Generics.tokens, Generics.angled, hne]
      rfl
    rw [hnone, List.nil_append]
    refine reads_idle false (fun {us more s} hu hm hs => ?_) hp
    have hrun : opensGenerics s = .ok ((Expected.mark "<").stands s.rest && opensParameter (afterTree s.rest), s) := rfl
    rw [hrun, hs, hts hu hm]
    rfl
  · refine reads_idle true (fun {us more s} hu _ hs => ?_) ?_
    · obtain ⟨vs, ws, rfl, hv, -⟩ := Token.Likeness.of_append hu
      rw [List.append_assoc] at hs
      exact run_opensGenerics h hne hv hs
    · have hread : Makes Token.AllMatch (discard (generics g)) parameters.tokens endsGenerics fun _ => True :=
        Makes.bind_nil (Reads.of_agree (takes_generics hg h hsize)) fun _ _ => reads_pure trivial
      exact Makes.bind hread (fun _ _ => hp) fun hu hm => (Bool.not_eq_true' _).mpr (hts hu hm)

/-- A block behind a plain header, whatever its functions are read as. -/
theorem makes_functionsItem (hg : RereadsBounds g bound) {header : BlockHeader} (h : header.IsPlain) {body : List Token}
    {items : List (Option FunctionItem) → Prop} (hitems : Makes Token.AllMatch (untilEnd (blockItem g)) body List.isEmpty items)
    (hapart : KeepsApart body) (hsize : Token.sizes (header.around body) < bound) (attributes : List Attribute)
    {next : List Token → Bool} :
    Makes Token.AllMatch (functionsItem g attributes false) (header.around body) next fun read =>
      ∃ functions, items functions ∧
        read.1 = .functions attributes header.ofTrait.isSome (.path header.subject) (functions.filterMap id) := by
  obtain ⟨parameters, ofTrait, subject, clause⟩ := header
  simp only [BlockHeader.around, Token.sizes, sizes_append] at hsize
  have hgenerics : parameters.IsPlain := h.generics
  have hsubject : subject.isOfPlain = true ∧ subject.Proper := h.subject
  have hclauses : ∀ found ∈ clause, found.IsPlain := h.whereClause
  have hpath : ∀ {path : PathExpr}, path.isOfPlain = true → path.Proper → Token.sizes path.tokens < bound →
      Takes Token.AllMatch (g.type true) path.tokens endsType (.path path) := fun hplain hproper hle =>
    Reads.of_agree (hg.types true (.path _) hplain hproper hle)
  refine reads_discardUnworded (fun hu _ => ?_) (reads_discardUnworded (fun hu _ => ?_) ?_)
  · obtain ⟨pos, vs, rfl, -⟩ := Token.AllMatch.of_ident hu
    rfl
  · obtain ⟨pos, vs, rfl, -⟩ := Token.AllMatch.of_ident hu
    rfl
  refine Takes.bind (takes_word : Takes _ _ [Token.word "impl"] (fun _ => true) _) ?_ fun _ _ => rfl
  have hstart : ∀ {us more : List Token} {e : Expected}, e ∈ [Expected.word "const", .mark "?", .mark "!", .mark "<"] →
      Token.AllMatch (BlockHeader.traitTokens ofTrait ++ (subject.tokens ++ ((clause.map WhereClause.tokens).getD [] ++
        [.enclosed .brace body]))) us → e.stands (us ++ more) = false :=
    fun he hu => not_stands_of_header (fun path hp => (h.ofTrait path hp).2) hsubject.2 he hu
  refine takes_blockGenerics hg hgenerics (by omega) (fun hu _ => hstart (by decide) hu) ?_
  refine reads_idle false (fun {us more s} hu _ hs => ?_) (reads_ignored (fun s => ⟨_, rfl⟩) fun position => ?_)
  · unfold constModifier
    simp only [run_bind, run_sees, run_seesSecond, run_pure, hs, hstart (e := .word "const") (by decide) hu,
      hstart (e := .mark "?") (by decide) hu, Bool.false_and, Bool.or_false, Bool.false_eq_true, if_false]
  refine reads_sees false (fun hu _ => hstart (by decide) hu) (reads_ignored (fun s => ⟨_, rfl⟩) fun second => ?_)
  rw [Bool.false_and, if_neg Bool.false_ne_true]
  -- What comes after the subject, for either form of a header.
  have hafter : ∀ ofTrait : Bool, Makes Token.AllMatch (do
      discard (whereClause? g)
      inside .brace do
        let inner ← innerAttributes g
        let items ← untilEnd (blockItem g)
        let ordinary := true && !false && !false
        pure (if ordinary then Item.functions (attributes ++ inner) ofTrait (.path subject) (items.filterMap id) else .plain, ordinary))
      ((clause.map WhereClause.tokens).getD [] ++ [.enclosed .brace body]) next fun read =>
        ∃ functions, items functions ∧ read.1 = .functions attributes ofTrait (.path subject) (functions.filterMap id) := by
    intro ofTrait
    refine makes_blockRest hg hclauses (by omega) hitems hapart fun read hread => ?_
    exact ⟨read, hread, by rw [List.append_nil]; rfl⟩
  cases ofTrait with
  | none =>
    show Makes Token.AllMatch _ (subject.tokens ++ ((clause.map WhereClause.tokens).getD [] ++
      [.enclosed .brace body])) next _
    refine Takes.bind (hpath hsubject.1 hsubject.2 (by omega)) ?_ fun hu _ => (endsType_of_clause hu).1
    exact reads_unworded (fun hu _ => (endsType_of_clause hu).2) (hafter false)
  | some path =>
    obtain ⟨hplain, hproper⟩ := h.ofTrait path rfl
    rw [BlockHeader.traitTokens, sizes_append] at hsize
    rw [BlockHeader.traitTokens, List.append_assoc]
    refine Takes.bind (hpath hplain hproper (by omega)) ?_ fun hu _ => ?_
    · refine makes_worded ?_
      show Makes Token.AllMatch _ (subject.tokens ++ ((clause.map WhereClause.tokens).getD [] ++
        [.enclosed .brace body])) next _
      have hread : Takes Token.AllMatch (do pure (← g.type true, true)) subject.tokens endsType (TypeExpr.path subject, true) :=
        Takes.bind_nil (hpath hsubject.1 hsubject.2 (by omega)) (takes_pure _)
      exact Takes.bind hread (hafter true) fun hu _ => (endsType_of_clause hu).1
    · obtain ⟨pos, vs, rfl, -⟩ := Token.AllMatch.of_ident hu
      rfl

theorem itemBody_of_impl {attributes : List Attribute} {start pos : Position} {s : Stream} {rest : List Token}
    (hs : s.rest = .ident "impl" pos :: rest) : itemBody g attributes .inherited start s = functionsItem g attributes false s := by
  obtain ⟨_, closesAt, within, leftover, written⟩ := s
  obtain rfl := hs
  rfl

/-- A block of functions after its attributes, whatever its functions are read as. -/
theorem makes_functionsOf (hg : RereadsBounds g bound) {attributes : List Attribute} (hattributes : ∀ a ∈ attributes, a.IsPlain false)
    {header : BlockHeader} (h : header.IsPlain) {body : List Token} {items : List (Option FunctionItem) → Prop}
    (hitems : Makes Token.AllMatch (untilEnd (blockItem g)) body List.isEmpty items) (hapart : KeepsApart body)
    (hsize : Token.sizes (header.around body) < bound) {next : List Token → Bool} :
    Makes Token.AllMatch (item g) (Attribute.tokensOfAll attributes ++ header.around body) next fun read =>
      ∃ attributes' functions, List.Forall₂ (Attribute.Alike Token.AllMatch) attributes attributes' ∧ items functions ∧
        read = .functions attributes' header.ofTrait.isSome (.path header.subject) (functions.filterMap id) := by
  refine makes_item (v := .inherited) hattributes trivial (by decide) fun attrs' v' start hattrs' hv' => ?_
  obtain rfl : v' = .inherited := by cases v' <;> first | rfl | cases hv'
  have hblock : Makes Token.AllMatch (functionsItem g attrs' false) (header.around body) next fun read =>
      ∃ attributes' functions, List.Forall₂ (Attribute.Alike Token.AllMatch) attributes attributes' ∧ items functions ∧
        read.1 = .functions attributes' header.ofTrait.isSome (.path header.subject) (functions.filterMap id) :=
    (makes_functionsItem hg h hitems hapart hsize attrs').imp fun ⟨functions, hread⟩ => ⟨attrs', functions, hattrs', hread⟩
  refine hblock.congr fun hu _ hs => ?_
  obtain ⟨pos, vs, rfl, -⟩ := Token.AllMatch.of_ident hu
  exact itemBody_of_impl hs

/-- A plain block of functions is read again. -/
theorem makes_functions (hr : RereadsFunctions g bound)
    {attributes : List Attribute} (hattributes : ∀ a ∈ attributes, a.IsPlain false) {header : BlockHeader} (h : header.IsPlain)
    {functions : List FunctionItem} (hfunctions : ∀ f ∈ functions, f.IsPlain)
    (hsize : Token.sizes (header.around (functions.flatMap FunctionItem.tokens)) < bound) {next : List Token → Bool} :
    Makes Token.AllMatch (item g) (Attribute.tokensOfAll attributes ++ header.around (functions.flatMap FunctionItem.tokens)) next
      fun read => ∃ attributes' functions', read = .functions attributes' header.ofTrait.isSome (.path header.subject) functions' ∧
        List.Forall₂ (FunctionItem.Alike Token.AllMatch) functions functions' := by
  have hbody : Token.sizes (functions.flatMap FunctionItem.tokens) < bound := by
    simp only [BlockHeader.around, Token.sizes, sizes_append, Token.enclosed, Token.size] at hsize
    omega
  refine (makes_functionsOf hr.bounds hattributes h (makes_blockItems hr hfunctions hbody) (keepsApart_functions hfunctions) hsize).imp ?_
  rintro read - ⟨attributes', read, -, hread, rfl⟩
  exact ⟨attributes', _, rfl, hread⟩

end Read

/-! ## Files -/

namespace Read

variable {g : Grammar}

/-- Items that are read one after the other, each with what is known of it, are read as a file. -/
theorem makes_file {parts : List (List Token × (Item → Prop))}
    (hitem : ∀ part ∈ parts, Makes Token.AllMatch g.item part.1 (fun _ => true) part.2) (hne : ∀ part ∈ parts, part.1 ≠ [])
    (hstart : ∀ {us}, Token.AllMatch (parts.flatMap Prod.fst) us → endsInnerAttributes us = true) :
    Makes Token.AllMatch (file g) (parts.flatMap Prod.fst) List.isEmpty fun items => List.Forall₂ (fun part item => part.2 item) parts items := by
  have hinner : Copies Token.AllMatch (innerAttributes g) (Attribute.tokensOfAll []) endsInnerAttributes
      (List.Forall₂ (Attribute.Alike Token.AllMatch) []) := copies_innerAttributes nofun
  refine Makes.nil_bind (Copies.discard hinner).makes (fun _ _ => makes_untilEnd hitem hne) fun hu hm => ?_
  rw [List.isEmpty_iff.mp hm, List.append_nil]
  exact hstart hu

end Read

/-- What is read as a file of a grammar that is deep enough is read as one. -/
theorem exists_readTokens {α : Type} {reader : Grammar → Parser α} {ts us : List Token} {holds : α → Prop}
    (h : Makes Token.AllMatch (reader (grammarFor us)) ts List.isEmpty holds) (hu : Token.AllMatch ts us) (closesAt : Position) :
    ∃ read written, readTokens reader us closesAt = .ok (read, written) ∧ holds read := by
  obtain ⟨read, written, hread, hrun⟩ := Reads.onTokens h hu rfl closesAt
  exact ⟨read, written, hrun, hread⟩

end BuilderSynthesis.Syntax
