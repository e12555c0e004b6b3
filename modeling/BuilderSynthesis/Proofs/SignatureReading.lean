/-
  BuilderSynthesis.Proofs.SignatureReading — the signatures of functions are read again.

  Before the word `fn` there may be the words `const`, `async` and `unsafe` and a calling convention;
  they are kept as they are written. A plain signature has plain generics, plain parameters and a plain
  type of its value, and is read again as one that names the same function, with the same types
  (`makes_signature`). That it starts one is seen ahead (`run_startsSignature`).
-/

import BuilderSynthesis.Proofs.FunctionReading

namespace BuilderSynthesis.Syntax

open BuilderSynthesis.Syntax.Parser

/-! ## What stands before the word `fn` -/

/-- How a function may be called. A calling convention may have a name. -/
structure Qualifiers where
  isConst : Bool
  isAsync : Bool
  isUnsafe : Bool
  convention : Option (Option String)

namespace Qualifiers

def wordIf (name : String) (present : Bool) : List Token := if present then [Token.word name] else []

def conventionTokens : Option (Option String) → List Token
  | none => []
  | some name => Token.word "extern" :: (name.map Token.text).toList

def tokens (q : Qualifiers) : List Token :=
  wordIf "const" q.isConst ++ (wordIf "async" q.isAsync ++ (wordIf "unsafe" q.isUnsafe ++ conventionTokens q.convention))

/-- The name of a calling convention is a string. -/
def Proper (q : Qualifiers) : Prop := ∀ name ∈ q.convention, ∀ text ∈ name, isStringLiteral text = true

end Qualifiers

/-- One of the given words stands here. -/
def opensWith (words : List String) : List Token → Bool
  | .ident name _ :: _ => words.contains name
  | _ => false

theorem exists_of_opensWith {words : List String} {ts : List Token} (h : opensWith words ts = true) :
    ∃ name ∈ words, ∃ pos rest, ts = .ident name pos :: rest := by
  unfold opensWith at h
  split at h
  · exact ⟨_, List.contains_iff_mem.mp h, _, _, rfl⟩
  · cases h

theorem not_word_of_opensWith {words : List String} {name : String} (hname : name ∉ words) {ts : List Token}
    (h : opensWith words ts = true) : (Expected.word name).stands ts = false := by
  obtain ⟨found, hfound, pos, rest, rfl⟩ := exists_of_opensWith h
  refine beq_eq_false_iff_ne.mpr ?_
  rintro rfl
  exact hname hfound

namespace Read

section

variable {like : List Token → List Token → Prop} [Token.Likeness like]

/-- A word that may stand here, and then one of other words. -/
theorem copies_wordIf {name : String} {words : List String} (hname : name ∉ words) (present : Bool) :
    Copies like (word? name) (Qualifiers.wordIf name present) (opensWith words) (· = present) := by
  cases present with
  | true => exact copies_word?
  | false =>
    refine reads_nil fun s hm => ⟨false, [], ⟨rfl, Token.Likeness.refl _⟩, ?_⟩
    unfold word?
    rw [run_bind, run_sees, not_word_of_opensWith hname hm]
    rfl

theorem copies_stringLiteral {text : String} (h : isStringLiteral text = true) {next : List Token → Bool} :
    Copies like stringLiteral [Token.text text] next (· = text) := by
  intro us more s hu _ hs
  obtain ⟨v, vs, rfl, hv, hvs⟩ := (Token.Likeness.agree hu).of_cons
  obtain ⟨pos, rfl⟩ := hv.of_literal
  obtain rfl := hvs.of_nil
  refine ⟨text, [Token.text text], ⟨rfl, Token.Likeness.refl _⟩, ?_⟩
  unfold stringLiteral inspect
  simp only [hs, List.cons_append, List.nil_append, h, if_true]
  show Except.ok (text, { s with rest := s.rest.drop 1, written := _ }) = _
  rw [hs]
  rfl

theorem copies_abi? {convention : Option (Option String)} (h : ∀ name ∈ convention, ∀ text ∈ name, isStringLiteral text = true) :
    Copies like abi? (Qualifiers.conventionTokens convention) (opensWith ["fn"]) fun _ => True := by
  cases convention with
  | none =>
    refine reads_unworded (fun hu hm => ?_) (reads_pure ⟨trivial, Token.Likeness.refl _⟩)
    rw [eq_nil_of_like hu]
    exact not_word_of_opensWith (by decide) hm
  | some name =>
    refine Copies.bind (copies_word? : Copies like _ [Token.word "extern"] (fun _ => true) _) (fun found hfound => ?_) fun _ _ => rfl
    subst hfound
    cases name with
    | none =>
      refine reads_sees false (fun hu hm => ?_) (reads_pure ⟨trivial, Token.Likeness.refl _⟩)
      rw [eq_nil_of_like hu]
      obtain ⟨word, -, pos, rest, rfl⟩ := exists_of_opensWith hm
      rfl
    | some text =>
      have htext := h _ rfl text rfl
      refine reads_sees true (fun hu _ => ?_) (Copies.discard (copies_stringLiteral htext))
      obtain ⟨v, vs, rfl, hv, -⟩ := (Token.Likeness.agree hu).of_cons
      obtain ⟨pos, rfl⟩ := hv.of_literal
      exact htext

theorem opensWith_of_wordIf {name : String} {present : Bool} {words : List String} (hname : name ∈ words) {ts us more : List Token}
    (hu : like (Qualifiers.wordIf name present ++ ts) us)
    (h : ∀ {vs}, like ts vs → opensWith words (vs ++ more) = true) : opensWith words (us ++ more) = true := by
  cases present with
  | false => exact h hu
  | true =>
    obtain ⟨v, vs, rfl, hv, -⟩ := Token.AllAgree.of_cons (Token.Likeness.agree hu)
    obtain ⟨pos, rfl⟩ := hv.of_ident
    exact List.contains_iff_mem.mpr hname

theorem opensWith_of_convention {convention : Option (Option String)} {words : List String} (hforeign : "extern" ∈ words)
    (hfn : "fn" ∈ words) {us more : List Token} (hu : like (Qualifiers.conventionTokens convention) us)
    (hm : opensWith ["fn"] more = true) : opensWith words (us ++ more) = true := by
  cases convention with
  | none =>
    rw [eq_nil_of_like hu]
    obtain ⟨name, hname, pos, rest, rfl⟩ := exists_of_opensWith hm
    obtain rfl := List.mem_singleton.mp hname
    exact List.contains_iff_mem.mpr hfn
  | some name =>
    obtain ⟨v, vs, rfl, hv, -⟩ := Token.AllAgree.of_cons (Token.Likeness.agree hu)
    obtain ⟨pos, rfl⟩ := hv.of_ident
    exact List.contains_iff_mem.mpr hforeign

theorem copies_qualifiers {q : Qualifiers} (h : q.Proper) :
    Copies like (qualifiers false) q.tokens (opensWith ["fn"]) (· = (q.isAsync, q.isUnsafe, false)) := by
  have hconvention : ∀ {us more : List Token}, like (Qualifiers.conventionTokens q.convention) us → opensWith ["fn"] more = true →
      opensWith ["extern", "fn"] (us ++ more) = true := fun hu hm => opensWith_of_convention (by decide) (by decide) hu hm
  have hunsafe : ∀ {us more : List Token}, like (Qualifiers.wordIf "unsafe" q.isUnsafe ++ Qualifiers.conventionTokens q.convention) us →
      opensWith ["fn"] more = true → opensWith ["unsafe", "extern", "fn"] (us ++ more) = true := fun hu hm =>
    opensWith_of_wordIf (by decide) hu fun hv => opensWith_of_convention (by decide) (by decide) hv hm
  have hasync : ∀ {us more : List Token}, like (Qualifiers.wordIf "async" q.isAsync ++ (Qualifiers.wordIf "unsafe" q.isUnsafe ++
      Qualifiers.conventionTokens q.convention)) us → opensWith ["fn"] more = true →
      opensWith ["async", "unsafe", "extern", "fn"] (us ++ more) = true := fun hu hm =>
    opensWith_of_wordIf (by decide) hu fun hv => opensWith_of_wordIf (by decide) hv fun hw =>
      opensWith_of_convention (by decide) (by decide) hw hm
  refine Copies.bind (Copies.discard (copies_wordIf (by decide) q.isConst)) (fun _ _ => ?_) hasync
  refine Copies.bind (copies_wordIf (by decide) q.isAsync) (fun found hfound => ?_) hunsafe
  subst hfound
  refine Copies.bind (copies_wordIf (by decide) q.isUnsafe) (fun found hfound => ?_) hconvention
  subst hfound
  have hsafe : Copies like (do if false && !q.isUnsafe then word? "safe" else pure false) [] (fun _ => true) (· = false) :=
    reads_pure ⟨rfl, Token.Likeness.refl _⟩
  refine reads_idle false (fun _ _ _ => rfl) ?_
  exact Copies.bind_nil (copies_abi? h) fun _ _ => reads_pure ⟨rfl, Token.Likeness.refl _⟩

end

end Read

/-! ## Signatures -/

structure Signature.IsPlain (s : Signature) : Prop where
  qualifiers : ∃ q : Qualifiers, q.Proper ∧ s.qualifiers = q.tokens ∧ s.isAsync = q.isAsync ∧ s.isUnsafe = q.isUnsafe
  name : isReserved s.name = false
  generics : s.generics.IsPlain
  inputs : ∀ i ∈ s.inputs, i.IsPlain
  ended : s.inputs = [] → s.trailing = false
  fixed : s.variadic = []
  output : ∀ type ∈ s.output, type.isPlain = true ∧ type.Proper
  whereClause : ∀ clause ∈ s.whereClause, clause.IsPlain

/-- The signatures name the same function, with the same types, and are written alike. -/
structure Signature.Alike (like : List Token → List Token → Prop) (s s' : Signature) : Prop where
  isAsync : s'.isAsync = s.isAsync
  isUnsafe : s'.isUnsafe = s.isUnsafe
  qualifiers : like s.qualifiers s'.qualifiers
  name : s'.name = s.name
  generics : s'.generics = s.generics
  inputs : List.Forall₂ (FunctionInput.Alike like) s.inputs s'.inputs
  trailing : s'.trailing = s.trailing
  variadic : s'.variadic = s.variadic
  output : s'.output = s.output
  whereClause : s'.whereClause = s.whereClause

namespace Signature

/-- The type of the value, behind its arrow. -/
def returned : Option TypeExpr → List Token
  | some type => Token.symbol "->" ++ type.tokens
  | none => []

/-- What stands behind the parameters of a function. -/
def tail (s : Signature) : List Token := returned s.output ++ ((s.whereClause.map WhereClause.tokens).getD [])

/-- A signature from the word `fn` on. -/
def core (s : Signature) : List Token :=
  Token.word "fn" :: Token.word s.name :: (s.generics.tokens ++
    (.enclosed .parenthesis (commas s.trailing (s.inputs.map FunctionInput.tokens)) :: s.tail))

theorem IsPlain.tokens_eq {s : Signature} (h : s.IsPlain) : s.tokens = s.qualifiers ++ s.core := by
  have hvariadic : commaBetween (commas s.trailing (s.inputs.map FunctionInput.tokens)) s.trailing s.variadic =
      commas s.trailing (s.inputs.map FunctionInput.tokens) := by
    rw [h.fixed]
    rfl
  show s.qualifiers ++ (Token.word "fn" :: Token.word s.name :: s.generics.tokens) ++
    [.enclosed .parenthesis (commaBetween (commas s.trailing (s.inputs.map FunctionInput.tokens)) s.trailing s.variadic)] ++
    returned s.output ++ ((s.whereClause.map WhereClause.tokens).getD []) = _
  rw [hvariadic]
  simp only [core, tail, List.append_assoc, List.cons_append, List.nil_append]

end Signature

namespace Read

variable {g : Grammar} {bound : Nat}

/-- A body in braces stands here. -/
def endsSignature (ts : List Token) : Bool := (Expected.group .brace).stands ts

theorem exists_of_endsSignature {ts : List Token} (h : endsSignature ts = true) :
    ∃ content opensAt closesAt rest, ts = .group .brace content opensAt closesAt :: rest := by
  cases ts with
  | nil => cases h
  | cons t rest =>
    cases t with
    | group delimiter content opensAt closesAt =>
      obtain rfl : delimiter = .brace := beq_iff_eq.mp h
      exact ⟨content, opensAt, closesAt, rest, rfl⟩
    | _ => cases h

theorem takes_returnType (hg : RereadsBounds g bound) {output : Option TypeExpr}
    (h : ∀ type ∈ output, type.isPlain = true ∧ type.Proper) (hsize : Token.sizes (Signature.returned output) < bound) :
    Takes Token.AllMatch (returnType g true) (Signature.returned output)
      (fun more => endsType more && !(Expected.mark "->").stands more) output := by
  cases output with
  | none =>
    refine reads_unmarked (fun hu hm => ?_) (takes_pure _)
    rw [eq_nil_of_like hu]
    exact (Bool.not_eq_true' _).mp (Bool.and_eq_true_iff.mp hm).2
  | some type =>
    obtain ⟨hplain, hproper⟩ := h type rfl
    rw [Signature.returned, sizes_append] at hsize
    refine makes_marked (by decide) ?_
    have htype : Takes Token.AllMatch (g.type true) type.tokens endsType type := Reads.of_agree (hg.types true type hplain hproper (by omega))
    exact Takes.map some (htype.mono fun more hm => (Bool.and_eq_true_iff.mp hm).1)

/-- A where clause or a body ends the type of a value. -/
theorem endsReturn_of_clause {clause : Option WhereClause} {us more : List Token}
    (hu : Token.AllAgree ((clause.map WhereClause.tokens).getD []) us) (hm : endsSignature more = true) :
    (endsType (us ++ more) && !(Expected.mark "->").stands (us ++ more)) = true := by
  obtain ⟨content, opensAt, closesAt, rest, rfl⟩ := exists_of_endsSignature hm
  have hclause : Token.AllAgree ((clause.map WhereClause.tokens).getD [] ++ [.group .brace content opensAt closesAt])
      (us ++ [.group .brace content opensAt closesAt]) := Token.Likeness.append hu (Token.Likeness.refl _)
  have hsplit : us ++ .group .brace content opensAt closesAt :: rest = (us ++ [.group .brace content opensAt closesAt]) ++ rest := by simp
  rw [hsplit]
  rcases exists_of_clause hclause with ⟨pos, vs, h⟩ | ⟨inner, opens, closes, h⟩ <;> (rw [h]; rfl)

/-- A signature from the word `fn` on, after its qualifiers. -/
theorem makes_signatureCore (hg : RereadsBounds g bound) (hp : RereadsPatterns g) {s : Signature} (h : s.IsPlain)
    (hsize : Token.sizes s.core < bound) {α : Type} {f : Position → String → Generics → InputsRead → Option TypeExpr → Option WhereClause → Parser α}
    {holds : α → Prop}
    (hf : ∀ nameAt read, List.Forall₂ (FunctionInput.Alike Token.AllMatch) s.inputs read.inputs → read.trailing = s.trailing →
      read.variadic = [] → Makes Token.AllMatch (f nameAt s.name s.generics read s.output s.whereClause) [] endsSignature holds) :
    Makes Token.AllMatch (do
      word "fn"
      let nameAt ← here
      let name ← identifier
      let generics ← generics g
      let read ← inside .parenthesis (functionInputs g)
      let output ← returnType g true
      let whereClause ← whereClause? g
      f nameAt name generics read output whereClause) s.core endsSignature holds := by
  simp only [Signature.core, Signature.tail, Token.sizes, sizes_append, Token.enclosed, Token.size] at hsize
  refine Takes.bind (takes_word : Takes _ _ [Token.word "fn"] (fun _ => true) _) ?_ fun _ _ => rfl
  refine reads_ignored (fun s => ⟨_, rfl⟩) fun nameAt => ?_
  refine Takes.bind (takes_identifier h.name : Takes _ _ [Token.word s.name] (fun _ => true) _) ?_ fun _ _ => rfl
  refine Takes.bind (Reads.of_agree (takes_generics hg h.generics (by omega))) ?_ fun hu _ => ?_
  rotate_left
  · obtain ⟨v, vs, rfl, hv, -⟩ := Token.AllAgree.of_cons hu.1
    obtain ⟨inner, opens, closes, rfl, -⟩ := hv.of_group
    rfl
  refine Makes.bind (Makes.inside (makes_functionInputs hg hp h.inputs h.ended (by omega)) : Makes _ _ [_] (fun _ => true) _)
    (fun read hread => ?_) fun _ _ => rfl
  obtain ⟨hinputs, htrailing, hvariadic⟩ := hread
  refine Takes.bind (takes_returnType hg h.output (by omega)) ?_ fun hu hm => endsReturn_of_clause hu.1 hm
  refine Takes.bind_nil ((takes_whereClause? hg h.whereClause (by omega)).mono fun more hm => ?_) (hf nameAt read hinputs htrailing hvariadic)
  obtain ⟨content, opensAt, closesAt, rest, rfl⟩ := exists_of_endsSignature hm
  rfl

theorem opensWith_of_core {s : Signature} {us more : List Token} (hu : Token.AllAgree s.core us) :
    opensWith ["fn"] (us ++ more) = true := by
  obtain ⟨v, vs, rfl, hv, -⟩ := Token.AllAgree.of_cons hu
  obtain ⟨pos, rfl⟩ := hv.of_ident
  rfl

theorem makes_signature (hg : RereadsBounds g bound) (hp : RereadsPatterns g) {s : Signature} (h : s.IsPlain)
    (hsize : Token.sizes s.tokens < bound) : Makes Token.AllMatch (signature g) s.tokens endsSignature (s.Alike Token.AllMatch) := by
  obtain ⟨q, hq, hqualifiers, hasync, hunsafe⟩ := h.qualifiers
  rw [h.tokens_eq, sizes_append] at hsize
  rw [h.tokens_eq]
  have hread : Makes Token.AllMatch (signatureAs g false) (s.qualifiers ++ s.core) endsSignature fun read => s.Alike Token.AllMatch read.1 := by
    rw [hqualifiers]
    refine Makes.keep (copies_qualifiers hq) (fun read written hread hwritten => ?_) fun hu _ => opensWith_of_core hu.1
    subst hread
    refine makes_signatureCore hg hp h (by omega) fun nameAt read hinputs htrailing hvariadic => reads_pure ?_
    exact ⟨hasync.symm, hunsafe.symm, hqualifiers ▸ hwritten, rfl, rfl, hinputs, htrailing, hvariadic.trans h.fixed.symm, rfl, rfl⟩
  exact Makes.bind_nil hread fun read hread => reads_pure hread

/-- What is looked at ahead is what is read there. -/
theorem run_ahead {α : Type} {p : Parser α} {s after : Stream} {a : α} (h : p s = .ok (a, after)) : ahead p s = .ok (a, s) := by
  unfold ahead inspect
  simp only [h]
  rfl

theorem run_startsSignature {s : Signature} (h : s.IsPlain) {us more : List Token} (hu : Token.AllMatch s.tokens us)
    {stream : Stream} (hs : stream.rest = us ++ more) : startsSignature false stream = .ok (true, stream) := by
  obtain ⟨q, hq, hqualifiers, -⟩ := h.qualifiers
  rw [h.tokens_eq, hqualifiers] at hu
  have hlook : Makes Token.AllMatch (do discard (qualifiers false); sees (.word "fn")) (q.tokens ++ []) (opensWith ["fn"]) (· = true) := by
    refine Makes.bind (Copies.discard (copies_qualifiers hq)).makes (fun _ _ => ?_) fun hu hm => by rwa [eq_nil_of_like hu]
    refine reads_nil fun s hm => ⟨true, [], rfl, ?_⟩
    obtain ⟨name, hname, pos, rest, hs⟩ := exists_of_opensWith hm
    obtain rfl := List.mem_singleton.mp hname
    have hfn : (Expected.word "fn").stands s.rest = true := by
      rw [hs]
      rfl
    rw [run_sees, hfn]
    rfl
  rw [List.append_nil] at hlook
  obtain ⟨vs, ws, rfl, hv, hw⟩ := Token.Likeness.of_append hu
  rw [List.append_assoc] at hs
  obtain ⟨_, _, rfl, hrun⟩ := hlook hv (opensWith_of_core hw.1) hs
  exact run_ahead hrun

end Read

end BuilderSynthesis.Syntax
