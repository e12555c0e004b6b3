/-
  BuilderSynthesis.Proofs.FunctionReading — the parameters of functions are read again.

  A plain parameter is a name, perhaps bound as a mutable one, and a plain type. A reader that comes upon
  the tokens of such parameters makes the same names and types of them, with attributes and patterns that
  are alike (`makes_functionInputs`).
-/

import BuilderSynthesis.Proofs.ItemReading

namespace BuilderSynthesis.Syntax

open BuilderSynthesis.Syntax.Parser

/-! ## Parameters -/

/-- A name that is bound, perhaps as a mutable one. -/
def bindingTokens (mutable : Bool) (name : String) : List Token := (if mutable then [Token.word "mut"] else []) ++ [Token.word name]

/-- A colon stands here alone, or an equals sign. -/
def endsBinding : List Token → Bool
  | .punct ':' false _ :: _ => true
  | .punct '=' _ _ :: _ => true
  | _ => false

namespace Read

section

variable {g : Grammar} {like : List Token → List Token → Prop}

theorem run_discardUnworded {word : String} {s : Stream} (h : (Expected.word word).stands s.rest = false) :
    discard (word? word) s = .ok ((), s) := by
  have hword : word? word s = .ok (false, s) := by
    unfold word?
    rw [run_bind, run_sees, h]
    rfl
  show (word? word >>= fun _ => pure ()) s = .ok ((), s)
  rw [run_bind, hword]
  rfl

theorem reads_discardUnworded {α : Type} {word : String} {f : Unit → Parser α} {ts : List Token} {next : List Token → Bool}
    {holds : α → List Token → Prop}
    (hne : ∀ {us more}, like ts us → next more = true → (Expected.word word).stands (us ++ more) = false)
    (hf : Reads like (f ()) ts next holds) : Reads like (discard (word? word) >>= f) ts next holds :=
  reads_idle () (fun hu hm hs => run_discardUnworded (hs ▸ hne hu hm)) hf

variable [Token.Likeness like]

theorem exists_of_endsBinding {ts : List Token} (h : endsBinding ts = true) :
    (∃ pos rest, ts = .punct ':' false pos :: rest) ∨ ∃ joint pos rest, ts = .punct '=' joint pos :: rest := by
  unfold endsBinding at h
  split at h
  · exact Or.inl ⟨_, _, rfl⟩
  · exact Or.inr ⟨_, _, _, rfl⟩
  · cases h

theorem run_startsPathPattern {name : String} (h : isReserved name = false) {s : Stream} {pos : Position} {more : List Token}
    (hs : s.rest = .ident name pos :: more) (hm : endsBinding more = true) : startsPathPattern s = .ok (false, s) := by
  have hself : (name == "self") = false := beq_eq_false_iff_ne.mpr (ne_of_not_isReserved h (by decide))
  have hSelf : (name == "Self") = false := beq_eq_false_iff_ne.mpr (ne_of_not_isReserved h (by decide))
  have hsuper : (name == "super") = false := beq_eq_false_iff_ne.mpr (ne_of_not_isReserved h (by decide))
  have hcrate : (name == "crate") = false := beq_eq_false_iff_ne.mpr (ne_of_not_isReserved h (by decide))
  unfold startsPathPattern
  rcases exists_of_endsBinding hm with ⟨endAt, rest, rfl⟩ | ⟨joint, endAt, rest, rfl⟩ <;>
  · simp only [run_bind, run_sees, run_seesSecond, run_ite, run_seesAny, run_pure, hs, Expected.stands, h, afterTree,
      List.any_cons, List.any_nil, hself, hSelf, hsuper, hcrate]
    rfl

theorem copies_bindingPattern (mutable : Bool) {name : String} (h : isReserved name = false) :
    Copies like (bindingPattern g) (bindingTokens mutable name) endsBinding fun shape => ∃ pos, shape = .binding name pos false false := by
  have hname : Copies like (do
      let position ← here
      let name ← (do if ← sees (.word "self") then anyWord else identifier)
      let hasSubpattern ← (do
        if ← mark? "@" then
          discard g.pattern
          pure true
        else pure false)
      pure (PatternShape.binding name position false hasSubpattern)) [Token.word name] endsBinding
        fun shape => ∃ pos, shape = .binding name pos false false := by
    refine reads_ignored (fun s => ⟨_, rfl⟩) fun position => ?_
    have hidentifier : Copies like (do if ← sees (.word "self") then anyWord else identifier) [Token.word name] endsBinding (· = name) := by
      refine reads_sees false (fun hu _ => ?_) (copies_identifier h)
      obtain ⟨pos, rfl⟩ := exists_of_word hu
      exact beq_eq_false_iff_ne.mpr (ne_of_not_isReserved h (by decide))
    refine hidentifier.bind_nil fun found hf => ?_
    subst hf
    have hmark : Copies like (do
        if ← mark? "@" then
          discard g.pattern
          pure true
        else pure false) [] endsBinding (· = false) := by
      refine reads_unmarked (fun hu hm => ?_) (reads_pure ⟨rfl, Token.Likeness.refl _⟩)
      rw [eq_nil_of_like hu]
      rcases exists_of_endsBinding hm with ⟨pos, rest, rfl⟩ | ⟨joint, pos, rest, rfl⟩ <;> rfl
    refine hmark.bind_nil fun sub hsub => ?_
    subst hsub
    exact reads_pure ⟨⟨position, rfl⟩, Token.Likeness.refl _⟩
  cases mutable with
  | true =>
    refine reads_unworded (fun hu _ => ?_) ?_
    · obtain ⟨v, vs, rfl, hv, -⟩ := Token.AllAgree.of_cons (Token.Likeness.agree hu)
      obtain ⟨pos, rfl⟩ := hv.of_ident
      rfl
    exact Copies.bind (Copies.discard copies_word? : Copies like _ _ (fun _ => true) _) (fun _ _ => hname) fun _ _ => rfl
  | false =>
    refine reads_unworded (fun hu _ => ?_) (reads_discardUnworded (fun hu _ => ?_) hname)
    · obtain ⟨pos, rfl⟩ := exists_of_word hu
      exact beq_eq_false_iff_ne.mpr (ne_of_not_isReserved h (by decide))
    · obtain ⟨pos, rfl⟩ := exists_of_word hu
      exact beq_eq_false_iff_ne.mpr (ne_of_not_isReserved h (by decide))


theorem copies_pattern (mutable : Bool) {name : String} (h : isReserved name = false) :
    Copies like (pattern g) (bindingTokens mutable name) endsBinding fun shape => ∃ pos, shape = .binding name pos false false := by
  have hfirst : ∀ {us : List Token}, like (bindingTokens mutable name) us →
      ∃ first pos rest, us = .ident first pos :: rest ∧ (first = "mut" ∨ isReserved first = false) := by
    intro us hu
    cases mutable with
    | true =>
      obtain ⟨v, vs, rfl, hv, -⟩ := Token.AllAgree.of_cons (Token.Likeness.agree hu)
      obtain ⟨pos, rfl⟩ := hv.of_ident
      exact ⟨"mut", pos, vs, rfl, Or.inl rfl⟩
    | false =>
      obtain ⟨pos, rfl⟩ := exists_of_word hu
      exact ⟨name, pos, [], rfl, Or.inr h⟩
  have hword : ∀ {first word : String}, (first = "mut" ∨ isReserved first = false) → isReserved word = true → word ≠ "mut" →
      (first == word) = false := by
    rintro first word (rfl | hfree) hreserved hne
    · exact beq_eq_false_iff_ne.mpr hne.symm
    · exact beq_eq_false_iff_ne.mpr (ne_of_not_isReserved hfree hreserved)
  refine reads_idle false (fun {us more s} hu hm hs => ?_) ?_
  · cases mutable with
    | true =>
      obtain ⟨v, vs, rfl, hv, -⟩ := Token.AllAgree.of_cons (Token.Likeness.agree hu)
      obtain ⟨pos, rfl⟩ := hv.of_ident
      obtain ⟨_, closesAt, within, leftover, written⟩ := s
      obtain rfl := hs
      rfl
    | false =>
      obtain ⟨pos, rfl⟩ := exists_of_word hu
      exact run_startsPathPattern h hs hm
  refine reads_unworded (fun hu _ => ?_) (reads_sees false (fun hu _ => ?_) ?_)
  · obtain ⟨first, pos, rest, rfl, hf⟩ := hfirst hu
    exact hword hf (by decide) (by decide)
  · obtain ⟨first, pos, rest, rfl, hf⟩ := hfirst hu
    exact hword hf (by decide) (by decide)
  refine reads_seesAny false (fun hu _ => ?_) (reads_seesAny true (fun hu _ => ?_) (copies_bindingPattern mutable h))
  · obtain ⟨first, pos, rest, rfl, hf⟩ := hfirst hu
    have hliteral : (first == "true" || first == "false") = false :=
      Bool.or_eq_false_iff.mpr ⟨hword hf (by decide) (by decide), hword hf (by decide) (by decide)⟩
    have hconst : (first == "const") = false := hword hf (by decide) (by decide)
    show (false || ((first == "true" || first == "false") || ((first == "const") || false))) = false
    rw [hliteral, hconst]
    rfl
  · obtain ⟨first, pos, rest, rfl, hf⟩ := hfirst hu
    rcases hf with rfl | hfree
    · rfl
    · refine List.any_eq_true.mpr ⟨.identifier, by decide, (Bool.not_eq_true' _).mpr hfree⟩

end

end Read

/-- A plain parameter binds its value to a name that is not reserved, and has a plain type. -/
inductive FunctionInput.IsPlain : FunctionInput → Prop where
  | typed {attributes pos mutable name type} (plain : ∀ a ∈ attributes, a.IsPlain false) (free : isReserved name = false)
      (plainType : type.isPlain = true) (proper : type.Proper) :
      IsPlain (.typed attributes (.binding name pos false false) (bindingTokens mutable name) type)

/-- The parameters bind the same name and have the same type. -/
inductive FunctionInput.Alike (like : List Token → List Token → Prop) : FunctionInput → FunctionInput → Prop where
  | typed {attributes attributes' name pos pos' tokens tokens' type} (attrs : List.Forall₂ (Attribute.Alike like) attributes attributes')
      (written : like tokens tokens') :
      Alike like (.typed attributes (.binding name pos false false) tokens type) (.typed attributes' (.binding name pos' false false) tokens' type)

namespace Read

variable {g : Grammar} {bound : Nat}

/-- A grammar reads the patterns that bind a name. -/
def RereadsPatterns (g : Grammar) : Prop :=
  ∀ (mutable : Bool) {name : String}, isReserved name = false →
    Copies Token.AllMatch g.pattern (bindingTokens mutable name) endsBinding fun shape => ∃ pos, shape = .binding name pos false false

theorem rereadsPatterns_layer (g : Grammar) : RereadsPatterns (layer g) := fun mutable _ h => copies_pattern mutable h

theorem exists_of_bindingTokens {mutable : Bool} {name : String} {us : List Token} (hu : Token.AllAgree (bindingTokens mutable name) us) :
    (mutable = true ∧ ∃ pos nameAt, us = [.ident "mut" pos, .ident name nameAt]) ∨ (mutable = false ∧ ∃ pos, us = [.ident name pos]) := by
  cases mutable with
  | true =>
    obtain ⟨v, vs, rfl, hv, hvs⟩ := hu.of_cons
    obtain ⟨pos, rfl⟩ := hv.of_ident
    obtain ⟨nameAt, rfl⟩ := exists_of_word hvs
    exact Or.inl ⟨rfl, pos, nameAt, rfl⟩
  | false =>
    obtain ⟨pos, rfl⟩ := exists_of_word hu
    exact Or.inr ⟨rfl, pos, rfl⟩

theorem run_startsReceiver {mutable : Bool} {name : String} (h : isReserved name = false) {us more : List Token} {s : Stream}
    (hu : Token.AllAgree (bindingTokens mutable name) us) (hm : endsBinding more = true) (hs : s.rest = us ++ more) :
    startsReceiver s = .ok (false, s) := by
  have hself : (name == "self") = false := beq_eq_false_iff_ne.mpr (ne_of_not_isReserved h (by decide))
  have hpath : (Expected.mark "::").stands more = false := by
    rcases exists_of_endsBinding hm with ⟨pos, rest, rfl⟩ | ⟨joint, pos, rest, rfl⟩ <;> rfl
  rcases exists_of_bindingTokens hu with ⟨-, pos, nameAt, rfl⟩ | ⟨-, pos, rfl⟩
  · obtain ⟨_, closesAt, within, leftover, written⟩ := s
    obtain rfl := hs
    show Except.ok ((name == "self") && !(Expected.mark "::").stands more, _) = _
    rw [hself, hpath]
    rfl
  · have hmark : mark? "&" s = .ok (false, s) := by
      unfold mark?
      rw [run_bind, run_sees, hs]
      rfl
    have hword : discard (word? "mut") s = .ok ((), s) :=
      run_discardUnworded (hs ▸ beq_eq_false_iff_ne.mpr (ne_of_not_isReserved h (by decide)))
    unfold startsReceiver ahead inspect
    simp only [run_bind, hmark, Bool.false_eq_true, if_false, hword, run_sees, run_seesSecond, run_pure, hs]
    show Except.ok ((name == "self") && !(Expected.mark "::").stands more, _) = _
    rw [hself, hpath]
    rfl

theorem makes_functionInput (hg : RereadsBounds g bound) (hp : RereadsPatterns g) {i : FunctionInput} (h : i.IsPlain)
    (hsize : Token.sizes i.tokens < bound) :
    Makes Token.AllMatch (functionInput g) i.tokens endsField fun read => ∃ i', read = .typed i' ∧ i.Alike Token.AllMatch i' := by
  obtain @⟨attrs, pos, mutable, name, type, hattrs, hfree, hplain, hproper⟩ := h
  simp only [FunctionInput.tokens, List.append_assoc] at hsize ⊢
  simp only [sizes_append] at hsize
  have hcolon : ∀ {us more : List Token}, Token.AllMatch (Token.symbol ":" ++ type.tokens) us → endsBinding (us ++ more) = true := by
    intro us more hu
    obtain ⟨pos, vs, rfl, -⟩ := Token.AllMatch.of_punct hu
    rfl
  have hfirst : ∀ {us more : List Token}, Token.AllMatch (bindingTokens mutable name ++ (Token.symbol ":" ++ type.tokens)) us →
      ∃ vs ws, us ++ more = vs ++ ws ∧ Token.AllAgree (bindingTokens mutable name) vs ∧ endsBinding ws = true := by
    intro us more hu
    obtain ⟨vs, ws, rfl, hv, hw⟩ := Token.Likeness.of_append hu
    exact ⟨vs, ws ++ more, List.append_assoc .., hv.1, hcolon hw⟩
  refine Makes.bind (copies_outerAttributes hattrs).makes (fun attrs' hattrs' => ?_) fun hu _ => ?_
  rotate_left
  · obtain ⟨vs, ws, h, hv, -⟩ := hfirst hu
    rw [h]
    rcases exists_of_bindingTokens hv with ⟨-, pos, nameAt, rfl⟩ | ⟨-, pos, rfl⟩ <;> rfl
  refine reads_sees false (fun hu _ => ?_) ?_
  · obtain ⟨vs, ws, h, hv, -⟩ := hfirst hu
    rw [h]
    rcases exists_of_bindingTokens hv with ⟨-, pos, nameAt, rfl⟩ | ⟨-, pos, rfl⟩ <;> rfl
  refine reads_idle false (fun hu _ hs => ?_) ?_
  · obtain ⟨vs, ws, h, hv, hw⟩ := hfirst hu
    exact run_startsReceiver hfree hv hw (hs.trans h)
  refine reads_sees (!mutable) (fun hu _ => ?_) ?_
  · obtain ⟨vs, ws, h, hv, hw⟩ := hfirst hu
    rw [h]
    rcases exists_of_bindingTokens hv with ⟨rfl, pos, nameAt, rfl⟩ | ⟨rfl, pos, rfl⟩
    · rfl
    · exact (Bool.not_eq_true' _).mpr hfree
  refine reads_seesSecond false (fun hu _ => ?_) ?_
  · obtain ⟨vs, ws, h, hv, hw⟩ := hfirst hu
    rw [h]
    rcases exists_of_endsBinding hw with ⟨endAt, rest, rfl⟩ | ⟨joint, endAt, rest, rfl⟩ <;>
      rcases exists_of_bindingTokens hv with ⟨-, pos, nameAt, rfl⟩ | ⟨-, pos, rfl⟩ <;> rfl
  rw [Bool.and_false, if_neg Bool.false_ne_true]
  refine Makes.keep (hp mutable hfree) (fun shape pattern hshape hpattern => ?_) fun hu _ => hcolon hu
  obtain ⟨nameAt, rfl⟩ := hshape
  refine Takes.bind (takes_mark ":" (by decide) : Takes _ _ _ (fun _ => true) _) ?_ fun _ _ => rfl
  refine reads_unmarked (fun hu _ => (opensType_tokens hplain hproper).not_stands (by decide) hu.1) ?_
  have htype : Takes Token.AllMatch (g.type true) type.tokens endsType type := Reads.of_agree (hg.types true type hplain hproper (by omega))
  exact Takes.bind_nil (htype.mono fun _ => endsType_of_endsField) (reads_pure ⟨_, rfl, .typed hattrs' hpattern⟩)

end Read

theorem FunctionInput.IsPlain.tokens_ne_nil {i : FunctionInput} (h : i.IsPlain) : i.tokens ≠ [] := by
  cases h
  simp [FunctionInput.tokens, bindingTokens]

namespace Read

variable {g : Grammar} {bound : Nat}

/-- One turn over the parameters of a function. -/
def inputsStep (g : Grammar) (read : InputsRead) : Parser (Turn InputsRead InputsRead) := do
  if ← atEnd then return .done read
  match ← functionInput g with
  | .variadic tokens =>
    if ← atEnd then return .done { read with variadic := tokens }
    mark ","
    return .done { read with variadic := tokens ++ Token.symbol "," }
  | .receiver input selfAt =>
    if read.hasReceiver then failAt selfAt .secondReceiver
    else if !read.inputs.isEmpty then failAt selfAt .lateReceiver
    else functionInputs.next { read with inputs := read.inputs ++ [input], hasReceiver := true }
  | .typed input => functionInputs.next { read with inputs := read.inputs ++ [input] }

/-- A parameter, with the comma after it or at the end. -/
theorem makes_inputsStep (hg : RereadsBounds g bound) (hp : RereadsPatterns g) {i : FunctionInput} (h : i.IsPlain)
    (hsize : Token.sizes i.tokens < bound) (read : InputsRead) (comma : Bool) :
    Makes Token.AllMatch (inputsStep g read) (i.tokens ++ if comma then Token.symbol "," else []) 
      (fun more => comma || more.isEmpty) fun turn => ∃ i', i.Alike Token.AllMatch i' ∧
        turn = if comma then .again { read with inputs := read.inputs ++ [i'], trailing := true }
          else .done { read with inputs := read.inputs ++ [i'], trailing := false } := by
  refine reads_atEnd false (fun {us more} hu _ => ?_) ?_
  · obtain ⟨vs, ws, rfl, hv, -⟩ := Token.Likeness.of_append hu
    cases vs with
    | cons v rest => rfl
    | nil => exact absurd (List.length_eq_zero_iff.mp (Token.length_of_allAgree hv.1).symm) h.tokens_ne_nil
  refine Makes.bind (makes_functionInput hg hp h hsize) (fun parameter hparameter => ?_) fun hu hm => ?_
  · obtain ⟨i', rfl, halike⟩ := hparameter
    cases comma with
    | true =>
      refine reads_atEnd false (fun hu _ => ?_) ?_
      · obtain ⟨joint, pos, rfl⟩ := Token.AllAgree.of_symbol_alone (hu.1 : Token.AllAgree (Token.symbol ",") _) ',' rfl
        rfl
      · exact Makes.bind_nil (copies_mark "," (by decide)).makes fun _ _ => reads_pure ⟨i', halike, rfl⟩
    | false =>
      refine reads_atEnd true (fun hu hm => ?_) (reads_pure ⟨i', halike, rfl⟩)
      rw [eq_nil_of_like hu]
      exact hm
  · cases comma with
    | true =>
      obtain ⟨joint, pos, rfl⟩ := Token.AllAgree.of_symbol_alone (hu.1 : Token.AllAgree (Token.symbol ",") _) ',' rfl
      rfl
    | false =>
      rw [eq_nil_of_like hu]
      exact Bool.or_eq_true_iff.mpr (Or.inr hm)

/-- Parameters after others that have been read. -/
theorem makes_turnsOfInputs (hg : RereadsBounds g bound) (hp : RereadsPatterns g) {inputs : List FunctionInput} {trailing : Bool}
    (h : ∀ i ∈ inputs, i.IsPlain) (hsize : Token.sizes (commas trailing (inputs.map FunctionInput.tokens)) < bound) (read : InputsRead)
    (n : Nat) (hn : (commas trailing (inputs.map FunctionInput.tokens)).length < n) :
    Makes Token.AllMatch (turns (inputsStep g) n read) (commas trailing (inputs.map FunctionInput.tokens)) List.isEmpty fun found =>
      ∃ others, found = { read with inputs := read.inputs ++ others, trailing := if inputs.isEmpty then read.trailing else trailing } ∧
        List.Forall₂ (FunctionInput.Alike Token.AllMatch) inputs others := by
  have hsizes : ∀ i ∈ inputs, Token.sizes i.tokens < bound := fun i hi =>
    Nat.lt_of_le_of_lt (sizes_le_commas trailing (List.mem_map_of_mem (f := FunctionInput.tokens) hi)) hsize
  clear hsize
  induction inputs generalizing read n with
  | nil =>
    obtain ⟨n, rfl⟩ : ∃ k, n = k + 1 := ⟨n - 1, by omega⟩
    have hstep : Makes Token.AllMatch (inputsStep g read) [] List.isEmpty (· = .done read) := by
      refine reads_atEnd true (fun hu hm => ?_) (reads_pure rfl)
      rw [eq_nil_of_like hu]
      exact hm
    refine Makes.bind_nil hstep fun turn ht => ?_
    subst ht
    exact reads_pure ⟨[], by rw [List.append_nil]; rfl, .nil⟩
  | cons i rest ih =>
    obtain ⟨n, rfl⟩ : ∃ k, n = k + 1 := ⟨n - 1, by omega⟩
    have hi := h i List.mem_cons_self
    have hsize := hsizes i List.mem_cons_self
    by_cases hlast : rest = [] ∧ trailing = false
    · obtain ⟨rfl, rfl⟩ := hlast
      have hstep := makes_inputsStep hg hp hi hsize read false
      refine Makes.bind_nil (hstep.mono fun more hm => hm) fun turn ht => ?_
      obtain ⟨i', halike, rfl⟩ := ht
      exact reads_pure ⟨[i'], rfl, .cons halike .nil⟩
    · have hmore : rest.map FunctionInput.tokens = [] → trailing = true := fun he =>
        Bool.not_eq_false _ ▸ fun hf => hlast ⟨List.map_eq_nil_iff.mp he, hf⟩
      rw [List.map_cons, commas_cons hmore] at hn ⊢
      rw [List.length_append, List.length_append, show (Token.symbol ",").length = 1 from rfl] at hn
      have hstep : Makes Token.AllMatch (inputsStep g read) (i.tokens ++ Token.symbol ",") (fun _ => true) _ :=
        makes_inputsStep hg hp hi hsize read true
      rw [← List.append_assoc]
      refine Makes.bind hstep (fun turn ht => ?_) fun _ _ => rfl
      obtain ⟨i', halike, rfl⟩ := ht
      refine (ih (fun j hj => h j (List.mem_cons_of_mem _ hj)) _ n (by omega) fun j hj => hsizes j (List.mem_cons_of_mem _ hj)).imp ?_
      rintro found ws ⟨others, rfl, hall⟩
      refine ⟨i' :: others, ?_, .cons halike hall⟩
      rw [List.append_assoc]
      cases rest with
      | nil => rw [hmore rfl]; rfl
      | cons j more => rfl

theorem makes_functionInputs (hg : RereadsBounds g bound) (hp : RereadsPatterns g) {inputs : List FunctionInput} {trailing : Bool}
    (h : ∀ i ∈ inputs, i.IsPlain) (hended : inputs = [] → trailing = false)
    (hsize : Token.sizes (commas trailing (inputs.map FunctionInput.tokens)) < bound) :
    Makes Token.AllMatch (functionInputs g) (commas trailing (inputs.map FunctionInput.tokens)) List.isEmpty fun read =>
      List.Forall₂ (FunctionInput.Alike Token.AllMatch) inputs read.inputs ∧ read.trailing = trailing ∧ read.variadic = [] := by
  refine Reads.loop fun n hn => (makes_turnsOfInputs hg hp h hsize ⟨[], false, [], false⟩ n hn).imp ?_
  rintro found ws ⟨others, rfl, hall⟩
  refine ⟨hall, ?_, rfl⟩
  cases inputs with
  | nil => exact (hended rfl).symm
  | cons i rest => rfl

end Read

end BuilderSynthesis.Syntax
