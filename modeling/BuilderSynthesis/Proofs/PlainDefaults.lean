/-
  BuilderSynthesis.Proofs.PlainDefaults — defaults that are read the same wherever they stand.

  A default is any expression. Literals, paths, calls, members, structs that are written out, tuples,
  invocations of macros, and signs before operands (`IsPlainDefault`) may be put into a larger expression:
  with nothing around them they are read as what they are (`IsPlainDefault.readsAlone`).
-/

import BuilderSynthesis.Proofs.BuilderExpressions

namespace BuilderSynthesis

namespace Syntax

open BuilderSynthesis.Syntax.Parser

def truth (value : Bool) : String := if value then "true" else "false"

/-- Signs that an operand may have. -/
def signs : List String := ["-", "!", "*"]

/-- The form of a plain default. What it contains has this form too. -/
inductive IsPlainDefault : List Token → Prop where
  | operand {atom trailers : List Token} (first : IsPlainAtom IsPlainDefault atom) (others : IsPlainTrailers IsPlainDefault trailers) :
      IsPlainDefault (atom ++ trailers)
  | truth (value : Bool) : IsPlainDefault [Token.word (truth value)]
  | signed {sign : String} {atom trailers : List Token} (known : sign ∈ signs) (first : IsPlainAtom IsPlainDefault atom)
      (others : IsPlainTrailers IsPlainDefault trailers) : IsPlainDefault (Token.symbol sign ++ (atom ++ trailers))
  | invocation {path : PathExpr} {delimiter : Delimiter} {content : List Token} {opensAt closesAt : Position} (bare : path.IsBare) :
      IsPlainDefault (path.tokens ++ (Token.symbol "!" ++ [.group delimiter content opensAt closesAt]))

/-- The expression is written as the tokens say. -/
structure Expression.IsWritten (e : Expression) (ts : List Token) : Prop where
  tokens : Token.AllMatch ts (e.tokens .alone)
  bare : e.withAttributes [] = e
  formed : ∀ content, e ≠ .verbatim content
  whole : e.isRange = false

theorem Expression.Tight.isWritten {e : Expression} {ts : List Token} (h : e.Tight Token.AllMatch ts) : e.IsWritten ts where
  tokens := h.tokens rfl rfl
  bare := h.withAttributes
  formed := by
    rintro content rfl
    cases h
  whole := h.isRange

namespace Read

variable {g : Grammar} {ts : List Token}

/-- An operand that is written as the tokens say is a whole expression. -/
theorem reads_wholeOperand (h : Reads Token.AllMatch (operand g true) ts endsExpression fun e ws => e.IsWritten ts ∧ ws = []) :
    Reads Token.AllMatch (expression g true) ts endsExpression fun e ws => e.IsWritten ts ∧ ws = [] := by
  refine Reads.bind_nil h fun e ws he => ?_
  obtain ⟨he, rfl⟩ := he
  exact reads_nil fun s hm => ⟨e, [], ⟨he, rfl⟩, run_continued he.whole true hm⟩

theorem reads_truth (value : Bool) :
    Reads Token.AllMatch (operand g true) [Token.word (truth value)] endsExpression fun e ws =>
      e.IsWritten [Token.word (truth value)] ∧ ws = [] := by
  have hliteral : Copies Token.AllMatch literal [Token.word (truth value)] endsExpression fun _ => True := by
    intro us more s hu _ hs
    obtain ⟨pos, rfl⟩ := exists_of_word hu
    refine ⟨.boolean value, [Token.word (truth value)], ⟨trivial, Token.Likeness.refl _⟩, ?_⟩
    obtain ⟨_, closesAt, within, leftover, written⟩ := s
    obtain rfl := hs
    cases value <;> rfl
  have hatom : Copies Token.AllMatch (do discard literal; pure Atom.other) [Token.word (truth value)] endsExpression
      fun kind => kind.isClosed = true :=
    Copies.bind_nil (Copies.discard hliteral) fun _ _ => reads_pure ⟨rfl, Token.Likeness.refl _⟩
  have hwhole : Reads Token.AllMatch (operand g true) [Token.word (truth value)] endsExpression fun e ws =>
      e.Tight Token.AllMatch [Token.word (truth value)] ∧ ws = [] := by
    refine reads_operandAt (fun {us more s} hu hs => ?_) ((reads_atomOf hatom).congr fun {us more s} hu _ hs => ?_)
      fun e he => ⟨he.isWritten.bare, he.isWritten.formed⟩
    · obtain ⟨pos, rfl⟩ := exists_of_word hu
      obtain ⟨_, closesAt, within, leftover, written⟩ := s
      obtain rfl := hs
      cases value <;> exact ⟨rfl, rfl, rfl⟩
    · obtain ⟨pos, rfl⟩ := exists_of_word hu
      obtain ⟨_, closesAt, within, leftover, written⟩ := s
      obtain rfl := hs
      cases value <;> rfl
  exact hwhole.imp fun ⟨he, hws⟩ => ⟨he.isWritten, hws⟩

theorem reads_sign {sign : String} (known : sign ∈ signs) {next : List Token → Bool} :
    Reads Token.AllMatch prefixOperator? (Token.symbol sign) next fun read ws =>
      (∃ written, read = some written ∧ Token.AllMatch (Token.symbol sign) written) ∧ ws = [] := by
  have hread : Reads Token.AllMatch (apart (mark sign) >>= fun written => pure (some written)) (Token.symbol sign) next fun read ws =>
      (∃ written, read = some written ∧ Token.AllMatch (Token.symbol sign) written) ∧ ws = [] := by
    refine Reads.bind_nil (Copies.apart (copies_mark sign ?_)) fun written ws hw => ?_
    · exact (by decide : ∀ sign ∈ signs, '\'' ∉ sign.toList) sign known
    · obtain ⟨hw, rfl⟩ := hw
      exact reads_pure ⟨⟨written, rfl, hw⟩, rfl⟩
  refine hread.congr fun {us more s} hu _ hs => ?_
  obtain ⟨_, closesAt, within, leftover, written⟩ := s
  obtain rfl := hs
  simp only [signs, List.mem_cons, List.not_mem_nil, or_false] at known
  rcases known with rfl | rfl | rfl <;>
  · obtain ⟨joint, pos, rfl⟩ := Token.AllAgree.of_symbol_alone hu.1 _ rfl
    rfl

theorem not_attributes_of_sign {sign : String} (known : sign ∈ signs) {us more : List Token} (hu : Token.AllAgree (Token.symbol sign ++ ts) us) :
    (Expected.mark "#").stands (us ++ more) = false := by
  simp only [signs, List.mem_cons, List.not_mem_nil, or_false] at known
  rcases known with rfl | rfl | rfl <;>
  · obtain ⟨joint, pos, vs, rfl, -⟩ := hu.of_symbol _ rfl
    rfl

/-- A sign belongs to the whole operand after it. -/
theorem reads_signed {sign : String} (known : sign ∈ signs)
    (h : Reads Token.AllMatch (g.operand true) ts endsExpression fun e ws => e.Tight Token.AllMatch ts ∧ ws = []) :
    Reads Token.AllMatch (operand g true) (Token.symbol sign ++ ts) endsExpression fun e ws =>
      e.IsWritten (Token.symbol sign ++ ts) ∧ ws = [] := by
  refine reads_operandFrom ?_ fun e he => ⟨he.bare, he.formed⟩
  refine reads_idle [] (fun hu _ hs => run_apartAttributes (hs ▸ not_attributes_of_sign known hu.1)) (reads_ignored (fun s => ⟨_, rfl⟩)
    fun position => ?_)
  refine Reads.bind (reads_sign known : Reads _ _ _ (fun _ => true) _) (fun read ws hread => ?_) fun _ _ => rfl
  obtain ⟨⟨written, rfl, hwritten⟩, rfl⟩ := hread
  refine Reads.bind_nil h fun e ws he => ?_
  obtain ⟨he, rfl⟩ := he
  refine reads_pure ⟨⟨rfl, ⟨?_, rfl, nofun, rfl⟩⟩, rfl⟩
  let right := Surroundings.alone.right false false .prefixed
  have hright : (right.holdsRight e).below .prefixed = false := by
    unfold Surroundings.holdsRight Surroundings.holdsRightBy
    rw [he.holds]
    split <;> rfl
  have htokens : (Expression.prefixed [] written e).tokens .alone =
      written ++ writtenPart e.tokens ((right.holdsRight e).below .prefixed) right := by
    rw [Expression.tokens]
    rfl
  rw [htokens, hright]
  exact Token.Likeness.append hwritten (he.tokens rfl rfl)

theorem isPlain_of_isBare {path : PathExpr} (h : path.IsBare) : path.isPlain = true := by
  obtain ⟨leading, names, -, -, rfl⟩ := h
  exact List.all_eq_true.mpr (List.forall_mem_map.mpr fun _ _ => rfl)

theorem exists_of_bang {delimiter : Delimiter} {content us more : List Token} {opensAt closesAt : Position}
    (hu : Token.AllMatch (Token.symbol "!" ++ [.group delimiter content opensAt closesAt]) us) :
    ∃ joint pos inner opens closes, us ++ more = .punct '!' joint pos :: .group delimiter inner opens closes :: more := by
  obtain ⟨joint, pos, vs, rfl, hv⟩ := hu.1.of_symbol '!' rfl
  obtain ⟨inner, opens, closes, rfl, -⟩ := exists_of_group hv
  exact ⟨joint, pos, inner, opens, closes, rfl⟩

theorem copies_invocationAtom {bound : Nat} (hr : Rereads g bound) {path : PathExpr} (h : path.IsBare)
    (hsize : Token.sizes path.tokens ≤ bound) {delimiter : Delimiter} {content : List Token} {opensAt closesAt : Position} :
    Copies Token.AllMatch (pathAtom g true) (path.tokens ++ (Token.symbol "!" ++ [.group delimiter content opensAt closesAt]))
      endsExpression (· = .invocation delimiter) := by
  refine Copies.bind (copies_pathName hr h hsize) (fun read hread => ?_) fun {us more} hu _ => ?_
  · subst hread
    refine reads_seesBut true (fun {us more} hu _ => ?_) ?_
    · obtain ⟨joint, pos, inner, opens, closes, hcons⟩ := exists_of_bang hu
      rw [hcons]
      cases joint <;> rfl
    · rw [if_pos ((Bool.and_true _).trans (isPlain_of_isBare h))]
      refine Copies.bind (copies_mark "!" (by decide) : Copies _ _ _ (fun _ => true) _) (fun _ _ => ?_) fun _ _ => rfl
      refine Copies.bind_nil copies_anyGroup fun read hread => ?_
      obtain ⟨found, inner, closes⟩ := read
      obtain rfl : found = delimiter := hread
      exact reads_pure ⟨rfl, Token.Likeness.refl _⟩
  · obtain ⟨joint, pos, inner, opens, closes, hcons⟩ := exists_of_bang hu
    rw [hcons]
    rfl

/-- A macro is invoked with any tokens in a bracket. -/
theorem reads_invocation {bound : Nat} (hr : Rereads g bound) {path : PathExpr} (h : path.IsBare) (hsize : Token.sizes path.tokens ≤ bound)
    {delimiter : Delimiter} {content : List Token} {opensAt closesAt : Position} :
    Reads Token.AllMatch (operand g true) (path.tokens ++ (Token.symbol "!" ++ [.group delimiter content opensAt closesAt])) endsExpression
      fun e ws => e.IsWritten (path.tokens ++ (Token.symbol "!" ++ [.group delimiter content opensAt closesAt])) ∧ ws = [] := by
  have hread : Reads Token.AllMatch (atomOf (pathAtom g true))
      (path.tokens ++ (Token.symbol "!" ++ [.group delimiter content opensAt closesAt])) endsExpression fun e ws =>
        e.IsWritten (path.tokens ++ (Token.symbol "!" ++ [.group delimiter content opensAt closesAt])) ∧ ws = [] := by
    refine Reads.bind_nil (Reads.captured (copies_invocationAtom hr h hsize)) fun read ws hread => ?_
    obtain ⟨kind, written⟩ := read
    obtain ⟨⟨hkind, hwritten⟩, rfl⟩ := hread
    obtain rfl : kind = .invocation delimiter := hkind
    refine reads_pure ⟨⟨?_, rfl, nofun, rfl⟩, rfl⟩
    have htokens : (Expression.atom [] (.invocation delimiter) written).tokens .alone = written := by
      rw [Expression.tokens]
      cases delimiter <;> rfl
    rwa [htokens]
  have hhere : ∀ {us more : List Token} {s : Stream},
      Token.AllMatch (path.tokens ++ (Token.symbol "!" ++ [.group delimiter content opensAt closesAt])) us →
        s.rest = us ++ more → OperandHere s := by
    intro us more s hu hs
    obtain ⟨t, rest, rfl, ht⟩ := (opensOperand_of_isBare h).append hu.1
    exact operandHere_of_cons ht hs
  refine reads_operandAt (fun {us more s} hu hs => ?_) (hread.congr fun {us more s} hu _ hs => ?_) fun e he => ⟨he.bare, he.formed⟩
  · exact ⟨hhere hu hs (.mark "#") rfl, run_prefixOperator? (hhere hu hs), run_blockAtom? (hhere hu hs)⟩
  · have here := hhere hu hs
    obtain ⟨vs, ws, rfl, hv, hw⟩ := Token.Likeness.of_append hu
    obtain ⟨t, rest, hcons, ht, hstands⟩ := exists_of_isBare h hv.1
    obtain ⟨hliteral, hpath⟩ := hstands (ws ++ more)
    rw [List.append_assoc] at hs
    have hhash : (Expected.mark "#").stands (afterTree s.rest) = false := by
      rw [hs]
      refine not_stands_second h (fun _ _ _ => rfl) hv.1 ?_
      obtain ⟨joint, pos, inner, opens, closes, hcons⟩ := exists_of_bang hw
      rw [hcons]
      rfl
    rw [← hs] at hliteral hpath
    exact run_simpleAtom_of_path here hliteral (by rw [hhash, Bool.and_false]) hpath

end Read

section

variable {ts us : List Token}

theorem IsPlainDefault.ne_nil (h : IsPlainDefault ts) : ts ≠ [] := by
  cases h with
  | operand first => exact List.append_ne_nil_of_left_ne_nil first.ne_nil _
  | truth value => exact List.cons_ne_nil _ _
  | signed known first => exact List.append_ne_nil_of_right_ne_nil _ (List.append_ne_nil_of_left_ne_nil first.ne_nil _)
  | invocation bare => exact List.append_ne_nil_of_right_ne_nil _ (List.cons_ne_nil _ _)

/-- Every deep grammar reads a plain default as it is written. -/
theorem IsPlainDefault.reads (h : IsPlainDefault ts) : ∀ depth, Token.sizes ts < depth →
    Reads Token.AllMatch (Read.expression (grammar depth) true) ts endsExpression fun e ws => e.IsWritten ts ∧ ws = [] := by
  induction hn : Token.sizes ts using Nat.strong_induction_on generalizing ts with
  | h n ih =>
    subst hn
    have hinner : ∀ e, Token.sizes e < Token.sizes ts → IsPlainDefault e → ReadsAlone e := fun e he h depth hsize =>
      .of_reads h.ne_nil ((ih _ he h rfl depth hsize).imp fun ⟨he, hws⟩ => ⟨he.tokens, hws⟩)
    have hoperand : ∀ {atom trailers : List Token}, IsPlainAtom IsPlainDefault atom → IsPlainTrailers IsPlainDefault trailers →
        Token.sizes (atom ++ trailers) ≤ Token.sizes ts → IsOperand (atom ++ trailers) := by
      intro atom trailers first others hle
      rw [sizes_append] at hle
      exact isOperand_of_atom (first.imp fun e he h => hinner e (by omega) h) (others.imp fun e he h => hinner e (by omega) h)
    intro depth hsize
    cases h with
    | operand first others =>
      obtain ⟨depth, rfl⟩ : ∃ d, depth = d + 1 := ⟨depth - 1, by omega⟩
      exact ((hoperand first others le_rfl).reads_expression depth (by omega)).imp fun ⟨he, hws⟩ => ⟨he.isWritten, hws⟩
    | truth value => exact Read.reads_wholeOperand (Read.reads_truth value)
    | @signed sign atom trailers known first others =>
      have hsign : 0 < Token.sizes (Token.symbol sign) := (by decide : ∀ sign ∈ signs, 0 < Token.sizes (Token.symbol sign)) sign known
      rw [sizes_append] at hsize hoperand
      obtain ⟨depth, rfl⟩ : ∃ d, depth = d + 2 := ⟨depth - 2, by omega⟩
      have hread := ((hoperand first others (by omega)).reads depth (by omega)).mono fun _ => Read.endsOperand_of_endsExpression
      exact Read.reads_wholeOperand (Read.reads_signed known hread)
    | @invocation path delimiter content opensAt closesAt bare =>
      rw [sizes_append] at hsize
      obtain ⟨depth, rfl⟩ : ∃ d, depth = d + 1 := ⟨depth - 1, by omega⟩
      exact Read.reads_wholeOperand (Read.reads_invocation (rereads_grammar depth) bare (by omega))

/-- A plain default may stand alone. -/
theorem IsPlainDefault.readsAlone (h : IsPlainDefault ts) : ReadsAlone ts := fun depth hsize =>
  .of_reads h.ne_nil ((h.reads depth hsize).imp fun ⟨he, hws⟩ => ⟨he.tokens, hws⟩)

/-- Only what is written counts. -/
theorem Printable.of_match (h : Printable ts) (hu : Token.AllMatch ts us) : Printable us := by
  induction h generalizing us with
  | nil => exact hu.1.of_nil ▸ .nil
  | word h rest ih =>
    obtain ⟨v, vs, rfl, hv, hvs⟩ := hu.1.of_cons
    obtain ⟨pos, rfl⟩ := hv.of_ident
    exact .word h (ih ⟨hvs, hu.2.2⟩)
  | literal h rest ih =>
    obtain ⟨v, vs, rfl, hv, hvs⟩ := hu.1.of_cons
    obtain ⟨pos, rfl⟩ := hv.of_literal
    exact .literal h (ih ⟨hvs, hu.2.2⟩)
  | mark h ne rest ih =>
    obtain ⟨v, vs, rfl, hv, hvs⟩ := hu.1.of_cons
    obtain ⟨joint, pos, rfl, -⟩ := hv.of_punct
    obtain rfl : joint = false := Bool.eq_false_iff.mpr fun hj => Bool.false_ne_true (hu.2.1.2 hj)
    exact .mark h ne (ih ⟨hvs, hu.2.2⟩)
  | joint h ne hd rest ih =>
    obtain ⟨v, vs, rfl, hv, hvs⟩ := hu.1.of_cons
    obtain ⟨joint, pos, rfl, hj⟩ := hv.of_punct
    obtain rfl := hj rfl
    obtain ⟨w, ws, rfl, hw, -⟩ := hvs.of_cons
    obtain ⟨joint, pos, rfl, -⟩ := hw.of_punct
    exact .joint h ne hd (ih ⟨hvs, hu.2.2⟩)
  | lifetime h rest ih =>
    obtain ⟨v, vs, rfl, hv, hvs⟩ := hu.1.of_cons
    obtain ⟨joint, pos, rfl, hj⟩ := hv.of_punct
    obtain rfl := hj rfl
    obtain ⟨w, ws, rfl, hw, hws⟩ := hvs.of_cons
    obtain ⟨pos, rfl⟩ := hw.of_ident
    exact .lifetime h (ih ⟨hws, hu.2.2.2⟩)
  | group content rest ihc ih =>
    obtain ⟨v, vs, rfl, hv, hvs⟩ := hu.1.of_cons
    obtain ⟨inner, opens, closes, rfl, hinner⟩ := hv.of_group
    exact .group (ihc ⟨hinner, hu.2.1.2⟩) (ih ⟨hvs, hu.2.2⟩)

end

end Syntax

open Syntax

/-- The text has the tokens of a plain default, and their text has these tokens again. -/
def Default.IsPlain (text : String) : Prop :=
  ∃ ts us, IsPlainDefault ts ∧ Printable ts ∧ tokensOf text.toList = .ok us ∧ Token.AllMatch ts us

end BuilderSynthesis
