/-
  BuilderSynthesis.Proofs.BuilderExpressions — the expressions that builders are written with.

  What a builder contains is read by every grammar that is deep enough for it. For an expression with
  nothing around it this is `ReadsAlone`; for an operand, which may also begin a statement, `IsOperand`.
  Operands are put together from parts that may each stand alone, such as the defaults of a plan. To the
  plain expressions come structs that take the rest of their fields from another value.
-/

import BuilderSynthesis.Builder.Fragment
import BuilderSynthesis.Proofs.BlockReading

namespace BuilderSynthesis.Syntax

open BuilderSynthesis.Syntax.Parser

instance (name : String) : Decidable (IsPlainName name) :=
  inferInstanceAs (Decidable (IsIdentifier name ∧ isPathName name = true ∧ name ≠ "try"))

/-- Every grammar that is deep enough reads the tokens as an expression with nothing around it. -/
def ReadsAlone (ts : List Token) : Prop :=
  ∀ depth, Token.sizes ts < depth → Read.Alone Token.AllMatch (grammar (depth + 1)) ts

namespace Token

mutual

theorem Agrees.trans : ∀ {t u v : Token}, t.Agrees u → u.Agrees v → t.Agrees v
  | .ident .., .ident .., .ident .., h, h' => Eq.trans h h'
  | .punct .., .punct .., .punct .., h, h' => ⟨h.1.trans h'.1, fun hj => h'.2 (h.2 hj)⟩
  | .literal .., .literal .., .literal .., h, h' => Eq.trans h h'
  | .group .., .group .., .group .., h, h' => ⟨h.1.trans h'.1, AllAgree.trans h.2 h'.2⟩

theorem AllAgree.trans : ∀ {ts us vs : List Token}, AllAgree ts us → AllAgree us vs → AllAgree ts vs
  | [], [], [], _, _ => trivial
  | _ :: _, _ :: _, _ :: _, h, h' => ⟨Agrees.trans h.1 h'.1, AllAgree.trans h.2 h'.2⟩

end

theorem AllMatch.trans {ts us vs : List Token} (h : AllMatch ts us) (h' : AllMatch us vs) : AllMatch ts vs :=
  ⟨h.1.trans h'.1, h'.2.trans h.2⟩

theorem AllMatch.symm {ts us : List Token} (h : AllMatch ts us) : AllMatch us ts := And.symm h

end Token

/-- An operand, which may begin a statement. -/
structure IsOperand (ts : List Token) : Prop where
  opens : Read.OpensOperand ts
  starts : ∀ {us more}, Token.AllMatch ts us → endsOperand more = true → Read.StartsPlainly Token.AllMatch (us ++ more)
  reads : ∀ depth, Token.sizes ts ≤ depth →
    Reads Token.AllMatch (Read.operand (grammar (depth + 1)) true) ts endsOperand fun e ws => e.Tight Token.AllMatch ts ∧ ws = []

section

variable {ts us : List Token}

theorem IsPlainExpression.readsAlone (h : IsPlainExpression ts) : ReadsAlone ts := fun depth hsize =>
  (rereadsExpressions_grammar depth).alone h hsize

/-- Only what is written counts. -/
theorem ReadsAlone.of_match (h : ReadsAlone ts) (hu : Token.AllMatch ts us) : ReadsAlone us := by
  intro depth hsize
  obtain ⟨hne, hcopies⟩ := h depth (sizes_of_allAgree hu.1 ▸ hsize)
  refine ⟨fun he => hne ?_, fun vs more s hv hm hs => ?_⟩
  · subst he
    exact hu.2.of_nil
  · obtain ⟨a, ws, ⟨-, hws⟩, hrun⟩ := hcopies (hu.trans hv) hm hs
    exact ⟨a, ws, ⟨trivial, hu.symm.trans hws⟩, hrun⟩

/-- An atom with trailers whose parts may stand alone. -/
theorem isOperand_of_atom {atom trailing : List Token} (first : IsPlainAtom ReadsAlone atom)
    (others : IsPlainTrailers ReadsAlone trailing) : IsOperand (atom ++ trailing) where
  opens := (Read.opensOperand_of_plainAtom first).append
  starts hu hm := Read.startsPlainly_of_atom first others hu hm
  reads depth hsize := by
    rw [sizes_append] at hsize
    exact Read.reads_operandOf (Read.opensOperand_of_plainAtom first)
      (Read.reads_simpleAtom (rereads_grammar depth) (first.imp fun e he h => h depth (by omega)) (by omega))
      (others.imp fun e he h => h depth (by omega))

theorem IsOperand.ne_nil (h : IsOperand ts) : ts ≠ [] := by
  obtain ⟨t, rest, rfl, -⟩ := h.opens (Token.AllAgree.refl _)
  exact List.cons_ne_nil _ _

theorem IsOperand.reads_expression (h : IsOperand ts) (depth : Nat) (hsize : Token.sizes ts ≤ depth) :
    Reads Token.AllMatch (Read.expression (grammar (depth + 1)) true) ts endsExpression fun e ws =>
      e.Tight Token.AllMatch ts ∧ ws = [] := by
  refine Reads.bind_nil ((h.reads depth hsize).mono fun _ => Read.endsOperand_of_endsExpression) fun e ws he => ?_
  obtain ⟨he, rfl⟩ := he
  exact reads_nil fun s hm => ⟨e, [], ⟨he, rfl⟩, Read.run_continued he.isRange true hm⟩

theorem IsOperand.readsAlone (h : IsOperand ts) : ReadsAlone ts := by
  intro depth hsize
  obtain ⟨depth, rfl⟩ : ∃ d, depth = d + 1 := ⟨depth - 1, by omega⟩
  exact .of_reads h.ne_nil ((h.reads_expression depth (by omega)).imp fun ⟨he, hws⟩ => ⟨he.tokens rfl rfl, hws⟩)

theorem IsOperand.reads_boundary (h : IsOperand ts) (depth : Nat) (hsize : Token.sizes ts ≤ depth) :
    Reads Token.AllMatch (Read.boundary (grammar (depth + 1))) ts endsExpression fun e ws => e.Tight Token.AllMatch ts ∧ ws = [] := by
  have hhere : ∀ {us more : List Token} {s : Stream}, Token.AllMatch ts us → endsExpression more = true → s.rest = us ++ more →
      Read.OperandHere s := fun hu hm hs => Read.StartsPlainly.here (hs ▸ h.starts hu (Read.endsOperand_of_endsExpression hm))
  refine reads_idle [] (fun hu hm hs => Read.run_apartAttributes (hhere hu hm hs (.mark "#") rfl))
    (reads_idle none (fun hu hm hs => Read.run_blockAtom? (hhere hu hm hs)) ?_)
  refine Reads.bind_nil ((h.reads depth hsize).mono fun _ => Read.endsOperand_of_endsExpression) fun e ws he => ?_
  obtain ⟨he, rfl⟩ := he
  rw [he.withAttributes]
  exact reads_nil fun s hm => ⟨e, [], ⟨he, rfl⟩, Read.run_continued he.isRange true hm⟩

end

/-! ## Structs that take the rest from another value -/

/-- Fields with a comma after each, as they are listed before something else. -/
def listed (values : List (List Token)) : List Token := values.flatMap (· ++ Token.symbol ",")

theorem listed_eq_commas (values : List (List Token)) : listed values = commas true values := by
  induction values with
  | nil => rfl
  | cons v rest ih => rw [commas_cons fun _ => rfl, ← ih, listed, List.flatMap_cons, List.append_assoc]; rfl

namespace Read

section

variable {like : List Token → List Token → Prop} [Token.Placeless like] {g : Grammar}

/-- The value after the two points is the last part. -/
theorem copies_restOfValues {value : List Token} (h : Alone like g value) :
    Copies like (valuesStep g ()) (Token.symbol ".." ++ value) List.isEmpty (· = .done ()) := by
  refine reads_atEnd false (fun hu _ => ?_) ?_
  · obtain ⟨pos, joint, next, vs, rfl, -⟩ := (Token.Likeness.agree hu).of_symbol_pair '.' '.' rfl
    rfl
  refine Copies.bind (copies_mark? ".." (by decide) : Copies like _ _ (fun _ => true) _) (fun found hfound => ?_) fun _ _ => rfl
  subst hfound
  rw [if_pos rfl]
  refine reads_atEnd false (fun hu _ => isEmpty_of_like h.nonempty hu) ?_
  exact Copies.bind_nil (h.copies.mono fun more hm => by rw [List.isEmpty_iff.mp hm]; rfl) fun _ _ =>
    reads_pure ⟨rfl, Token.Likeness.refl _⟩

theorem copies_valuesThen {values : List (List Token)} (h : ∀ v ∈ values, IsPlainValue (Alone like g) v) {last : List Token}
    (hlast : Copies like (valuesStep g ()) last List.isEmpty (· = .done ())) {n : Nat} (hn : (listed values ++ last).length < n) :
    Copies like (turns (valuesStep g) n ()) (listed values ++ last) List.isEmpty fun _ => True := by
  induction values generalizing n with
  | nil =>
    obtain ⟨n, rfl⟩ : ∃ k, n = k + 1 := ⟨n - 1, by omega⟩
    refine Copies.bind_nil hlast fun turn ht => ?_
    subst ht
    exact reads_pure ⟨trivial, Token.Likeness.refl _⟩
  | cons v rest ih =>
    obtain ⟨n, rfl⟩ : ∃ k, n = k + 1 := ⟨n - 1, by omega⟩
    rw [listed, List.flatMap_cons, List.append_assoc] at hn ⊢
    rw [List.length_append, List.length_append, show (Token.symbol ",").length = 1 from rfl] at hn
    have hstep : Copies like (valuesStep g ()) (v ++ Token.symbol ",") (fun _ => true) _ :=
      copies_valuesStep (h v List.mem_cons_self) true
    refine Copies.bind hstep (fun turn ht => ?_) fun _ _ => rfl
    subst ht
    exact ih (fun w hw => h w (List.mem_cons_of_mem _ hw)) (by rw [listed]; omega)

end

end Read

/-- A struct that takes the fields it does not list from another value. -/
theorem isOperand_update {path : PathExpr} (bare : path.IsBare) (below : path.names ≠ ["crate"]) {values : List (List Token)}
    (h : ∀ v ∈ values, IsPlainValue ReadsAlone v) {rest : List Token} (hrest : ReadsAlone rest) {opensAt closesAt : Position} :
    IsOperand (path.tokens ++ [.group .brace (listed values ++ (Token.symbol ".." ++ rest)) opensAt closesAt]) where
  opens := (Read.opensOperand_of_isBare bare).append
  starts {us more} hu _ := by
    obtain ⟨vs, ws, rfl, hv, hw⟩ := Token.Likeness.of_append hu
    obtain ⟨inner, opens, closes, rfl, -⟩ := exists_of_group hw
    rw [List.append_assoc]
    exact .path bare below hv (Or.inr ⟨_, _, _, _, rfl⟩)
  reads depth hsize := by
    simp only [sizes_append, Token.sizes, Token.size] at hsize
    have hparts : ∀ v ∈ values, IsPlainValue (Read.Alone Token.AllMatch (grammar (depth + 1))) v := by
      intro v hv
      have hle : Token.sizes (v ++ Token.symbol ",") ≤ Token.sizes (listed values) := sizes_le_flatMap (· ++ Token.symbol ",") hv
      rw [sizes_append] at hle
      exact (h v hv).imp fun e he h => h depth (by omega)
    have hvalues : Copies Token.AllMatch (Read.structValues (grammar (depth + 1)))
        [.group .brace (listed values ++ (Token.symbol ".." ++ rest)) opensAt closesAt] endsAtom fun _ => True :=
      Copies.inside (Reads.loop fun _ hn => Read.copies_valuesThen hparts (Read.copies_restOfValues (hrest depth (by omega))) hn)
    have hatom := Read.reads_structAtom (rereads_grammar depth) bare (by omega) hvalues
    have hread := Read.reads_operandOf (Read.opensOperand_of_isBare bare).append hatom .nil
    rwa [List.append_nil] at hread

/-! ## Operands up to the end of an expression -/

namespace Read

section

variable {like : List Token → List Token → Prop} [Token.Placeless like] {g : Grammar} {ts : List Token}

/-- Where an operand starts, nothing stands that comes before it, and no loop, branch or block. -/
structure AtomHere (g : Grammar) (s : Stream) : Prop where
  unattributed : (Expected.mark "#").stands s.rest = false
  unprefixed : prefixOperator? s = .ok (none, s)
  noBlock : blockAtom? g s = .ok (none, s)

/-- What is read without attributes is the operand. -/
theorem reads_operandFrom {holds : Expression → Prop}
    (hparts : Reads like (operandParts g true) ts endsExpression fun read ws => (read.1 = [] ∧ holds read.2.2) ∧ ws = [])
    (hplain : ∀ e, holds e → e.withAttributes [] = e ∧ ∀ content, e ≠ .verbatim content) :
    Reads like (operand g true) ts endsExpression fun e ws => holds e ∧ ws = [] := by
  refine Reads.bind_nil (Reads.sourceOf hparts) fun read ws hread => ?_
  obtain ⟨⟨attributes, position, e⟩, source⟩ := read
  obtain ⟨⟨_, ⟨hnone, he⟩, -⟩, -, rfl⟩ := hread
  obtain rfl : attributes = [] := hnone
  obtain ⟨hsame, hne⟩ := hplain e he
  have hpure : Reads like (pure (e.withAttributes [])) [] endsExpression fun e ws => holds e ∧ ws = [] := by
    rw [hsame]
    exact reads_pure ⟨he, rfl⟩
  cases e with
  | verbatim content => exact absurd rfl (hne content)
  | _ => exact hpure

/-- An atom that reaches to the end of the expression is the whole operand. -/
theorem reads_operandAt {holds : Expression → Prop}
    (hstart : ∀ {us more} {s : Stream}, like ts us → s.rest = us ++ more → AtomHere g s)
    (hatom : Reads like (simpleAtom g true) ts endsExpression fun e ws => holds e ∧ ws = [])
    (hplain : ∀ e, holds e → e.withAttributes [] = e ∧ ∀ content, e ≠ .verbatim content) :
    Reads like (operand g true) ts endsExpression fun e ws => holds e ∧ ws = [] := by
  refine reads_operandFrom ?_ hplain
  refine reads_idle [] (fun hu _ hs => run_apartAttributes (hstart hu hs).unattributed) (reads_ignored (fun s => ⟨_, rfl⟩) fun position =>
    reads_idle none (fun hu _ hs => (hstart hu hs).unprefixed) ?_)
  refine Reads.bind_nil (reads_idle none (fun hu _ hs => (hstart hu hs).noBlock) hatom) fun e ws he => reads_nil fun s hm => ?_
  obtain ⟨he, rfl⟩ := he
  refine ⟨([], position, e), [], ⟨⟨rfl, he⟩, rfl⟩, ?_⟩
  have htrailers : trailers g e s = .ok (e, s) := run_turns_done (run_trailerStep (endsOperand_of_endsExpression hm))
  rw [run_bind, htrailers]
  rfl

/-! ### Closures -/

/-- The bars of a closure without parameters. They are written apart, though a text may join them. -/
def bars : List Token := Token.symbol "|" ++ Token.symbol "|"

theorem exists_of_bars {ts us : List Token} (hu : Token.AllAgree (bars ++ ts) us) :
    ∃ first firstAt second secondAt vs, us = .punct '|' first firstAt :: .punct '|' second secondAt :: vs ∧ Token.AllAgree ts vs := by
  rw [bars, List.append_assoc] at hu
  obtain ⟨first, firstAt, vs, rfl, hv⟩ := hu.of_symbol '|' rfl
  obtain ⟨second, secondAt, ws, rfl, hw⟩ := hv.of_symbol '|' rfl
  exact ⟨first, firstAt, second, secondAt, ws, rfl, hw⟩

theorem copies_closureHead : Copies Token.AllAgree (closureHead g) bars (fun more => !(Expected.mark "->").stands more) (· = false) := by
  have hbar : ∀ {us more : List Token}, Token.AllAgree bars us → ∃ first firstAt rest, us ++ more = .punct '|' first firstAt :: rest := by
    intro us more hu
    obtain ⟨first, firstAt, second, secondAt, vs, rfl, -⟩ := exists_of_bars hu
    exact ⟨first, firstAt, _, rfl⟩
  have hword : ∀ {word : String} {us more : List Token}, Token.AllAgree bars us → (!(Expected.mark "->").stands more) = true →
      (Expected.word word).stands (us ++ more) = false := by
    intro word us more hu _
    obtain ⟨first, firstAt, rest, h⟩ := hbar hu
    rw [h]
    rfl
  have hbinder : ∀ {us more : List Token} {s : Stream}, Token.AllAgree bars us → (!(Expected.mark "->").stands more) = true →
      s.rest = us ++ more → discard (binder g) s = .ok ((), s) := by
    intro us more s hu hm hs
    show (binder g >>= fun _ => pure ()) s = _
    rw [run_bind, run_binder (hs ▸ hword hu hm)]
    rfl
  refine reads_idle () hbinder (reads_discardUnworded hword (reads_discardUnworded hword (reads_discardUnworded hword
    (reads_discardUnworded hword ?_))))
  refine Copies.bind (copies_mark "|" (by decide) : Copies Token.AllAgree _ _ (fun _ => true) _) (fun _ _ => ?_) fun _ _ => rfl
  refine reads_idle () (fun {us more s} hu _ hs => ?_) ?_
  · obtain ⟨joint, pos, rfl⟩ := hu.of_symbol_alone '|' rfl
    obtain ⟨_, closesAt, within, leftover, written⟩ := s
    obtain rfl := hs
    rfl
  refine Copies.bind_nil (copies_mark "|" (by decide)) fun _ _ => reads_unmarked (fun hu hm => ?_) (reads_pure ⟨rfl, Token.Likeness.refl _⟩)
  rw [eq_nil_of_like hu]
  exact (Bool.not_eq_true' _).mp hm

/-- A closure without parameters whose value is read as the tokens say. -/
def Defers (value : List Token) (e : Expression) : Prop :=
  ∃ head body, e = .closure [] false head body ∧ Token.AllAgree bars head ∧ body.Tight Token.AllAgree value

theorem reads_closure {value : List Token} (hopens : OpensOperand value)
    (hvalue : Reads Token.AllAgree (g.expression true) value endsExpression fun e ws => e.Tight Token.AllAgree value ∧ ws = []) :
    Reads Token.AllAgree (operand g true) (bars ++ value) endsExpression fun e ws => Defers value e ∧ ws = [] := by
  have hclosure : Reads Token.AllAgree (closure g true) (bars ++ value) endsExpression fun e ws => Defers value e ∧ ws = [] := by
    refine Reads.bind (Reads.captured copies_closureHead) (fun read ws hread => ?_) fun hu _ => ?_
    · obtain ⟨typed, head⟩ := read
      obtain ⟨⟨htyped, hhead⟩, rfl⟩ := hread
      obtain rfl : typed = false := htyped
      refine Reads.bind_nil hvalue fun body ws ⟨hbody, hw⟩ => ?_
      subst hw
      exact reads_pure ⟨⟨head, body, rfl, hhead, hbody⟩, rfl⟩
    · obtain ⟨t, rest, rfl, ht⟩ := hopens hu
      exact (Bool.not_eq_true' _).mpr (not_stands_of_opensOperand ht rfl)
  have hfirst : ∀ {us more : List Token} {s : Stream}, Token.AllAgree (bars ++ value) us → s.rest = us ++ more →
      ∃ first firstAt second secondAt rest, s.rest = .punct '|' first firstAt :: .punct '|' second secondAt :: rest := by
    intro us more s hu hs
    obtain ⟨first, firstAt, second, secondAt, vs, rfl, -⟩ := exists_of_bars hu
    exact ⟨_, _, _, _, _, hs⟩
  refine reads_operandAt (fun {us more s} hu hs => ?_) (hclosure.congr fun {us more s} hu _ hs => ?_) fun e he => ?_
  · obtain ⟨first, firstAt, second, secondAt, rest, hs⟩ := hfirst hu hs
    obtain ⟨_, closesAt, within, leftover, written⟩ := s
    obtain rfl := hs
    exact ⟨rfl, rfl, rfl⟩
  · obtain ⟨first, firstAt, second, secondAt, rest, hs⟩ := hfirst hu hs
    obtain ⟨_, closesAt, within, leftover, written⟩ := s
    obtain rfl := hs
    rfl
  · obtain ⟨head, body, rfl, -⟩ := he
    exact ⟨rfl, nofun⟩

end

/-- A closure may be an argument. -/
theorem alone_closure {value : List Token} (h : IsPlainExpression value) {depth : Nat} (hsize : Token.sizes value < depth) :
    Alone Token.AllAgree (grammar (depth + 2)) (bars ++ value) := by
  refine .of_reads (List.cons_ne_nil _ _) ?_
  refine Reads.bind_nil (reads_closure (exists_of_plainExpression h) (rereadsExpressions_grammar depth value h hsize)) fun e ws he => ?_
  obtain ⟨⟨head, body, rfl, hhead, hbody⟩, rfl⟩ := he
  refine reads_nil fun s hm => ⟨_, [], ⟨?_, rfl⟩, run_continued rfl true hm⟩
  show Token.AllAgree (bars ++ value) (head ++ body.tokens (Surroundings.alone.right false false .jump))
  exact Token.Likeness.append hhead (hbody.tokens rfl rfl)

end Read

end BuilderSynthesis.Syntax
