/-
  BuilderSynthesis.Proofs.StatementReading — plain bodies of functions are read again.

  A plain body consists of plain expressions with semicolons after them and perhaps of a last one
  without. Where a statement may stand, a plain expression is taken for nothing else
  (`run_statementStart`, `run_startsItem`), so that a body is written as it is and read again as one that
  is written alike (`rereadsBodies_grammar`).
-/

import BuilderSynthesis.Proofs.ExpressionReading

namespace BuilderSynthesis.Syntax

open BuilderSynthesis.Syntax.Parser

/-- Expressions with semicolons after them, and perhaps a last one without. -/
inductive IsPlainBody : List Token → Prop where
  | nil : IsPlainBody []
  | value {ts : List Token} (plain : IsPlainExpression ts) : IsPlainBody ts
  | statement {ts rest : List Token} (plain : IsPlainExpression ts) (others : IsPlainBody rest) :
      IsPlainBody (ts ++ (Token.symbol ";" ++ rest))

namespace Read

section

variable {like : List Token → List Token → Prop} [Token.Placeless like] {g : Grammar} {bound : Nat}

/-- A word, which one or whichever. -/
def isWord : Expected → Bool
  | .word _ | .identifier => true
  | _ => false

theorem not_stands_of_isWord {e : Expected} (he : isWord e = true) :
    (∀ c joint pos rest, e.stands (.punct c joint pos :: rest) = false) ∧
      (∀ delimiter content opensAt closesAt rest, e.stands (.group delimiter content opensAt closesAt :: rest) = false) ∧
      e.stands [] = false := by
  cases e with
  | word name => exact ⟨fun _ _ _ _ => rfl, fun _ _ _ _ _ => rfl, rfl⟩
  | identifier => exact ⟨fun _ _ _ _ => rfl, fun _ _ _ _ _ => rfl, rfl⟩
  | _ => cases he

theorem not_word_of_endsAtom {e : Expected} (he : isWord e = true) {ts : List Token} (h : endsAtom ts = true) : e.stands ts = false := by
  obtain ⟨hmark, hgroup, hnil⟩ := not_stands_of_isWord he
  rcases exists_of_endsAtom h with rfl | ⟨content, opensAt, closesAt, rest, rfl⟩ | ⟨c, hc, joint, pos, rest, rfl⟩
  · exact hnil
  · exact hgroup ..
  · exact hmark ..

/-- A plain expression stands here: a path of names and what may follow it, a literal, or a round bracket. -/
inductive StartsPlainly (like : List Token → List Token → Prop) : List Token → Prop where
  | path {path : PathExpr} {vs rest : List Token} (bare : path.IsBare) (below : path.names ≠ ["crate"]) (written : like path.tokens vs)
      (ends : endsAtom rest = true ∨ ∃ inner opens closes more, rest = .group .brace inner opens closes :: more) :
      StartsPlainly like (vs ++ rest)
  | literal {text : String} {pos : Position} {rest : List Token} (ends : endsAtom rest = true) : StartsPlainly like (.literal text pos :: rest)
  | bracket {inner : List Token} {opens closes : Position} {rest : List Token} (ends : endsAtom rest = true) :
      StartsPlainly like (.group .parenthesis inner opens closes :: rest)

theorem startsPlainly_of_atom {inner : List Token → Prop} {atom trailing : List Token} (first : IsPlainAtom inner atom)
    (others : IsPlainTrailers inner trailing) {us more : List Token} (hu : like (atom ++ trailing) us) (hm : endsOperand more = true) :
    StartsPlainly like (us ++ more) := by
  obtain ⟨vs, ws, rfl, hv, hw⟩ := Token.Likeness.of_append hu
  have hends := (endsAtom_of_trailers others hw hm).1
  rw [List.append_assoc]
  cases first with
  | path bare below => exact .path bare below hv (Or.inl hends)
  | literal text =>
    obtain ⟨v, rest, rfl, hv, hrest⟩ := (Token.Likeness.agree hv).of_cons
    obtain ⟨pos, rfl⟩ := hv.of_literal
    obtain rfl := hrest.of_nil
    exact .literal hends
  | tuple plain ended =>
    obtain ⟨inner, opens, closes, rfl, -⟩ := exists_of_group hv
    exact .bracket hends
  | values bare below plain ended =>
    obtain ⟨xs, ys, rfl, hx, hy⟩ := Token.Likeness.of_append hv
    obtain ⟨inner, opens, closes, rfl, -⟩ := exists_of_group hy
    rw [List.append_assoc]
    exact .path bare below hx (Or.inr ⟨_, _, _, _, rfl⟩)

theorem startsPlainly {ts : List Token} (h : IsPlainExpression ts) {us more : List Token} (hu : like ts us)
    (hm : endsExpression more = true) : StartsPlainly like (us ++ more) := by
  obtain ⟨first, others⟩ := h
  exact startsPlainly_of_atom first others hu (endsOperand_of_endsExpression hm)

section

variable {s : Stream}

theorem StartsPlainly.exists_cons {ts : List Token} (h : StartsPlainly like ts) : ∃ t rest, ts = t :: rest ∧ opensOperand t = true := by
  cases h with
  | @path path vs rest bare below written ends =>
    obtain ⟨t, others, rfl, ht, -⟩ := exists_of_isBare bare (Token.Likeness.agree written)
    exact ⟨t, others ++ rest, rfl, ht⟩
  | literal ends => exact ⟨_, _, rfl, rfl⟩
  | bracket ends => exact ⟨_, _, rfl, rfl⟩

theorem StartsPlainly.here (h : StartsPlainly like s.rest) : OperandHere s := by
  obtain ⟨t, rest, hs, ht⟩ := h.exists_cons
  exact operandHere_of_cons ht hs

/-- The second token of an expression is never a word. -/
theorem StartsPlainly.not_word {ts : List Token} (h : StartsPlainly like ts) {e : Expected} (he : isWord e = true) :
    e.stands (afterTree ts) = false := by
  obtain ⟨hmark, hgroup, -⟩ := not_stands_of_isWord he
  cases h with
  | path bare below written ends =>
    refine not_stands_second bare (hmark ':') (Token.Likeness.agree written) ?_
    rcases ends with ends | ⟨inner, opens, closes, more, rfl⟩
    · exact not_word_of_endsAtom he ends
    · exact hgroup ..
  | literal ends => exact not_word_of_endsAtom he ends
  | bracket ends => exact not_word_of_endsAtom he ends

/-- The word `crate` has separators after it. -/
theorem StartsPlainly.crate {ts : List Token} (h : StartsPlainly like ts) (hcrate : (Expected.word "crate").stands ts = true) :
    (Expected.mark "::").stands (afterTree ts) = true := by
  cases h with
  | path bare below written ends =>
    obtain ⟨leading, names, hne, -, rfl⟩ := bare
    obtain ⟨name, others, rfl⟩ := List.exists_cons_of_ne_nil hne
    replace written := Token.Likeness.agree written
    rw [PathExpr.ofNames, List.map_cons, PathExpr.tokens_cons] at written
    cases leading with
    | true =>
      obtain ⟨pos, joint, next, rest, rfl, -⟩ := Token.AllAgree.of_symbol_pair written ':' ':' rfl
      cases hcrate
    | false =>
      obtain ⟨v, rest, rfl, hv, hrest⟩ := Token.AllAgree.of_cons (written : Token.AllAgree (Token.word name :: _) _)
      obtain ⟨pos, rfl⟩ := hv.of_ident
      obtain rfl : name = "crate" := beq_iff_eq.mp hcrate
      cases others with
      | nil => exact absurd rfl below
      | cons second others =>
        obtain ⟨pos, joint, next, rest, rfl, -⟩ := @Token.AllAgree.of_symbol_pair "::" _ _ hrest ':' ':' rfl
        rfl
  | literal ends => cases hcrate
  | bracket ends => cases hcrate

theorem run_startsItem (h : StartsPlainly like s.rest) : startsItem s = .ok (false, s) := by
  have hhere := h.here
  have hcrate : ((Expected.word "crate").stands s.rest && !(Expected.mark "::").stands (afterTree s.rest)) = false := by
    cases hc : (Expected.word "crate").stands s.rest with
    | false => rfl
    | true => rw [h.crate hc]; rfl
  have hidentifier : (Expected.identifier).stands (afterTree s.rest) = false := h.not_word rfl
  unfold startsItem startsStaticItem
  simp only [run_bind, run_sees, run_seesAny, run_seesSecond, run_pure, List.any_cons, List.any_nil, hcrate, hidentifier,
    h.not_word (e := .word "trait") rfl, h.not_word (e := .word "unsafe") rfl, h.not_word (e := .word "impl") rfl,
    hhere (.word "pub") (by decide), hhere (.word "extern") (by decide), hhere (.word "use") (by decide), hhere (.word "fn") (by decide),
    hhere (.word "mod") (by decide), hhere (.word "type") (by decide), hhere (.word "struct") (by decide), hhere (.word "enum") (by decide),
    hhere (.word "trait") (by decide), hhere (.word "impl") (by decide), hhere (.word "macro") (by decide), hhere (.word "static") (by decide),
    hhere (.word "const") (by decide), hhere (.word "unsafe") (by decide), hhere (.word "async") (by decide),
    Bool.false_eq_true, if_false, Bool.false_and, Bool.and_false, Bool.or_false]

theorem run_statementStart (h : StartsPlainly like s.rest) : statementStart s = .ok (.anything, s) := by
  have hnone : attempt plainPath s = .ok (none, s) → statementStart s = .ok (.anything, s) := by
    intro hpath
    unfold statementStart ahead inspect
    simp only [run_bind, hpath, run_pure]
  generalize hs : s.rest = ts at h
  cases h with
  | @path path vs rest bare below written ends =>
    have hseparator : endsNames rest = true ∧ (Expected.mark "!").stands rest = false := by
      rcases ends with ends | ⟨inner, opens, closes, more, rfl⟩
      · exact ⟨(Bool.not_eq_true' _).mpr (not_stands_of_endsAtom (by decide) ends), not_stands_of_endsAtom (by decide) ends⟩
      · exact ⟨rfl, rfl⟩
    obtain ⟨found, ws, ⟨a, rfl, -⟩, hrun⟩ := Reads.attempt (copies_plainPath bare) written hseparator.1 hs
    unfold statementStart ahead inspect
    simp only [run_bind, hrun, run_sees, hseparator.2, Bool.false_eq_true, if_false, run_pure]
  | literal ends =>
    obtain ⟨_, closesAt, within, leftover, written⟩ := s
    obtain rfl := hs
    exact hnone rfl
  | bracket ends =>
    obtain ⟨_, closesAt, within, leftover, written⟩ := s
    obtain rfl := hs
    exact hnone rfl

/-- Attributes are looked past. -/
theorem run_aheadPast {α : Type} {p : Parser α} {a : α} (h : (Expected.mark "#").stands s.rest = false) (hp : p s = .ok (a, s)) :
    ahead (do discard (outerAttributes g); p) s = .ok (a, s) := by
  have hattributes : discard (outerAttributes g) s = .ok ((), s) := by
    show (outerAttributes g >>= fun _ => pure ()) s = _
    rw [run_bind, run_outerAttributes h]
    rfl
  unfold ahead inspect
  simp only [run_bind, hattributes, hp, run_pure]

end

/-- Plain expressions of less than a size are read where a statement may stand. -/
def RereadsBoundaries (like : List Token → List Token → Prop) (g : Grammar) (bound : Nat) : Prop :=
  ∀ ts, IsPlainExpression ts → Token.sizes ts < bound → Reads like g.boundary ts endsExpression fun e ws => e.Tight like ts ∧ ws = []

theorem reads_boundary (hr : Rereads g bound) (hg : RereadsExpressions like g bound) {ts : List Token} (h : IsPlainExpression ts)
    (hsize : Token.sizes ts ≤ bound) : Reads like (boundary g) ts endsExpression fun e ws => e.Tight like ts ∧ ws = [] := by
  have hhere : ∀ {us more : List Token} {s : Stream}, like ts us → endsExpression more = true → s.rest = us ++ more → OperandHere s :=
    fun hu hm hs => StartsPlainly.here (hs ▸ startsPlainly h hu hm)
  refine reads_idle [] (fun hu hm hs => run_apartAttributes (hhere hu hm hs (.mark "#") rfl))
    (reads_idle none (fun hu hm hs => run_blockAtom? (hhere hu hm hs)) ?_)
  refine Reads.bind_nil ((reads_operand hr hg h hsize).mono fun _ => endsOperand_of_endsExpression) fun e ws he => ?_
  obtain ⟨he, rfl⟩ := he
  rw [he.withAttributes]
  exact reads_nil fun s hm => ⟨e, [], ⟨he, rfl⟩, run_continued he.isRange true hm⟩

/-- An expression as a statement, with the semicolon after it or at the end. -/
theorem copies_expressionStatement (hb : RereadsBoundaries like g bound) {ts : List Token} (h : IsPlainExpression ts)
    (hsize : Token.sizes ts < bound) (ended : Bool) :
    Copies like (expressionStatement g) (ts ++ if ended then Token.symbol ";" else []) (fun more => ended || more.isEmpty) (· = !ended) := by
  have hhere : ∀ {us more : List Token} {s : Stream}, like ts us → endsExpression more = true → s.rest = us ++ more → OperandHere s :=
    fun hu hm hs => StartsPlainly.here (hs ▸ startsPlainly h hu hm)
  have hvalue : Reads like (do
      let attributes ← apart (outerAttributes g)
      pure (attributes, ← g.boundary)) ts endsExpression fun read ws => (read.1 = [] ∧ read.2.Tight like ts) ∧ ws = [] := by
    refine reads_idle [] (fun hu hm hs => run_apartAttributes (hhere hu hm hs (.mark "#") rfl)) ?_
    refine Reads.bind_nil (hb ts h hsize) fun e ws he => ?_
    obtain ⟨he, rfl⟩ := he
    exact reads_pure ⟨⟨rfl, he⟩, rfl⟩
  refine Reads.bind (Reads.sourceOf hvalue) (fun read ws hread => ?_) fun hu hm => ?_
  · obtain ⟨⟨attributes, e⟩, source⟩ := read
    obtain ⟨⟨_, ⟨hnone, he⟩, -⟩, -, rfl⟩ := hread
    obtain rfl : attributes = [] := hnone
    have hend : Copies like (do
        let found ← mark? ";"
        pure (!(found || e.endsStatement))) (if ended then Token.symbol ";" else []) (fun more => ended || more.isEmpty) (· = !ended) := by
      rw [he.endsStatement]
      cases ended with
      | true =>
        refine Copies.bind_nil (copies_mark? ";" (by decide)) fun found hf => ?_
        subst hf
        exact reads_pure ⟨rfl, Token.Likeness.refl _⟩
      | false =>
        refine reads_unmarked (fun hu hm => ?_) (reads_pure ⟨rfl, Token.Likeness.refl _⟩)
        rw [eq_nil_of_like hu, List.nil_append, List.isEmpty_iff.mp hm]
        rfl
    have hwrite : Reads like (do
        write (e.tokens .ofStatement)
        let found ← mark? ";"
        pure (!(found || e.endsStatement))) (if ended then Token.symbol ";" else []) (fun more => ended || more.isEmpty) fun found ws =>
          found = !ended ∧ like (ts ++ if ended then Token.symbol ";" else []) ws := by
      intro us more s hu hm hs
      obtain ⟨found, ws, ⟨hfound, hws⟩, hrun⟩ := hend hu hm (s := { s with written := (e.tokens .ofStatement).reverse ++ s.written }) hs
      refine ⟨found, e.tokens .ofStatement ++ ws, ⟨hfound, Token.Likeness.append (he.tokens rfl rfl) hws⟩, ?_⟩
      rw [List.reverse_append, List.append_assoc]
      exact hrun
    have hleading := he.withLeadingAttributes
    cases he <;> (dsimp only; rw [hleading]; exact hwrite)
  · cases ended with
    | true =>
      obtain ⟨joint, pos, rfl⟩ := Token.AllAgree.of_symbol_alone (Token.Likeness.agree (hu : like (Token.symbol ";") _)) ';' rfl
      rfl
    | false =>
      rw [eq_nil_of_like hu, List.nil_append, List.isEmpty_iff.mp hm]
      rfl

theorem copies_statement (hb : RereadsBoundaries like g bound) {ts : List Token} (h : IsPlainExpression ts)
    (hsize : Token.sizes ts < bound) (ended : Bool) :
    Copies like (statement g) (ts ++ if ended then Token.symbol ";" else []) (fun more => ended || more.isEmpty) (· = !ended) := by
  have hstart : ∀ {us more : List Token} {s : Stream}, like (ts ++ if ended then Token.symbol ";" else []) us →
      (ended || more.isEmpty) = true → s.rest = us ++ more → StartsPlainly like s.rest := by
    intro us more s hu hm hs
    obtain ⟨vs, ws, rfl, hv, hw⟩ := Token.Likeness.of_append hu
    rw [hs, List.append_assoc]
    refine startsPlainly h hv ?_
    cases ended with
    | true =>
      obtain ⟨joint, pos, rfl⟩ := Token.AllAgree.of_symbol_alone (Token.Likeness.agree (hw : like (Token.symbol ";") _)) ';' rfl
      rfl
    | false =>
      rw [eq_nil_of_like hw, List.nil_append, List.isEmpty_iff.mp hm]
      rfl
  refine reads_idle .anything (fun hu hm hs => run_aheadPast ((hstart hu hm hs).here _ rfl) (run_statementStart (hstart hu hm hs))) ?_
  refine reads_idle false (fun hu hm hs => run_aheadPast ((hstart hu hm hs).here _ rfl) ?_) ?_
  · rw [run_sees, (hstart hu hm hs).here (.word "let") (by decide)]
  refine reads_idle false (fun hu hm hs => run_aheadPast ((hstart hu hm hs).here _ rfl) (run_startsItem (hstart hu hm hs))) ?_
  exact copies_expressionStatement hb h hsize ended

/-- One turn over the statements of a block. -/
def statementsStep (g : Grammar) (_ : Unit) : Parser (Turn Unit Unit) := do
  discard (whileSeen (sees (.mark ";")) (mark ";"))
  if ← atEnd then pure (.done ())
  else
    let unended ← statement g
    if ← atEnd then pure (.done ())
    else if unended then fail .semicolonMissing
    else pure (.again ())

omit [Token.Placeless like] in
theorem reads_unseparated {α : Type} {f : Unit → Parser α} {ts : List Token} {next : List Token → Bool} {holds : α → List Token → Prop}
    (hne : ∀ {us more}, like ts us → next more = true → (Expected.mark ";").stands (us ++ more) = false)
    (hf : Reads like (f ()) ts next holds) : Reads like (discard (whileSeen (sees (.mark ";")) (mark ";")) >>= f) ts next holds := by
  refine reads_idle () (fun {us more s} hu hm hs => ?_) hf
  have hnone : whileSeen (sees (.mark ";")) (mark ";") s = .ok ([], s) :=
    run_whileSeen_nil (by rw [run_sees, hs, hne hu hm])
  show (whileSeen (sees (.mark ";")) (mark ";") >>= fun _ => pure ()) s = _
  rw [run_bind, hnone]
  rfl

/-- A statement with what comes after it: the end, or other statements. -/
theorem copies_statementsStep (hb : RereadsBoundaries like g bound) {ts : List Token} (h : IsPlainExpression ts)
    (hsize : Token.sizes ts < bound) (ended last : Bool) (hlast : ended = false → last = true) :
    Copies like (statementsStep g ()) (ts ++ if ended then Token.symbol ";" else []) (fun more => more.isEmpty == last)
      (· = if last then .done () else .again ()) := by
  have hfirst : ∀ {us more : List Token}, like (ts ++ if ended then Token.symbol ";" else []) us →
      ∃ t rest, us ++ more = t :: rest ∧ opensOperand t = true := by
    intro us more hu
    obtain ⟨vs, ws, rfl, hv, -⟩ := Token.Likeness.of_append hu
    obtain ⟨t, rest, rfl, ht⟩ := exists_of_plainExpression h (Token.Likeness.agree hv)
    exact ⟨t, rest ++ ws ++ more, rfl, ht⟩
  refine reads_unseparated (fun hu _ => ?_) (reads_atEnd false (fun hu _ => ?_) ?_)
  · obtain ⟨t, rest, h, ht⟩ := hfirst hu
    rw [h]
    exact not_stands_of_opensOperand ht rfl
  · obtain ⟨t, rest, h, ht⟩ := hfirst hu
    rw [h]
    rfl
  refine Copies.bind_nil ((copies_statement hb h hsize ended).mono fun more hm => ?_) fun unended hunended => ?_
  · cases ended with
    | true => rfl
    | false =>
      rw [hlast rfl] at hm
      exact beq_iff_eq.mp hm
  · subst hunended
    refine reads_atEnd last (fun hu hm => ?_) ?_
    · rw [eq_nil_of_like hu]
      exact beq_iff_eq.mp hm
    · cases last with
      | true => exact reads_pure ⟨rfl, Token.Likeness.refl _⟩
      | false =>
        cases ended with
        | true => exact reads_pure ⟨rfl, Token.Likeness.refl _⟩
        | false => cases hlast rfl

theorem copies_turnsOfStatements (hb : RereadsBoundaries like g bound) {body : List Token} (h : IsPlainBody body)
    (hsize : Token.sizes body < bound) {n : Nat} (hn : body.length < n) :
    Copies like (turns (statementsStep g) n ()) body List.isEmpty fun _ => True := by
  have hend : ∀ {n : Nat}, Copies like (turns (statementsStep g) (n + 1) ()) [] List.isEmpty fun _ => True := by
    intro n
    have hstep : Copies like (statementsStep g ()) [] List.isEmpty (· = .done ()) := by
      refine reads_unseparated (fun hu hm => ?_) (reads_atEnd true (fun hu hm => ?_) (reads_pure ⟨rfl, Token.Likeness.refl _⟩))
      · rw [eq_nil_of_like hu, List.nil_append, List.isEmpty_iff.mp hm]
        rfl
      · rw [eq_nil_of_like hu]
        exact hm
    refine Copies.bind_nil hstep fun turn ht => ?_
    subst ht
    exact reads_pure ⟨trivial, Token.Likeness.refl _⟩
  have hdone : ∀ {ts : List Token} {n : Nat} (ended : Bool), IsPlainExpression ts → Token.sizes ts < bound →
      Copies like (turns (statementsStep g) (n + 1) ()) (ts ++ if ended then Token.symbol ";" else []) List.isEmpty fun _ => True := by
    intro ts n ended hts hsize
    refine Copies.bind_nil ((copies_statementsStep hb hts hsize ended true fun _ => rfl).mono fun more hm => ?_) fun turn ht => ?_
    · rw [hm]
      rfl
    · subst ht
      exact reads_pure ⟨trivial, Token.Likeness.refl _⟩
  induction h generalizing n with
  | nil =>
    obtain ⟨n, rfl⟩ : ∃ k, n = k + 1 := ⟨n - 1, by omega⟩
    exact hend
  | @value ts plain =>
    obtain ⟨n, rfl⟩ : ∃ k, n = k + 1 := ⟨n - 1, by omega⟩
    have hlast := @hdone ts n false plain hsize
    rwa [if_neg Bool.false_ne_true, List.append_nil] at hlast
  | @statement ts rest plain others ih =>
    obtain ⟨n, rfl⟩ : ∃ k, n = k + 1 := ⟨n - 1, by omega⟩
    rw [sizes_append, sizes_append] at hsize
    rw [List.length_append, List.length_append, show (Token.symbol ";").length = 1 from rfl] at hn
    rw [← List.append_assoc]
    by_cases hrest : rest = []
    · subst hrest
      rw [List.append_nil]
      exact hdone true plain (by omega)
    · have hstep : Copies like (statementsStep g ()) (ts ++ Token.symbol ";") (fun more => more.isEmpty == false) (· = .again ()) :=
        copies_statementsStep hb plain (by omega) true false nofun
      refine Copies.bind hstep (fun turn ht => ?_) fun hv _ => ?_
      · subst ht
        exact ih (by omega) (by omega)
      · rw [isEmpty_of_like hrest hv]
        rfl

/-- Plain bodies of less than a size are read by a grammar and written again. -/
def RereadsBodies (like : List Token → List Token → Prop) (g : Grammar) (bound : Nat) : Prop :=
  ∀ body, IsPlainBody body → Token.sizes body < bound → Copies like g.statements body List.isEmpty fun _ => True

theorem rereadsBodies_layer (hb : RereadsBoundaries like g bound) : RereadsBodies like (layer g) bound := fun _ h hsize =>
  Reads.loop fun _ hn => copies_turnsOfStatements hb h hsize hn

end

end Read

section

variable {like : List Token → List Token → Prop} [Token.Placeless like]

/-- Plain bodies are read again by a grammar that is deep enough for them. -/
theorem rereadsBodies_grammar (depth : Nat) : Read.RereadsBodies like (grammar (depth + 3)) depth := by
  refine Read.rereadsBodies_layer fun ts h hsize => ?_
  exact Read.reads_boundary (rereads_grammar depth) (rereadsExpressions_grammar depth) h (Nat.le_of_lt hsize)

end

end BuilderSynthesis.Syntax
