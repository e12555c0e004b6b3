/-
  BuilderSynthesis.Proofs.BuilderStatements — the statements that builders are written with.

  The body of a function of a builder consists of statements that are complete by themselves
  (`IsStatement`), and of a last expression. It is read to its end by every grammar that is deep enough
  (`makes_statements`).
-/

import BuilderSynthesis.Proofs.BuilderExpressions
import BuilderSynthesis.Proofs.BlockReading

namespace BuilderSynthesis.Syntax

open BuilderSynthesis.Syntax.Parser

/-! ## Bodies -/

/-- A statement may start here that goes on with no statement before it. -/
def opensNext : List Token → Bool
  | .ident name _ :: _ => name != "else"
  | t :: _ => opensOperand t
  | [] => false

theorem opensNext_of_opensOperand {t : Token} {rest : List Token} (h : opensOperand t = true) : opensNext (t :: rest) = true := by
  cases t with
  | ident name pos =>
    refine bne_iff_ne.mpr ?_
    rintro rfl
    cases h
  | punct => exact h
  | literal => rfl
  | group => exact h

theorem isEmpty_of_opensNext {ts : List Token} (h : opensNext ts = true) : ts.isEmpty = false := by
  cases ts with
  | nil => cases h
  | cons => rfl

theorem not_stands_of_opensNext {ts : List Token} (h : opensNext ts = true) {e : Expected}
    (he : e ∈ [Expected.mark ".", .mark "?", .mark ";", .mark "#", .word "else"]) : e.stands ts = false := by
  have hnever : ∀ e ∈ [Expected.mark ".", .mark "?", .mark ";", .mark "#", .word "else"], e.neverOpens = true := by decide
  cases ts with
  | nil => cases h
  | cons t rest =>
    cases t with
    | ident name pos =>
      simp only [List.mem_cons, List.not_mem_nil, or_false] at he
      rcases he with rfl | rfl | rfl | rfl | rfl
      iterate 4 rfl
      exact beq_eq_false_iff_ne.mpr (bne_iff_ne.mp h)
    | punct mark joint pos => exact not_stands_of_opensOperand (t := .punct mark joint pos) h (hnever e he)
    | literal text pos => exact not_stands_of_opensOperand (t := .literal text pos) h (hnever e he)
    | group delimiter content opensAt closesAt =>
      exact not_stands_of_opensOperand (t := .group delimiter content opensAt closesAt) h (hnever e he)

/-- A statement that is complete whatever follows it. -/
structure IsStatement (ts : List Token) : Prop where
  opens : ∀ {us more}, Token.AllMatch ts us → opensNext (us ++ more) = true
  reads : ∀ depth, Token.sizes ts ≤ depth → Makes Token.AllMatch (Read.statement (grammar (depth + 2))) ts opensNext (· = false)

/-- What may stand last in a body. -/
structure IsLast (ts : List Token) : Prop where
  opens : ∀ {us more}, Token.AllMatch ts us → opensNext (us ++ more) = true
  reads : ∀ depth, Token.sizes ts ≤ depth → Makes Token.AllMatch (Read.statement (grammar (depth + 2))) ts List.isEmpty fun _ => True

namespace Read

section

variable {g : Grammar} {ts : List Token}

/-- One turn over a body: a statement, with others after it or at the end. -/
theorem makes_statementsStep (last : Bool) (hopens : ∀ {us more}, Token.AllMatch ts us → opensNext (us ++ more) = true)
    (h : Makes Token.AllMatch (statement g) ts (fun more => if last then more.isEmpty else opensNext more)
      fun unended => last = false → unended = false) :
    Makes Token.AllMatch (statementsStep g ()) ts (fun more => if last then more.isEmpty else opensNext more)
      (· = if last then .done () else .again ()) := by
  refine reads_unseparated (fun hu _ => not_stands_of_opensNext (hopens hu) (by decide))
    (reads_atEnd false (fun hu _ => isEmpty_of_opensNext (hopens hu)) ?_)
  rw [if_neg Bool.false_ne_true]
  refine Makes.bind_nil h fun unended hunended => ?_
  refine reads_atEnd last (fun hu hm => ?_) ?_
  · rw [eq_nil_of_like hu, List.nil_append]
    cases last with
    | true => exact hm
    | false => exact isEmpty_of_opensNext hm
  · cases last with
    | true => exact takes_pure _
    | false =>
      rw [hunended rfl]
      exact takes_pure _

end

/-- The statements of a body are read to the end. -/
theorem makes_statements {statements : List (List Token)} (h : ∀ s ∈ statements, IsStatement s) {last : List Token}
    (hlast : IsLast last) {depth : Nat} (hsize : Token.sizes (statements.flatten ++ last) ≤ depth) :
    Makes Token.AllMatch (Read.statements (grammar (depth + 2))) (statements.flatten ++ last) List.isEmpty fun _ => True := by
  refine Reads.loop fun n hn => ?_
  induction statements generalizing n with
  | nil =>
    obtain ⟨n, rfl⟩ : ∃ k, n = k + 1 := ⟨n - 1, by omega⟩
    have hstep : Makes Token.AllMatch (statementsStep (grammar (depth + 2)) ()) last List.isEmpty (· = .done ()) :=
      makes_statementsStep true hlast.opens ((hlast.reads depth hsize).imp fun _ => nofun)
    refine Makes.bind_nil hstep fun turn ht => ?_
    subst ht
    exact reads_pure trivial
  | cons s rest ih =>
    obtain ⟨n, rfl⟩ : ∃ k, n = k + 1 := ⟨n - 1, by omega⟩
    rw [List.flatten_cons, List.append_assoc] at hsize hn ⊢
    rw [sizes_append] at hsize
    have hs := h s List.mem_cons_self
    have hstep : Makes Token.AllMatch (statementsStep (grammar (depth + 2)) ()) s opensNext (· = .again ()) :=
      makes_statementsStep false hs.opens ((hs.reads depth (by omega)).imp fun h _ => h)
    have hne : 0 < s.length := by
      refine List.length_pos_iff.mpr ?_
      rintro rfl
      cases (hs.opens (Token.Likeness.refl []) : opensNext [] = true)
    rw [List.length_append] at hn
    refine Makes.bind hstep (fun turn ht => ?_) fun {vs more} hv hm => ?_
    · subst ht
      exact ih (fun w hw => h w (List.mem_cons_of_mem _ hw)) (by omega) n (by omega)
    · cases rest with
      | nil => exact hlast.opens hv
      | cons next others =>
        rw [List.flatten_cons, List.append_assoc] at hv
        obtain ⟨xs, ys, rfl, hx, -⟩ := Token.Likeness.of_append hv
        rw [List.append_assoc]
        exact (h next (List.mem_cons_of_mem _ List.mem_cons_self)).opens hx

/-! ## Expressions as statements -/

section

variable {like : List Token → List Token → Prop} {g : Grammar} {ts : List Token} {next : List Token → Bool}

/-- What is written does not matter for what is made. -/
theorem makes_writing [Token.Likeness like] {α : Type} {f : Unit → Parser α} {tokens : List Token} {holds : α → Prop}
    (hf : Makes like (f ()) ts next holds) : Makes like (write tokens >>= f) ts next holds := by
  intro us more s hu hm hs
  obtain ⟨a, ws, ha, hrun⟩ := hf hu hm (s := { s with written := tokens.reverse ++ s.written }) hs
  refine ⟨a, tokens ++ ws, ha, ?_⟩
  rw [List.reverse_append, List.append_assoc]
  exact hrun

/-- An expression with the semicolon after it or at the end. -/
theorem makes_expressionStatement (hopens : ∀ {us more}, Token.AllMatch ts us → opensNext (us ++ more) = true)
    (hvalue : Makes Token.AllMatch g.boundary ts endsExpression (·.endsStatement = false)) (ended : Bool) :
    Makes Token.AllMatch (expressionStatement g) (ts ++ if ended then Token.symbol ";" else []) (fun more => ended || more.isEmpty)
      (· = !ended) := by
  have hread : Makes Token.AllMatch (do
      let attributes ← apart (outerAttributes g)
      pure (attributes, ← g.boundary)) ts endsExpression fun read => read.2.endsStatement = false :=
    reads_idle [] (fun hu _ hs => run_apartAttributes (hs ▸ not_stands_of_opensNext (hopens hu) (by decide)))
      (Makes.bind_nil hvalue fun _ he => reads_pure he)
  refine Makes.bind ((Reads.sourceOf hread).imp fun h => h.1.elim fun _ h => h) (fun read he => makes_writing ?_) fun hu hm => ?_
  · rw [he]
    cases ended with
    | true =>
      refine Makes.bind_nil (copies_mark? ";" (by decide)).makes fun found hf => ?_
      subst hf
      exact takes_pure _
    | false =>
      refine reads_unmarked (fun hu hm => ?_) (takes_pure _)
      rw [eq_nil_of_like hu, List.nil_append, List.isEmpty_iff.mp hm]
      rfl
  · cases ended with
    | true =>
      obtain ⟨joint, pos, rfl⟩ := Token.AllAgree.of_symbol_alone (hu : Token.AllMatch (Token.symbol ";") _).1 ';' rfl
      rfl
    | false =>
      rw [eq_nil_of_like hu, List.nil_append, List.isEmpty_iff.mp hm]
      rfl

/-- Where a plain operand starts, an expression is read as a statement. -/
theorem makes_statementOf (hstarts : ∀ {us more}, Token.AllMatch ts us → next more = true → StartsPlainly Token.AllMatch (us ++ more))
    {holds : Bool → Prop} (h : Makes Token.AllMatch (expressionStatement g) ts next holds) :
    Makes Token.AllMatch (statement g) ts next holds := by
  have hstart : ∀ {us more : List Token} {s : Stream}, Token.AllMatch ts us → next more = true → s.rest = us ++ more →
      StartsPlainly Token.AllMatch s.rest := fun hu hm hs => hs ▸ hstarts hu hm
  refine reads_idle .anything (fun hu hm hs => run_aheadPast ((hstart hu hm hs).here _ rfl) (run_statementStart (hstart hu hm hs))) ?_
  refine reads_idle false (fun hu hm hs => run_aheadPast ((hstart hu hm hs).here _ rfl) ?_) ?_
  · rw [run_sees, (hstart hu hm hs).here (.word "let") (by decide)]
  exact reads_idle false (fun hu hm hs => run_aheadPast ((hstart hu hm hs).here _ rfl) (run_startsItem (hstart hu hm hs))) h

end

end Read

section

variable {ts : List Token}

theorem IsOperand.opensNext (h : IsOperand ts) {us more : List Token} (hu : Token.AllMatch ts us) : opensNext (us ++ more) = true := by
  obtain ⟨t, rest, rfl, ht⟩ := h.opens hu.1
  exact opensNext_of_opensOperand ht

theorem IsOperand.makes_boundary (h : IsOperand ts) {depth : Nat} (hsize : Token.sizes ts ≤ depth) :
    Makes Token.AllMatch (grammar (depth + 2)).boundary ts endsExpression (·.endsStatement = false) :=
  (h.reads_boundary depth hsize).imp fun h => h.1.endsStatement

/-- An operand as the value of a body. -/
theorem IsOperand.isLast (h : IsOperand ts) : IsLast ts where
  opens := h.opensNext
  reads depth hsize := by
    have hread := Read.makes_expressionStatement h.opensNext (h.makes_boundary hsize) false
    rw [if_neg Bool.false_ne_true, List.append_nil] at hread
    refine (Read.makes_statementOf (fun hu hm => h.starts hu ?_) hread).imp fun _ => trivial
    rw [List.isEmpty_iff.mp hm]
    rfl

/-- An operand whose value is not used. -/
theorem isStatement_run (h : IsOperand ts) : IsStatement (ts ++ Token.symbol ";") where
  opens hu := by
    obtain ⟨vs, ws, rfl, hv, -⟩ := Token.Likeness.of_append hu
    rw [List.append_assoc]
    exact h.opensNext hv
  reads depth hsize := by
    rw [sizes_append] at hsize
    have hread : Makes Token.AllMatch (Read.expressionStatement (grammar (depth + 2))) (ts ++ Token.symbol ";") (fun _ => true)
        (· = false) := Read.makes_expressionStatement h.opensNext (h.makes_boundary (by omega)) true
    refine (Read.makes_statementOf (fun hu _ => ?_) hread).mono fun _ _ => rfl
    obtain ⟨vs, ws, rfl, hv, hw⟩ := Token.Likeness.of_append hu
    obtain ⟨joint, pos, rfl⟩ := Token.AllAgree.of_symbol_alone (hw : Token.AllMatch (Token.symbol ";") _).1 ';' rfl
    rw [List.append_assoc]
    exact h.starts hv rfl

/-! ### Assignments -/

theorem makes_discard {like : List Token → List Token → Prop} [Token.Likeness like] {α : Type} {p : Parser α}
    {next : List Token → Bool} {holds : α → Prop} (hp : Makes like p ts next holds) :
    Makes like (discard p) ts next fun _ => True := Makes.bind_nil hp fun _ _ => reads_pure trivial

/-- The right side of an assignment ends where no operator goes on. -/
theorem IsOperand.makes_rightSide (h : IsOperand ts) {depth : Nat} (hsize : Token.sizes ts ≤ depth) :
    Makes Token.AllMatch (Read.rightSide (grammar (depth + 2)) true .assign) ts endsExpression fun _ => True := by
  have hoperand : Makes Token.AllMatch ((grammar (depth + 2)).operand true) ts endsExpression fun _ => True :=
    ((h.reads depth hsize).mono fun _ => Read.endsOperand_of_endsExpression).imp fun _ => trivial
  refine Makes.bind_nil hoperand fun e _ => reads_nil fun s hm => ⟨e, [], trivial, ?_⟩
  obtain ⟨rest, closesAt, within, leftover, written⟩ := s
  unfold endsExpression at hm
  split at hm
  · rename_i hs
    obtain rfl : rest = [] := hs
    rfl
  · rename_i c joint pos rest' hs
    obtain rfl : rest = _ := hs
    have hc := List.contains_iff_mem.mp hm
    simp only [List.mem_cons, List.not_mem_nil, or_false] at hc
    rcases hc with rfl | rfl <;> rfl
  · cases hm

theorem makes_assigned {target value : List Token} (ht : IsOperand target) (hv : IsOperand value) {depth : Nat}
    (hsize : Token.sizes (target ++ (Token.symbol "=" ++ value)) ≤ depth) :
    Makes Token.AllMatch (grammar (depth + 2)).boundary (target ++ (Token.symbol "=" ++ value)) endsExpression
      (·.endsStatement = false) := by
  obtain ⟨depth, rfl⟩ : ∃ d, depth = d + 1 := by
    have hequals : Token.sizes (Token.symbol "=") = 1 := rfl
    rw [sizes_append, sizes_append, hequals] at hsize
    exact ⟨depth - 1, by omega⟩
  have hequals : Token.sizes (Token.symbol "=") = 1 := rfl
  rw [sizes_append, sizes_append, hequals] at hsize
  have hhere : ∀ {us more : List Token} {s : Stream}, Token.AllMatch (target ++ (Token.symbol "=" ++ value)) us →
      endsExpression more = true → s.rest = us ++ more → Read.OperandHere s := by
    intro us more s hu _ hs
    obtain ⟨t, rest, rfl, hopens⟩ := ht.opens.append hu.1
    exact Read.operandHere_of_cons hopens hs
  refine reads_idle [] (fun hu hm hs => Read.run_apartAttributes (hhere hu hm hs (.mark "#") rfl))
    (reads_idle none (fun hu hm hs => Read.run_blockAtom? (hhere hu hm hs)) ?_)
  refine Reads.bind (ht.reads (depth + 1) (by omega)) (fun e ws he => ?_) fun hu _ => ?_
  · rw [he.1.withAttributes]
    have hstep : Makes Token.AllMatch (Read.continuedStep (grammar (depth + 2)) true .jump e) (Token.symbol "=" ++ value)
        endsExpression fun turn => ∃ right, turn = .again (.assign [] e right) := by
      unfold Read.continuedStep
      rw [he.1.isRange, if_neg Bool.false_ne_true]
      refine reads_idle none (fun {us more s} hu _ hs => ?_) (reads_seesBut true (fun hu _ => ?_) ?_)
      · obtain ⟨pos, vs, rfl, -⟩ := Token.AllMatch.of_punct hu
        obtain ⟨_, closesAt, within, leftover, written⟩ := s
        obtain rfl := hs
        rfl
      · obtain ⟨pos, vs, rfl, -⟩ := Token.AllMatch.of_punct hu
        rfl
      · have hmark : Makes Token.AllMatch (discard (apart (mark "="))) (Token.symbol "=") (fun _ => true) fun _ => True :=
          makes_discard ((Copies.apart (copies_mark "=" (by decide))).imp fun _ => trivial)
        refine Makes.bind hmark (fun _ _ => ?_) fun _ _ => rfl
        exact Makes.bind_nil (hv.makes_rightSide (by omega)) fun right _ => reads_pure ⟨right, rfl⟩
    refine Reads.loop fun n hn => ?_
    rw [List.length_append, show (Token.symbol "=").length = 1 from rfl] at hn
    obtain ⟨n, rfl⟩ : ∃ k, n = k + 2 := ⟨n - 2, by omega⟩
    refine Makes.bind_nil hstep fun turn ⟨right, hturn⟩ => ?_
    subst hturn
    refine reads_nil fun s hm => ⟨.assign [] e right, [], rfl, ?_⟩
    exact run_turns_done (Read.run_continuedStep rfl true hm)
  · obtain ⟨pos, vs, rfl, -⟩ := Token.AllMatch.of_punct (hu : Token.AllMatch (Token.symbol "=" ++ value) _)
    rfl

/-- Something is set to a value. -/
theorem isStatement_assign {target value : List Token} (ht : IsOperand target) (hv : IsOperand value) :
    IsStatement (target ++ (Token.symbol "=" ++ value) ++ Token.symbol ";") := by
  have hopens : ∀ {us more}, Token.AllMatch (target ++ (Token.symbol "=" ++ value)) us → opensNext (us ++ more) = true := by
    intro us more hu
    obtain ⟨t, rest, rfl, hopens⟩ := ht.opens.append hu.1
    exact opensNext_of_opensOperand hopens
  constructor
  case opens =>
    intro us more hu
    obtain ⟨vs, ws, rfl, hv, -⟩ := Token.Likeness.of_append hu
    rw [List.append_assoc]
    exact hopens hv
  case reads =>
    intro depth hsize
    have hread : Makes Token.AllMatch (Read.expressionStatement (grammar (depth + 2)))
        (target ++ (Token.symbol "=" ++ value) ++ Token.symbol ";") (fun _ => true) (· = false) := by
      rw [sizes_append] at hsize
      exact Read.makes_expressionStatement hopens (makes_assigned ht hv (by omega)) true
    refine (Read.makes_statementOf (fun hu _ => ?_) hread).mono fun _ _ => rfl
    rw [List.append_assoc] at hu
    obtain ⟨vs, ws, rfl, hv, hw⟩ := Token.Likeness.of_append hu
    rw [List.append_assoc] at hw ⊢
    obtain ⟨pos, xs, rfl, -⟩ := Token.AllMatch.of_punct (hw : Token.AllMatch (Token.symbol "=" ++ (value ++ Token.symbol ";")) _)
    exact ht.starts hv rfl

end

/-! ## Leaving a function -/

namespace Read

section

variable {g : Grammar} {ts : List Token}

theorem atomHere_of_return {s : Stream} {pos : Position} {rest : List Token} (hs : s.rest = .ident "return" pos :: rest) : AtomHere g s := by
  obtain ⟨_, closesAt, within, leftover, written⟩ := s
  obtain rfl := hs
  exact ⟨rfl, rfl, rfl⟩

theorem run_simpleAtom_return {s : Stream} {pos : Position} {rest : List Token} (hs : s.rest = .ident "return" pos :: rest) :
    simpleAtom g true s = (do jump g false false true (← apart (word "return"))) s := by
  obtain ⟨_, closesAt, within, leftover, written⟩ := s
  obtain rfl := hs
  rfl

/-- Where one of these words starts a statement, it starts an expression. -/
theorem run_statement_of_word {name : String} (h : name ∈ ["if", "return"]) {s : Stream} {pos : Position} {rest : List Token}
    (hs : s.rest = .ident name pos :: rest) : statement g s = expressionStatement g s := by
  obtain ⟨_, closesAt, within, leftover, written⟩ := s
  obtain rfl := hs
  simp only [List.mem_cons, List.not_mem_nil, or_false] at h
  rcases h with rfl | rfl <;> rfl

/-- The expression leaves the function with a value. -/
def Returns (e : Expression) : Prop := ∃ head value, e = .jump [] false false head value

theorem reads_return (hvalue : Reads Token.AllMatch (g.expression true) (Token.symbol "::" ++ ts) endsExpression fun _ ws => ws = []) :
    Reads Token.AllMatch (operand g true) (Token.word "return" :: (Token.symbol "::" ++ ts)) endsExpression fun e ws =>
      Returns e ∧ ws = [] := by
  have hfirst : ∀ {us more : List Token} {s : Stream}, Token.AllMatch (Token.word "return" :: (Token.symbol "::" ++ ts)) us →
      s.rest = us ++ more → ∃ pos rest, s.rest = .ident "return" pos :: rest := by
    intro us more s hu hs
    obtain ⟨pos, vs, rfl, -⟩ := Token.AllMatch.of_ident hu
    exact ⟨pos, _, hs⟩
  have hword : Reads Token.AllMatch (apart (word "return")) [Token.word "return"] (fun _ => true) fun _ ws => ws = [] :=
    (Copies.apart copies_word).imp fun h => h.2
  have hjump : Reads Token.AllMatch (do jump g false false true (← apart (word "return")))
      ([Token.word "return"] ++ (Token.symbol "::" ++ ts)) endsExpression fun e ws => Returns e ∧ ws = [] := by
    refine Reads.bind hword (fun head ws hw => reads_idle true (fun {us more s} hu _ hs => ?_) ?_) fun _ _ => rfl
    · obtain ⟨pos, joint, next, vs, rfl, -⟩ := Token.AllAgree.of_symbol_pair hu.1 ':' ':' rfl
      obtain ⟨_, closesAt, within, leftover, written⟩ := s
      obtain rfl := hs
      rfl
    · subst hw
      refine Reads.bind_nil hvalue fun value ws hw => ?_
      subst hw
      exact reads_pure ⟨⟨head, value, rfl⟩, rfl⟩
  refine reads_operandAt (fun hu hs => (hfirst hu hs).elim fun _ h => h.elim fun _ hs => atomHere_of_return hs)
    (hjump.congr fun hu _ hs => (hfirst hu hs).elim fun _ h => h.elim fun _ hs => run_simpleAtom_return hs) fun e he => ?_
  obtain ⟨head, value, rfl⟩ := he
  exact ⟨rfl, nofun⟩

end

end Read

section

variable {ts : List Token}

/-- A return with a value that is named from the root, and a semicolon after it. -/
theorem isLast_return (h : IsOperand (Token.symbol "::" ++ ts)) :
    IsLast (Token.word "return" :: (Token.symbol "::" ++ ts) ++ Token.symbol ";") := by
  have hfirst : ∀ {us : List Token}, Token.AllMatch (Token.word "return" :: (Token.symbol "::" ++ ts)) us →
      ∃ pos rest, us = .ident "return" pos :: rest := by
    intro us hu
    obtain ⟨pos, vs, rfl, -⟩ := Token.AllMatch.of_ident hu
    exact ⟨pos, vs, rfl⟩
  have hopens : ∀ {us more : List Token}, Token.AllMatch (Token.word "return" :: (Token.symbol "::" ++ ts)) us →
      opensNext (us ++ more) = true := by
    intro us more hu
    obtain ⟨pos, vs, rfl⟩ := hfirst hu
    rfl
  constructor
  case opens =>
    intro us more hu
    obtain ⟨vs, ws, rfl, hv, -⟩ := Token.Likeness.of_append hu
    rw [List.append_assoc]
    exact hopens hv
  case reads =>
    intro depth hsize
    rw [sizes_append, show Token.sizes (Token.word "return" :: (Token.symbol "::" ++ ts)) = 1 + Token.sizes (Token.symbol "::" ++ ts) from rfl]
      at hsize
    obtain ⟨depth, rfl⟩ : ∃ d, depth = d + 1 := ⟨depth - 1, by omega⟩
    have hboundary : Makes Token.AllMatch (grammar (depth + 1 + 2)).boundary (Token.word "return" :: (Token.symbol "::" ++ ts)) endsExpression
        (·.endsStatement = false) := by
      refine reads_idle [] (fun {us more s} hu _ hs => ?_) (reads_idle none (fun {us more s} hu _ hs => ?_) ?_)
      · obtain ⟨pos, vs, rfl⟩ := hfirst hu
        exact Read.run_apartAttributes (hs ▸ rfl)
      · obtain ⟨pos, vs, rfl⟩ := hfirst hu
        exact (Read.atomHere_of_return hs).noBlock
      · have hvalue := (h.reads_expression depth (by omega)).imp fun {_ _} h => h.2
        refine Makes.bind_nil ((Read.reads_return hvalue).imp fun h => h.1) fun e ⟨head, value, he⟩ => reads_nil fun s hm => ?_
        subst he
        exact ⟨.jump [] false false head value, [], rfl, Read.run_continued rfl true hm⟩
    have hread : Makes Token.AllMatch (Read.expressionStatement (grammar (depth + 1 + 2)))
        (Token.word "return" :: (Token.symbol "::" ++ ts) ++ Token.symbol ";") List.isEmpty (· = false) :=
      (Read.makes_expressionStatement hopens hboundary true).mono fun _ _ => rfl
    refine (hread.congr fun {us more s} hu _ hs => ?_).imp fun _ => trivial
    obtain ⟨vs, ws, rfl, hv, -⟩ := Token.Likeness.of_append hu
    obtain ⟨pos, xs, rfl⟩ := hfirst hv
    exact Read.run_statement_of_word (by decide) hs

/-! ## Conditions -/

/-- Every grammar that is deep enough reads the tokens before a block. -/
def ReadsCondition (ts : List Token) : Prop :=
  ∀ depth, Token.sizes ts ≤ depth →
    Makes Token.AllMatch (Read.expression (grammar (depth + 1)) false) ts (Expected.group .brace).stands fun _ => True

theorem exists_of_brace {ts : List Token} (h : (Expected.group .brace).stands ts = true) :
    ∃ content opensAt closesAt rest, ts = .group .brace content opensAt closesAt :: rest := Read.exists_of_endsSignature h

/-- Nothing goes on with an operand in front of a block. -/
theorem run_trailerStep_of_brace {g : Grammar} {e : Expression} (he : e.isRange = false) {s : Stream}
    (h : (Expected.group .brace).stands s.rest = true) : Read.trailerStep g e s = .ok (.done e, s) := by
  obtain ⟨content, opens, closes, rest, hs⟩ := exists_of_brace h
  unfold Read.trailerStep
  rw [he]
  obtain ⟨_, closesAt, within, leftover, written⟩ := s
  obtain rfl := hs
  rfl

theorem run_continuedStep_of_brace {g : Grammar} {e : Expression} (he : e.isRange = false) {s : Stream}
    (h : (Expected.group .brace).stands s.rest = true) : Read.continuedStep g false .jump e s = .ok (.done e, s) := by
  obtain ⟨content, opens, closes, rest, hs⟩ := exists_of_brace h
  unfold Read.continuedStep
  rw [he]
  obtain ⟨_, closesAt, within, leftover, written⟩ := s
  obtain rfl := hs
  rfl

/-- A field and a call on it, both behind a path, up to a block. -/
theorem reads_fieldMethod {g : Grammar} {name method : String} (hname : isReserved name = false) (hmethod : isReserved method = false)
    {e : Expression} (he : e.Tight Token.AllMatch ts) :
    Reads Token.AllMatch (Read.trailers g e) ((Token.symbol "." ++ [Token.word name]) ++
      (Token.symbol "." ++ [Token.word method, .enclosed .parenthesis []])) (Expected.group .brace).stands
      fun e' ws => e'.Tight Token.AllMatch (ts ++ ((Token.symbol "." ++ [Token.word name]) ++
        (Token.symbol "." ++ [Token.word method, .enclosed .parenthesis []]))) ∧ ws = [] := by
  have hident : ∀ {name : String} {ts us : List Token}, Token.AllMatch (Token.word name :: ts) us →
      ∃ found pos rest, us = .ident found pos :: rest := by
    intro name ts us hu
    obtain ⟨pos, vs, rfl, -⟩ := Token.AllMatch.of_ident hu
    exact ⟨_, _, _, rfl⟩
  refine Reads.loop fun n hn => ?_
  obtain ⟨n, rfl⟩ : ∃ k, n = k + 3 := by
    simp only [List.length_append, List.length_cons, List.length_nil, show (Token.symbol ".").length = 1 from rfl] at hn
    exact ⟨n - 3, by omega⟩
  refine Read.reads_turnThen (Read.reads_memberTrailer he (Read.copies_field hname) hident) (fun e' he' => ?_) fun hw _ => ?_
  · have hcall : Reads Token.AllMatch (Read.trailerStep g e')
        (Token.symbol "." ++ [Token.word method, .enclosed .parenthesis []]) (fun _ => true) _ :=
      Read.reads_memberTrailer he' (Read.copies_method hmethod (List.forall_mem_nil _) (fun _ => rfl)) hident
    have hend : ∀ e'', e''.Tight Token.AllMatch (ts ++ (Token.symbol "." ++ [Token.word name]) ++
        (Token.symbol "." ++ [Token.word method, .enclosed .parenthesis []])) →
        Reads Token.AllMatch (turns (Read.trailerStep g) (n + 1) e'') [] (Expected.group .brace).stands
          fun e ws => e.Tight Token.AllMatch (ts ++ (Token.symbol "." ++ [Token.word name]) ++
            (Token.symbol "." ++ [Token.word method, .enclosed .parenthesis []]) ++ []) ∧ ws = [] := fun e'' he'' =>
      reads_nil fun s hm => ⟨e'', [], ⟨(List.append_nil _).symm ▸ he'', rfl⟩,
        run_turns_done (run_trailerStep_of_brace he''.isRange hm)⟩
    have hlast := Read.reads_turnThen hcall hend fun _ _ => rfl
    rwa [List.append_nil] at hlast
  · obtain ⟨pos, xs, rfl, -⟩ := Token.AllMatch.of_punct hw
    rfl

/-- A method without arguments of a field. -/
theorem readsCondition_of_field {path : PathExpr} (bare : path.IsBare) {name method : String} (hname : isReserved name = false)
    (hmethod : isReserved method = false) :
    ReadsCondition (path.tokens ++ ((Token.symbol "." ++ [Token.word name]) ++
      (Token.symbol "." ++ [Token.word method, .enclosed .parenthesis []]))) := by
  intro depth hsize
  rw [sizes_append] at hsize
  have hoperand := Read.reads_operandWith (Read.opensOperand_of_isBare bare) (Read.reads_pathAlone (rereads_grammar depth) bare (by omega) false)
    (fun e he => reads_fieldMethod hname hmethod he) fun hw _ => by
      obtain ⟨pos, xs, rfl, -⟩ := Token.AllMatch.of_punct hw
      rfl
  refine Reads.bind_nil hoperand fun e ws ⟨he, _⟩ => reads_nil fun s hm => ?_
  exact ⟨e, [], trivial, run_turns_done (run_continuedStep_of_brace he.isRange hm)⟩

/-! ## Branches -/

/-- The statements of a block, read by every grammar that is deep enough. -/
def IsBody (ts : List Token) : Prop :=
  ∀ depth, Token.sizes ts ≤ depth → Makes Token.AllMatch (Read.statements (grammar (depth + 2))) ts List.isEmpty fun _ => True

theorem isBody_of_statements {statements : List (List Token)} (h : ∀ s ∈ statements, IsStatement s) {last : List Token}
    (hlast : IsLast last) : IsBody (statements.flatten ++ last) := fun _ hsize => Read.makes_statements h hlast hsize

theorem IsLast.isBody (h : IsLast ts) : IsBody ts := @isBody_of_statements [] nofun ts h

theorem makes_ifExpression {condition body : List Token} (hcondition : ReadsCondition condition) (hbody : IsBody body) {depth : Nat}
    {opensAt closesAt : Position} (hc : Token.sizes condition ≤ depth) (hb : Token.sizes body + 1 ≤ depth) :
    Makes Token.AllMatch (Read.ifExpression (grammar (depth + 2)))
      (Token.word "if" :: (condition ++ [.group .brace body opensAt closesAt])) opensNext fun _ => True := by
  refine Reads.loop fun n hn => ?_
  obtain ⟨n, rfl⟩ : ∃ k, n = k + 1 := ⟨n - 1, by omega⟩
  have hread : Makes Token.AllMatch ((grammar (depth + 2)).expressionIn .ofCondition false) condition (Expected.group .brace).stands
      fun _ => True := Makes.bind_nil (hcondition depth hc) fun e _ => by
    have hwrite : Makes Token.AllMatch (write (e.tokens .ofCondition) >>= pure) [] (Expected.group .brace).stands fun _ => True :=
      Read.makes_writing (reads_pure trivial)
    exact hwrite
  have hblock : Makes Token.AllMatch (inside .brace (grammar (depth + 2)).statements) [.group .brace body opensAt closesAt]
      (fun _ => true) fun _ => True := by
    obtain ⟨depth, rfl⟩ : ∃ d, depth = d + 1 := ⟨depth - 1, by omega⟩
    exact Makes.inside (hbody depth (by omega))
  have hrest : Makes Token.AllMatch (do
      inside .brace (grammar (depth + 2)).statements
      if ← word? "else" then
        if ← sees (.word "if") then pure (Turn.again ())
        else if ← sees (.group .brace) then
          inside .brace (grammar (depth + 2)).statements
          pure (.done ())
        else failNoneOf [.word "if", .group .brace]
      else pure (.done ())) ([.group .brace body opensAt closesAt] ++ []) opensNext (· = .done ()) := by
    refine Makes.bind hblock (fun _ _ => reads_unworded (fun hu hm => ?_) (takes_pure _)) fun _ _ => rfl
    rw [eq_nil_of_like hu]
    exact not_stands_of_opensNext hm (by decide)
  have hstep := Makes.bind (takes_word : Takes Token.AllMatch (word "if") [Token.word "if"] (fun _ => true) ())
    (fun _ _ => Makes.bind hread (fun _ _ => hrest) fun hu _ => ?_) fun _ _ => rfl
  · refine Makes.bind_nil hstep fun turn ht => ?_
    subst ht
    exact reads_pure trivial
  · obtain ⟨inner, opens, closes, rfl, -⟩ := exists_of_group hu
    rfl

theorem exists_of_ifTokens {ts us more : List Token} {s : Stream} (hu : Token.AllMatch (Token.word "if" :: ts) us)
    (hs : s.rest = us ++ more) : ∃ pos rest, s.rest = .ident "if" pos :: rest := by
  obtain ⟨pos, vs, rfl, -⟩ := Token.AllMatch.of_ident hu
  exact ⟨pos, _, hs⟩

/-- A branch is read as an expression that ends its statement, and nothing after it belongs to it. -/
theorem makes_ifBoundary {condition body : List Token} (hcondition : ReadsCondition condition) (hbody : IsBody body) {depth : Nat}
    {opensAt closesAt : Position} (hc : Token.sizes condition ≤ depth) (hb : Token.sizes body + 1 ≤ depth) :
    Makes Token.AllMatch (grammar (depth + 1 + 2)).boundary
      (Token.word "if" :: (condition ++ [.group .brace body opensAt closesAt])) opensNext (·.endsStatement = true) := by
  have hkind : Makes Token.AllMatch (Read.blockKind? (grammar (depth + 2)))
      (Token.word "if" :: (condition ++ [.group .brace body opensAt closesAt])) opensNext (· = some (.block false false)) := by
    have hread : Makes Token.AllMatch (do Read.ifExpression (grammar (depth + 2)); pure (some (Atom.block false false)))
        (Token.word "if" :: (condition ++ [.group .brace body opensAt closesAt])) opensNext (· = some (.block false false)) :=
      Makes.bind_nil (makes_ifExpression hcondition hbody hc hb) fun _ _ => takes_pure _
    refine hread.congr fun {us more s} hu _ hs => ?_
    obtain ⟨pos, rest, hs⟩ := exists_of_ifTokens hu hs
    obtain ⟨_, closesAt, within, leftover, written⟩ := s
    obtain rfl := hs
    rfl
  have hatom : Makes Token.AllMatch (Read.blockAtom? (grammar (depth + 2)))
      (Token.word "if" :: (condition ++ [.group .brace body opensAt closesAt])) opensNext
      fun read => ∃ content, read = some (.atom [] (.block false false) content) := by
    refine Makes.bind_nil ((Reads.captured hkind).imp fun h => h.1) fun read hread => ?_
    obtain ⟨kind, content⟩ := read
    obtain rfl : kind = some (Atom.block false false) := hread
    exact reads_pure ⟨content, rfl⟩
  refine reads_idle [] (fun {us more s} hu _ hs => ?_) (Makes.bind_nil hatom fun read ⟨content, hread⟩ => ?_)
  · obtain ⟨pos, rest, hs⟩ := exists_of_ifTokens hu hs
    exact Read.run_apartAttributes (hs ▸ rfl)
  · subst hread
    refine reads_seesBut false (fun hu hm => ?_) (reads_sees false (fun hu hm => ?_) (reads_pure rfl))
    · rw [eq_nil_of_like hu, List.nil_append, not_stands_of_opensNext hm (by decide)]
      rfl
    · rw [eq_nil_of_like hu]
      exact not_stands_of_opensNext hm (by decide)

/-- A branch without another one. -/
theorem isStatement_if {condition body : List Token} (hcondition : ReadsCondition condition) (hbody : IsBody body)
    {opensAt closesAt : Position} :
    IsStatement (Token.word "if" :: (condition ++ [.group .brace body opensAt closesAt])) where
  opens hu := by
    obtain ⟨pos, vs, rfl, -⟩ := Token.AllMatch.of_ident hu
    rfl
  reads depth hsize := by
    have hsizes : Token.sizes (Token.word "if" :: (condition ++ [.group .brace body opensAt closesAt])) =
        1 + (Token.sizes condition + (Token.sizes body + 1)) := by
      rw [Token.sizes, sizes_append]
      rfl
    rw [hsizes] at hsize
    obtain ⟨depth, rfl⟩ : ∃ d, depth = d + 1 := ⟨depth - 1, by omega⟩
    have hboundary := @makes_ifBoundary condition body hcondition hbody depth opensAt closesAt (by omega) (by omega)
    have hvalue : Makes Token.AllMatch (do
        let attributes ← apart (Read.outerAttributes (grammar (depth + 1 + 2)))
        pure (attributes, ← (grammar (depth + 1 + 2)).boundary)) (Token.word "if" :: (condition ++ [.group .brace body opensAt closesAt]))
        opensNext (·.2.endsStatement = true) := by
      refine reads_idle [] (fun {us more s} hu _ hs => ?_) (Makes.bind_nil hboundary fun _ he => reads_pure he)
      obtain ⟨pos, rest, hs⟩ := exists_of_ifTokens hu hs
      exact Read.run_apartAttributes (hs ▸ rfl)
    have hread : Makes Token.AllMatch (Read.expressionStatement (grammar (depth + 1 + 2)))
        (Token.word "if" :: (condition ++ [.group .brace body opensAt closesAt])) opensNext (· = false) := by
      refine Makes.bind_nil ((Reads.sourceOf hvalue).imp fun h => h.1.elim fun _ h => h) fun read he => Read.makes_writing ?_
      refine reads_unmarked (fun hu hm => ?_) ?_
      · rw [eq_nil_of_like hu]
        exact not_stands_of_opensNext hm (by decide)
      · rw [he]
        exact takes_pure _
    refine hread.congr fun {us more s} hu _ hs => ?_
    obtain ⟨pos, rest, hs⟩ := exists_of_ifTokens hu hs
    exact Read.run_statement_of_word (by decide) hs

/-! ## Bindings -/

/-- Every grammar that is deep enough reads the tokens as a pattern. -/
def ReadsPattern (ts : List Token) : Prop :=
  ∀ depth, Token.sizes ts ≤ depth → Makes Token.AllMatch (Read.pattern (grammar (depth + 1))) ts endsBinding fun _ => True

/-- Every grammar that is deep enough reads the tokens as the value of a binding. -/
def ReadsValue (ts : List Token) : Prop :=
  ∀ depth, Token.sizes ts ≤ depth → Makes Token.AllMatch (Read.expression (grammar (depth + 1)) true) ts endsExpression fun _ => True

theorem IsOperand.readsValue (h : IsOperand ts) : ReadsValue ts := fun depth hsize =>
  (h.reads_expression depth hsize).imp fun _ => trivial

theorem readsPattern_name {name : String} (h : isReserved name = false) : ReadsPattern [Token.word name] := fun _ _ =>
  (Read.copies_pattern false h).makes.imp fun _ => trivial

theorem makes_letStatement {pattern value : List Token} {depth : Nat}
    (hpattern : Makes Token.AllMatch (Read.pattern (grammar (depth + 1))) pattern endsBinding fun _ => True)
    (hvalue : Makes Token.AllMatch (Read.expression (grammar (depth + 1)) true) value endsExpression fun _ => True) :
    Makes Token.AllMatch (Read.letStatement (grammar (depth + 2)))
      (Token.word "let" :: (pattern ++ (Token.symbol "=" ++ (value ++ Token.symbol ";")))) opensNext fun _ => True := by
  have hequals : ∀ {us more : List Token}, Token.AllMatch (Token.symbol "=" ++ (value ++ Token.symbol ";")) us →
      ∃ pos rest, us ++ more = .punct '=' false pos :: rest := by
    intro us more hu
    obtain ⟨pos, vs, rfl, -⟩ := Token.AllMatch.of_punct hu
    exact ⟨pos, _, rfl⟩
  have hend : ∀ {us : List Token}, Token.AllMatch (Token.symbol ";") us → ∃ joint pos, us = [.punct ';' joint pos] :=
    fun hu => Token.AllAgree.of_symbol_alone hu.1 ';' rfl
  have hread : Makes Token.AllMatch ((grammar (depth + 2)).expression true) value (Expected.mark ";").stands fun _ => True :=
    hvalue.mono fun more hm => by
      obtain ⟨joint, pos, rest, rfl⟩ := exists_punct_of_stands ';' rfl hm
      rfl
  refine Makes.bind (takes_word : Takes Token.AllMatch _ _ (fun _ => true) ()) (fun _ _ => ?_) fun _ _ => rfl
  refine Makes.bind (makes_discard hpattern) (fun _ _ => ?_) fun {us more} hu _ => ?_
  rotate_left
  · obtain ⟨pos, rest, hus⟩ := @hequals us more hu
    rw [hus]
    rfl
  refine reads_unmarked (fun {us more} hu _ => ?_) (makes_marked (by decide) ?_)
  · obtain ⟨pos, rest, hus⟩ := @hequals us more hu
    rw [hus]
    rfl
  refine Makes.bind ((Reads.sourceOf hread).imp fun _ => trivial) (fun read (_ : True) => Read.makes_writing ?_) fun hu _ => ?_
  · refine reads_sees false (fun hu _ => ?_) ?_
    · obtain ⟨joint, pos, rfl⟩ := hend hu
      rfl
    · rw [Bool.and_false, if_neg Bool.false_ne_true]
      exact (takes_mark ";" (by decide)).imp fun _ => trivial
  · obtain ⟨joint, pos, rfl⟩ := hend hu
    rfl

theorem isStatement_let {pattern value : List Token} (hpattern : ReadsPattern pattern) (hvalue : ReadsValue value) :
    IsStatement (Token.word "let" :: (pattern ++ (Token.symbol "=" ++ (value ++ Token.symbol ";")))) where
  opens hu := by
    obtain ⟨pos, vs, rfl, -⟩ := Token.AllMatch.of_ident hu
    rfl
  reads depth hsize := by
    have hsizes : Token.sizes (Token.word "let" :: (pattern ++ (Token.symbol "=" ++ (value ++ Token.symbol ";")))) =
        1 + (Token.sizes pattern + (1 + (Token.sizes value + 1))) := by
      rw [Token.sizes, sizes_append, sizes_append, sizes_append]
      rfl
    rw [hsizes] at hsize
    have hlet : Makes Token.AllMatch (do Read.letStatement (grammar (depth + 2)); pure false)
        (Token.word "let" :: (pattern ++ (Token.symbol "=" ++ (value ++ Token.symbol ";")))) opensNext (· = false) :=
      Makes.bind_nil (makes_letStatement (hpattern depth (by omega)) (hvalue depth (by omega))) fun _ _ => takes_pure _
    refine hlet.congr fun {us more s} hu _ hs => ?_
    obtain ⟨pos, vs, rfl, -⟩ := Token.AllMatch.of_ident hu
    obtain ⟨_, closesAt, within, leftover, written⟩ := s
    obtain rfl := hs
    rfl

end

/-! ### Patterns of structs -/

namespace Read

variable {g : Grammar}

/-- One turn over the fields of a pattern. -/
def fieldsStep (g : Grammar) (_ : Unit) : Parser (Turn Unit Unit) := do
  if ← atEnd then pure (.done ())
  else
    discard (outerAttributes g)
    if ← mark? ".." then pure (.done ())
    else
      fieldPattern g
      if ← atEnd then pure (.done ())
      else
        mark ","
        pure (.again ())

theorem makes_fieldPattern {name : String} (h : isReserved name = false) :
    Makes Token.AllMatch (fieldPattern g) [Token.word name] (Expected.mark ",").stands fun _ => True := by
  have hword : ∀ {word : String}, isReserved word = true → ∀ {us more : List Token}, Token.AllMatch [Token.word name] us →
      (Expected.mark ",").stands more = true → (Expected.word word).stands (us ++ more) = false := by
    intro word hreserved us more hu _
    obtain ⟨pos, rfl⟩ := exists_of_word hu
    exact beq_eq_false_iff_ne.mpr (ne_of_not_isReserved h hreserved)
  refine reads_sees false (hword (by decide)) (reads_unworded (hword (by decide)) (reads_unworded (hword (by decide)) ?_))
  refine Makes.bind_nil (copies_member h).makes fun named hnamed => ?_
  subst hnamed
  refine reads_sees false (fun hu hm => ?_) (reads_pure trivial)
  rw [eq_nil_of_like hu]
  obtain ⟨joint, pos, rest, rfl⟩ := exists_punct_of_stands ',' rfl hm
  rfl

theorem makes_fieldsStep {name : String} (h : isReserved name = false) :
    Makes Token.AllMatch (fieldsStep g ()) (Token.word name :: Token.symbol ",") (fun _ => true) (· = .again ()) := by
  have hfirst : ∀ {us : List Token}, Token.AllMatch (Token.word name :: Token.symbol ",") us → ∃ pos rest, us = .ident name pos :: rest := by
    intro us hu
    obtain ⟨pos, vs, rfl, -⟩ := Token.AllMatch.of_ident hu
    exact ⟨pos, vs, rfl⟩
  have hcomma : ∀ {us : List Token}, Token.AllMatch (Token.symbol ",") us → ∃ joint pos, us = [.punct ',' joint pos] :=
    fun hu => Token.AllAgree.of_symbol_alone hu.1 ',' rfl
  refine reads_atEnd false (fun hu _ => ?_) (reads_discardUnattributed (fun hu _ => ?_) (reads_unmarked (fun hu _ => ?_) ?_))
  iterate 3
    obtain ⟨pos, rest, rfl⟩ := hfirst hu
    rfl
  refine Makes.bind (makes_fieldPattern h) (fun _ _ => reads_atEnd false (fun hu _ => ?_) ?_) fun hu _ => ?_
  · obtain ⟨joint, pos, rfl⟩ := hcomma hu
    rfl
  · exact Makes.bind_nil (takes_mark "," (by decide)) fun _ _ => takes_pure _
  · obtain ⟨joint, pos, rfl⟩ := hcomma hu
    rfl

/-- At the end, or at two points, nothing else is read. -/
theorem makes_lastField (others : Bool) :
    Makes Token.AllMatch (fieldsStep g ()) (if others then Token.symbol ".." else []) List.isEmpty (· = .done ()) := by
  cases others with
  | true =>
    refine reads_atEnd false (fun hu _ => ?_) (reads_discardUnattributed (fun hu _ => ?_) ?_)
    iterate 2
      obtain ⟨pos, joint, next, vs, rfl, -⟩ := @Token.AllAgree.of_symbol_pair ".." [] _ hu.1 '.' '.' rfl
      rfl
    refine Makes.bind_nil (copies_mark? ".." (by decide)).makes fun found hfound => ?_
    subst hfound
    exact takes_pure _
  | false =>
    refine reads_atEnd true (fun hu hm => ?_) (takes_pure _)
    rw [eq_nil_of_like hu]
    exact hm

theorem makes_turnsOfFields {names : List String} (h : ∀ name ∈ names, isReserved name = false) (others : Bool) {n : Nat}
    (hn : (names.flatMap fun name => Token.word name :: Token.symbol ",").length < n) :
    Makes Token.AllMatch (turns (fieldsStep g) n ())
      ((names.flatMap fun name => Token.word name :: Token.symbol ",") ++ if others then Token.symbol ".." else []) List.isEmpty
      fun _ => True := by
  induction names generalizing n with
  | nil =>
    obtain ⟨n, rfl⟩ : ∃ k, n = k + 1 := ⟨n - 1, by omega⟩
    refine Makes.bind_nil (makes_lastField others) fun turn ht => ?_
    subst ht
    exact reads_pure trivial
  | cons name rest ih =>
    obtain ⟨n, rfl⟩ : ∃ k, n = k + 1 := ⟨n - 1, by omega⟩
    rw [List.flatMap_cons, List.length_append, List.length_cons, show (Token.symbol ",").length = 1 from rfl] at hn
    rw [List.flatMap_cons, List.append_assoc]
    refine Makes.bind (makes_fieldsStep (h name List.mem_cons_self)) (fun turn ht => ?_) fun _ _ => rfl
    subst ht
    exact ih (fun other ho => h other (List.mem_cons_of_mem _ ho)) (by omega)

end Read

/-- The fields of the builder itself, with or without others. -/
theorem readsPattern_fields {names : List String} (h : ∀ name ∈ names, isReserved name = false) (others : Bool) :
    ReadsPattern [Token.word "Self", .enclosed .brace
      ((names.flatMap fun name => Token.word name :: Token.symbol ",") ++ if others then Token.symbol ".." else [])] := by
  intro depth hsize
  have bare : (PathExpr.ofNames false ["Self"]).IsBare := ⟨false, ["Self"], nofun, by decide, rfl⟩
  have hshape : ∀ {us : List Token}, Token.AllMatch ([Token.word "Self"] ++ [.enclosed .brace
      ((names.flatMap fun name => Token.word name :: Token.symbol ",") ++ if others then Token.symbol ".." else [])]) us →
      ∃ pos inner opens closes, us = [.ident "Self" pos, .group .brace inner opens closes] := by
    intro us hu
    obtain ⟨pos, vs, rfl, hv⟩ := Token.AllMatch.of_ident hu
    obtain ⟨inner, opens, closes, rfl, -⟩ := exists_of_group hv
    exact ⟨pos, inner, opens, closes, rfl⟩
  have hpath : Makes Token.AllMatch (Read.qualifiedPath (grammar (depth + 1)) true) [Token.word "Self"] endsPath
      (· = .path (.ofNames false ["Self"])) := (Read.copies_pathName (rereads_grammar depth) bare (Nat.le_trans (Nat.le_add_right 1 _) hsize)).makes
  have hfields : Makes Token.AllMatch (Read.structFields (grammar (depth + 1))) [.enclosed .brace
      ((names.flatMap fun name => Token.word name :: Token.symbol ",") ++ if others then Token.symbol ".." else [])]
      endsBinding fun _ => True :=
    Makes.inside (Reads.loop fun n hn => Read.makes_turnsOfFields h others (by rw [List.length_append] at hn; omega))
  have hafter : Makes Token.AllMatch (Read.afterPath (grammar (depth + 1))) ([Token.word "Self"] ++ [.enclosed .brace
      ((names.flatMap fun name => Token.word name :: Token.symbol ",") ++ if others then Token.symbol ".." else [])])
      endsBinding fun _ => True := by
    refine Makes.bind hpath (fun path hread => ?_) fun hu _ => ?_
    · subst hread
      refine reads_seesBut false (fun hu _ => ?_) (reads_sees true (fun hu _ => ?_) (Makes.bind_nil hfields fun _ _ => reads_pure trivial))
      iterate 2
        obtain ⟨inner, opens, closes, rfl, -⟩ := exists_of_group hu
        rfl
    · obtain ⟨inner, opens, closes, rfl, -⟩ := exists_of_group hu
      rfl
  refine hafter.congr fun {us more s} hu _ hs => ?_
  obtain ⟨pos, inner, opens, closes, rfl⟩ := hshape hu
  obtain ⟨_, closesAt, within, leftover, written⟩ := s
  obtain rfl := hs
  rfl

/-! ### Values that may be missing -/

/-- The value of a name, or else of what a closure gives. -/
theorem readsValue_orElse {path : PathExpr} (bare : path.IsBare) {method : String} (hmethod : isReserved method = false)
    {value : List Token} (h : IsPlainExpression value) :
    ReadsValue (path.tokens ++ (Token.symbol "." ++
      Token.word method :: .enclosed .parenthesis (Token.symbol "||" ++ value) :: Token.symbol "?")) := by
  intro depth hsize
  have hsizes : Token.sizes (path.tokens ++ (Token.symbol "." ++
      Token.word method :: .enclosed .parenthesis (Token.symbol "||" ++ value) :: Token.symbol "?")) =
      Token.sizes path.tokens + (1 + (1 + ((2 + Token.sizes value + 1) + 1))) := by
    rw [sizes_append]
    show _ + (1 + (1 + ((Token.sizes (Token.symbol "||" ++ value) + 1) + 1))) = _
    rw [sizes_append]
    rfl
  obtain ⟨depth, rfl⟩ : ∃ d, depth = d + 1 := ⟨depth - 1, by omega⟩
  have hargument : ∀ a ∈ [Read.bars ++ value], Read.Alone Token.AllAgree (grammar (depth + 2)) a :=
    List.forall_mem_singleton.mpr (Read.alone_closure h (by omega))
  have htrailers : IsPlainTrailers (Read.Alone Token.AllAgree (grammar (depth + 2))) (Token.symbol "." ++
      Token.word method :: .enclosed .parenthesis (commas false [Read.bars ++ value]) :: (Token.symbol "?" ++ [])) :=
    .method hmethod hargument (fun _ => rfl) (.question .nil)
  have hoperand := Read.reads_operandOf (Read.opensOperand_of_isBare bare)
    (Read.reads_pathAlone (rereads_grammar (depth + 1)) bare (by omega) true) htrailers
  have hcommas : commas false [Read.bars ++ value] = Read.bars ++ value := List.append_nil _
  simp only [hcommas, List.append_nil] at hoperand
  have hread : Makes Token.AllAgree (Read.expression (grammar (depth + 1 + 1)) true) (path.tokens ++ (Token.symbol "." ++
      Token.word method :: .enclosed .parenthesis (Read.bars ++ value) :: Token.symbol "?")) endsExpression fun _ => True := by
    refine Reads.bind_nil (hoperand.mono fun _ => Read.endsOperand_of_endsExpression) fun e ws he => ?_
    exact reads_nil fun s hm => ⟨e, [], trivial, Read.run_continued he.1.isRange true hm⟩
  have hbars : Token.AllAgree (path.tokens ++ (Token.symbol "." ++
        Token.word method :: .enclosed .parenthesis (Read.bars ++ value) :: Token.symbol "?"))
      (path.tokens ++ (Token.symbol "." ++
        Token.word method :: .enclosed .parenthesis (Token.symbol "||" ++ value) :: Token.symbol "?")) := by
    refine Token.allAgree_append (.refl _) (Token.allAgree_append (.refl _) ⟨rfl, ⟨rfl, ?_⟩, .refl _⟩)
    exact ⟨⟨rfl, nofun⟩, ⟨rfl, nofun⟩, Token.AllAgree.refl _⟩
  exact fun us more s hu hm hs => hread (hbars.trans hu.1) hm hs

end BuilderSynthesis.Syntax
