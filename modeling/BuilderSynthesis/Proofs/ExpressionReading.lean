/-
  BuilderSynthesis.Proofs.ExpressionReading — plain expressions are read again.

  A plain expression is an atom with calls and members after it: a path of names, a literal, a bracket, or
  a struct that is written out. No operator around it could take it apart, so it is written as it is
  wherever it stands (`Expression.Tight.tokens`), and it is read again as an expression that is written
  alike (`rereadsExpressions_grammar`).
-/

import BuilderSynthesis.Proofs.ItemReading

namespace BuilderSynthesis.Syntax

open BuilderSynthesis.Syntax.Parser

/-! ## Expressions that hold together -/

/-- No operator around such an atom could take a part of it, and it ends nothing that it stands in. -/
def Atom.isClosed : Atom → Bool
  | .path _ | .fields | .other => true
  | _ => false

/-- An atom with calls and members after it, which is written like the given tokens. -/
inductive Expression.Tight (like : List Token → List Token → Prop) : Expression → List Token → Prop where
  | atom {kind content ts} (closed : kind.isClosed = true) (written : like ts content) : Tight like (.atom [] kind content) ts
  | member {operand rest ts us} (owner : Tight like operand ts) (written : like us rest) :
      Tight like (.member [] operand rest) (ts ++ us)
  | call {function arguments trailing ts us} (owner : Tight like function ts)
      (written : like us [.enclosed .parenthesis (commas trailing arguments)]) :
      Tight like (.call [] function arguments trailing) (ts ++ us)

namespace Expression.Tight

variable {like : List Token → List Token → Prop} {e : Expression} {ts : List Token}

theorem isRange (h : e.Tight like ts) : e.isRange = false := by
  cases h with
  | @atom kind content ts closed written => cases kind <;> first | rfl | cases closed
  | member => rfl
  | call => rfl

theorem endsStatement (h : e.Tight like ts) : e.endsStatement = false := by
  cases h with
  | @atom kind content ts closed written => cases kind <;> first | rfl | cases closed
  | member => rfl
  | call => rfl

theorem withAttributes (h : e.Tight like ts) : e.withAttributes [] = e := by cases h <;> rfl

theorem withLeadingAttributes (h : e.Tight like ts) : e.withLeadingAttributes [] = e := by cases h <;> rfl

theorem holds (h : e.Tight like ts) (p : Surroundings) : p.holds e = .whole := by
  cases h with
  | @atom kind content ts closed written => cases kind <;> first | rfl | cases closed
  | member => rfl
  | call => rfl

theorem holdsLeft (h : e.Tight like ts) (p : Surroundings) : p.holdsLeft e = .whole := by
  unfold Surroundings.holdsLeft
  rw [h.holds]
  split <;> rfl

theorem encloses (h : e.Tight like ts) {p : Surroundings} (hc : p.condition = false) (he : p.endsCondition = false) :
    p.encloses e = false := by
  cases h with
  | @atom kind content ts closed written =>
    cases kind with
    | path path => simp only [Surroundings.encloses, Expression.endsStatement, Expression.isBinding, Expression.endsArm, he,
        Bool.and_false, Bool.false_and, Bool.or_false]
    | fields => simp only [Surroundings.encloses, Expression.endsStatement, Expression.isBinding, Expression.endsArm, hc,
        Bool.and_false, Bool.or_false]
    | other => simp only [Surroundings.encloses, Expression.endsStatement, Expression.isBinding, Expression.endsArm,
        Bool.and_false, Bool.or_false]
    | _ => cases closed
  | _ => simp only [Surroundings.encloses, Expression.endsStatement, Expression.isBinding, Expression.endsArm,
        Bool.and_false, Bool.or_false]

variable [Token.Likeness like]

/-- Nothing is put around it outside of a condition. -/
theorem tokens (h : e.Tight like ts) {p : Surroundings} (hc : p.condition = false) (he : p.endsCondition = false) :
    like ts (e.tokens p) := by
  induction h generalizing p with
  | atom closed written =>
    unfold Expression.tokens
    rw [(Expression.Tight.atom closed written).encloses hc he]
    exact written
  | @member operand rest ts us owner written ih =>
    have htokens : (Expression.member [] operand rest).tokens p =
        writtenPart operand.tokens ((p.ofOwner.holdsLeft operand).below .whole) p.ofOwner ++ rest := by
      rw [Expression.tokens, (Expression.Tight.member owner written).encloses hc he]
      rfl
    rw [htokens, owner.holdsLeft]
    exact Token.Likeness.append (ih hc rfl) written
  | @call function arguments trailing ts us owner written ih =>
    have htokens : (Expression.call [] function arguments trailing).tokens p =
        writtenPart function.tokens (((p.left true false .whole).holdsLeft function).below .whole) (p.left true false .whole) ++
          [.enclosed .parenthesis (commas trailing arguments)] := by
      rw [Expression.tokens, (Expression.Tight.call owner written).encloses hc he]
      rfl
    rw [htokens, owner.holdsLeft]
    exact Token.Likeness.append (ih hc rfl) written

end Expression.Tight
/-! ## What starts an operand -/

/-- A plain operand starts with a name, with separators, with a literal or with a round bracket. -/
def opensOperand : Token → Bool
  | .ident name _ => isPathName name && name != "try"
  | .punct c joint _ => c == ':' && joint
  | .literal .. => true
  | .group .parenthesis .. => true
  | _ => false

/-- No plain operand starts with this. -/
def Expected.neverOpens : Expected → Bool
  | .word name => !(isPathName name && name != "try")
  | .mark operator => operator.toList.head?.any (· != ':')
  | .group delimiter => delimiter != .parenthesis
  | .lifetime => true
  | _ => false

theorem not_stands_of_opensOperand {t : Token} (ht : opensOperand t = true) {rest : List Token} {e : Expected}
    (he : e.neverOpens = true) : e.stands (t :: rest) = false := by
  cases e with
  | word word =>
    cases t with
    | ident name pos =>
      refine beq_eq_false_iff_ne.mpr ?_
      rintro rfl
      exact absurd ht (Bool.not_eq_true _ ▸ (Bool.not_eq_true' _).mp he)
    | _ => rfl
  | mark operator =>
    show (afterMarks operator.toList (t :: rest)).isSome = false
    have hhead : operator.toList.head?.any (· != ':') = true := he
    cases hc : operator.toList with
    | nil =>
      rw [hc] at hhead
      cases hhead
    | cons c cs =>
      rw [hc] at hhead
      have hne : c ≠ ':' := bne_iff_ne.mp hhead
      cases t with
      | punct mark joint pos =>
        obtain rfl : mark = ':' := beq_iff_eq.mp (Bool.and_eq_true_iff.mp ht).1
        have hmark : (':' == c) = false := beq_eq_false_iff_ne.mpr hne.symm
        cases cs with
        | nil =>
          show (if (':' == c && c != '\'') = true then some rest else none).isSome = false
          rw [hmark]
          rfl
        | cons d ds =>
          show (if (':' == c && joint) = true then afterMarks (d :: ds) rest else none).isSome = false
          rw [hmark]
          rfl
      | _ => cases cs <;> rfl
  | group delimiter =>
    cases t with
    | group found content opensAt closesAt =>
      have hfound : found = .parenthesis := by
        cases found with
        | parenthesis => rfl
        | bracket => cases ht
        | brace => cases ht
      subst hfound
      exact beq_eq_false_iff_ne.mpr (Ne.symm (bne_iff_ne.mp he))
    | _ => rfl
  | lifetime =>
    cases t with
    | punct c joint pos =>
      obtain rfl : c = ':' := beq_iff_eq.mp (Bool.and_eq_true_iff.mp ht).1
      rfl
    | _ => rfl
  | _ => cases he

namespace Read

variable {g : Grammar} {s : Stream}

/-- What stands here starts a plain operand. -/
def OperandHere (s : Stream) : Prop := ∀ e : Expected, e.neverOpens = true → e.stands s.rest = false

theorem run_apartAttributes (h : (Expected.mark "#").stands s.rest = false) : apart (outerAttributes g) s = .ok ([], s) := by
  have hrun : outerAttributes g { s with written := [] } = .ok ([], { s with written := [] }) := run_outerAttributes h
  unfold apart captured
  rw [run_bind]
  simp only [hrun]
  rfl

theorem run_prefixOperator? (h : OperandHere s) : prefixOperator? s = .ok (none, s) := by
  unfold prefixOperator?
  simp only [run_bind, run_sees, run_pure, h (.mark "&") rfl, h (.mark "*") rfl, h (.mark "!") rfl, h (.mark "-") rfl,
    Bool.false_eq_true, if_false]

theorem run_blockKind? (h : OperandHere s) : blockKind? g s = .ok (none, s) := by
  unfold blockKind? bindsParameters
  simp only [run_bind, run_sees, run_seesAny, run_seesSecond, run_pure, List.any_cons, List.any_nil, h (.word "if") (by decide), h (.word "while") (by decide),
    h (.word "for") (by decide), h (.word "loop") (by decide), h (.word "match") (by decide), h (.word "unsafe") (by decide), h (.word "const") (by decide),
    h (.word "try") (by decide), h (.group .brace) rfl, h .lifetime rfl, Bool.false_eq_true, if_false, Bool.false_and, Bool.or_false]

theorem run_blockAtom? (h : OperandHere s) : blockAtom? g s = .ok (none, s) := by
  have hrun : blockKind? g { s with written := [] } = .ok (none, { s with written := [] }) := run_blockKind? h
  unfold blockAtom? captured
  rw [run_bind]
  simp only [hrun]
  rfl

theorem run_simpleAtom_of_literal {b : Bool} {text : String} {pos : Position} {rest : List Token}
    (hs : s.rest = .literal text pos :: rest) : simpleAtom g b s = atomOf (do discard literal; pure .other) s := by
  obtain ⟨_, closesAt, within, leftover, written⟩ := s
  obtain rfl := hs
  rfl

theorem run_simpleAtom_of_parenthesis {b : Bool} {content rest : List Token} {opensAt closesAt : Position}
    (hs : s.rest = .group .parenthesis content opensAt closesAt :: rest) :
    simpleAtom g b s = atomOf (do parenAtom g; pure .other) s := by
  obtain ⟨_, closesAt, within, leftover, written⟩ := s
  obtain rfl := hs
  rfl

theorem run_simpleAtom_of_path {b : Bool} (h : OperandHere s) (hliteral : Expected.literal.stands s.rest = false)
    (hbuiltin : ((Expected.word "builtin").stands s.rest && (Expected.mark "#").stands (afterTree s.rest)) = false)
    (hpath : [Expected.identifier, .mark "::", .mark "<", .word "self", .word "Self", .word "super", .word "crate"].any
      (·.stands s.rest) = true) :
    simpleAtom g b s = atomOf (pathAtom g b) s := by
  unfold simpleAtom startsClosure bindsParameters startsBuiltin startsPath
  simp only [run_bind, run_sees, run_seesAny, run_seesSecond, run_seesThird, run_pure, run_ite, List.any_cons, List.any_nil, hliteral, h (.word "async") (by decide),
    h (.mark "|") rfl, h (.word "move") (by decide), h (.word "static") (by decide), h (.word "for") (by decide),
    h (.word "const") (by decide), hbuiltin, Bool.false_eq_true, if_false, Bool.false_and, Bool.or_false]
  simp only [List.any_cons, List.any_nil, Bool.or_false] at hpath
  simp only [hpath, Bool.true_or, if_true]

end Read

/-! ## Plain expressions -/

section

variable (inner : List Token → Prop)

/-- A field that is set to the value of its own name, or to something inner. -/
inductive IsPlainValue : List Token → Prop where
  | short {name : String} (free : isReserved name = false) : IsPlainValue [Token.word name]
  | set {name : String} {value : List Token} (free : isReserved name = false) (plain : inner value) :
      IsPlainValue (Token.word name :: (Token.symbol ":" ++ value))

/-- A path of names that is not the crate itself, a literal, a bracket, or a struct that is written out. -/
inductive IsPlainAtom : List Token → Prop where
  | path {path : PathExpr} (bare : path.IsBare) (below : path.names ≠ ["crate"]) : IsPlainAtom path.tokens
  | literal (text : String) : IsPlainAtom [Token.text text]
  | tuple {elements : List (List Token)} {trailing : Bool} {opensAt closesAt : Position}
      (plain : ∀ e ∈ elements, inner e) (ended : elements = [] → trailing = false) :
      IsPlainAtom [.group .parenthesis (commas trailing elements) opensAt closesAt]
  | values {path : PathExpr} {values : List (List Token)} {trailing : Bool} {opensAt closesAt : Position} (bare : path.IsBare)
      (below : path.names ≠ ["crate"]) (plain : ∀ v ∈ values, IsPlainValue inner v) (ended : values = [] → trailing = false) :
      IsPlainAtom (path.tokens ++ [.group .brace (commas trailing values) opensAt closesAt])

/-- A call follows. -/
def opensCall : List Token → Bool
  | .group .parenthesis _ _ _ :: _ => true
  | _ => false

/-- Calls, fields, calls of methods, and question marks. -/
inductive IsPlainTrailers : List Token → Prop where
  | nil : IsPlainTrailers []
  | call {arguments : List (List Token)} {trailing : Bool} {opensAt closesAt : Position} {rest : List Token}
      (plain : ∀ a ∈ arguments, inner a) (ended : arguments = [] → trailing = false) (others : IsPlainTrailers rest) :
      IsPlainTrailers (.group .parenthesis (commas trailing arguments) opensAt closesAt :: rest)
  | field {name : String} {rest : List Token} (free : isReserved name = false) (apart : opensCall rest = false)
      (others : IsPlainTrailers rest) : IsPlainTrailers (Token.symbol "." ++ Token.word name :: rest)
  | method {name : String} {arguments : List (List Token)} {trailing : Bool} {opensAt closesAt : Position} {rest : List Token}
      (free : isReserved name = false) (plain : ∀ a ∈ arguments, inner a) (ended : arguments = [] → trailing = false)
      (others : IsPlainTrailers rest) :
      IsPlainTrailers (Token.symbol "." ++ Token.word name :: .group .parenthesis (commas trailing arguments) opensAt closesAt :: rest)
  | question {rest : List Token} (others : IsPlainTrailers rest) : IsPlainTrailers (Token.symbol "?" ++ rest)

end

/-- An atom with calls and members after it. -/
inductive IsPlainExpression : List Token → Prop where
  | operand {atom trailers : List Token} (first : IsPlainAtom IsPlainExpression atom)
      (others : IsPlainTrailers IsPlainExpression trailers) : IsPlainExpression (atom ++ trailers)

/-! ### Their parts -/

section

variable {inner other : List Token → Prop} {ts : List Token}

theorem IsPlainValue.imp (h : IsPlainValue inner ts) (himp : ∀ e, Token.sizes e ≤ Token.sizes ts → inner e → other e) :
    IsPlainValue other ts := by
  cases h with
  | short free => exact .short free
  | set free plain =>
    refine .set free (himp _ ?_ plain)
    simp only [Token.sizes, sizes_append]
    omega

theorem IsPlainAtom.imp (h : IsPlainAtom inner ts) (himp : ∀ e, Token.sizes e < Token.sizes ts → inner e → other e) :
    IsPlainAtom other ts := by
  cases h with
  | path bare below => exact .path bare below
  | literal text => exact .literal text
  | @tuple elements trailing opensAt closesAt plain ended =>
    refine .tuple (fun e he => himp e ?_ (plain e he)) ended
    have hle := sizes_le_commas trailing he
    simp only [Token.sizes, Token.size]
    omega
  | @values path values trailing opensAt closesAt bare below plain ended =>
    refine .values bare below (fun v hv => (plain v hv).imp fun e hsize => himp e ?_) ended
    have hle := sizes_le_commas trailing hv
    simp only [sizes_append, Token.sizes, Token.size]
    omega

theorem IsPlainTrailers.imp (h : IsPlainTrailers inner ts) (himp : ∀ e, Token.sizes e < Token.sizes ts → inner e → other e) :
    IsPlainTrailers other ts := by
  induction h with
  | nil => exact .nil
  | @call arguments trailing opensAt closesAt rest plain ended others ih =>
    simp only [Token.sizes, Token.size] at himp
    refine .call (fun a ha => himp a ?_ (plain a ha)) ended (ih fun e hsize => himp e (by omega))
    have hle := sizes_le_commas trailing ha
    omega
  | field free apart others ih =>
    simp only [sizes_append, Token.sizes] at himp
    exact .field free apart (ih fun e hsize => himp e (by omega))
  | @method name arguments trailing opensAt closesAt rest free plain ended others ih =>
    simp only [sizes_append, Token.sizes, Token.size] at himp
    refine .method free (fun a ha => himp a ?_ (plain a ha)) ended (ih fun e hsize => himp e (by omega))
    have hle := sizes_le_commas trailing ha
    omega
  | question others ih =>
    simp only [sizes_append] at himp
    exact .question (ih fun e hsize => himp e (by omega))

end

/-- What may follow an atom: a call, a member, a question mark, or the end of the expression. -/
def endsAtom : List Token → Bool
  | [] => true
  | .group .parenthesis _ _ _ :: _ => true
  | .punct c _ _ :: _ => ['.', '?', ',', ';', '='].contains c
  | _ => false

/-- What may follow an operand: the end of the expression it is in. -/
def endsOperand : List Token → Bool
  | [] => true
  | .punct c _ _ :: _ => [',', ';', '='].contains c
  | _ => false

/-- What may follow an expression. -/
def endsExpression : List Token → Bool
  | [] => true
  | .punct c _ _ :: _ => [',', ';'].contains c
  | _ => false

theorem exists_of_isBare {path : PathExpr} (h : path.IsBare) {us : List Token} (hu : Token.AllAgree path.tokens us) :
    ∃ t rest, us = t :: rest ∧ opensOperand t = true ∧ ∀ more, Expected.literal.stands (us ++ more) = false ∧
      [Expected.identifier, .mark "::", .mark "<", .word "self", .word "Self", .word "super", .word "crate"].any
        (·.stands (us ++ more)) = true := by
  obtain ⟨leading, names, hne, hnames, rfl⟩ := h
  obtain ⟨name, others, rfl⟩ := List.exists_cons_of_ne_nil hne
  obtain ⟨hidentifier, hpath, htry⟩ := hnames name List.mem_cons_self
  have hopens : ∀ pos, opensOperand (.ident name pos) = true := fun pos => Bool.and_eq_true_iff.mpr ⟨hpath, bne_iff_ne.mpr htry⟩
  have htokens : (PathExpr.ofNames leading (name :: others)).tokens =
      (if leading then Token.symbol "::" else []) ++ (Token.word name :: (others.map (Segment.mk · .none)).flatMap fun s => Token.symbol "::" ++ s.tokens) := by
    rw [PathExpr.ofNames, List.map_cons, PathExpr.tokens_cons]
    rfl
  rw [htokens] at hu
  cases leading with
  | true =>
    obtain ⟨pos, joint, next, rest, rfl, -⟩ := Token.AllAgree.of_symbol_pair hu ':' ':' rfl
    exact ⟨_, _, rfl, rfl, fun more => ⟨rfl, rfl⟩⟩
  | false =>
    obtain ⟨v, rest, rfl, hv, -⟩ := Token.AllAgree.of_cons (hu : Token.AllAgree (Token.word name :: _) _)
    obtain ⟨pos, rfl⟩ := hv.of_ident
    refine ⟨_, _, rfl, hopens pos, fun more => ⟨?_, ?_⟩⟩
    · have hbool : ∀ word ∈ ["true", "false"], (name == word) = false := by
        rintro word hw
        refine beq_eq_false_iff_ne.mpr ?_
        rintro rfl
        rw [(by decide : ∀ word ∈ ["true", "false"], isPathName word = false) name hw] at hpath
        cases hpath
      show (name == "true" || name == "false") = false
      rw [hbool "true" (by decide), hbool "false" (by decide)]
      rfl
    · have hstands := stands_of_isPlainName ⟨hidentifier, hpath, htry⟩ pos (rest ++ more)
      obtain ⟨e, he, hs⟩ := List.any_eq_true.mp hstands
      refine List.any_eq_true.mpr ⟨e, ?_, hs⟩
      exact (by decide : ∀ e ∈ Expected.identifier :: .word "Self" :: Read.pathWords, e ∈
        [Expected.identifier, .mark "::", .mark "<", .word "self", .word "Self", .word "super", .word "crate"]) e he

theorem IsPlainAtom.ne_nil {inner : List Token → Prop} {ts : List Token} (h : IsPlainAtom inner ts) : ts ≠ [] := by
  have hpath : ∀ {path : PathExpr}, path.IsBare → path.tokens ≠ [] := by
    intro path hpath
    obtain ⟨t, rest, h, -⟩ := exists_of_isBare hpath (Token.AllAgree.refl _)
    rw [h]
    exact List.cons_ne_nil _ _
  cases h with
  | path bare below => exact hpath bare
  | literal text => exact List.cons_ne_nil _ _
  | tuple plain ended => exact List.cons_ne_nil _ _
  | values bare below plain ended => exact List.append_ne_nil_of_left_ne_nil (hpath bare) _

theorem IsPlainExpression.ne_nil {ts : List Token} (h : IsPlainExpression ts) : ts ≠ [] := by
  obtain ⟨first, others⟩ := h
  exact List.append_ne_nil_of_left_ne_nil first.ne_nil _

theorem exists_of_endsAtom {ts : List Token} (h : endsAtom ts = true) : ts = [] ∨
    (∃ content opensAt closesAt rest, ts = .group .parenthesis content opensAt closesAt :: rest) ∨
      ∃ c ∈ ['.', '?', ',', ';', '='], ∃ joint pos rest, ts = .punct c joint pos :: rest := by
  unfold endsAtom at h
  split at h
  · exact Or.inl rfl
  · exact Or.inr (Or.inl ⟨_, _, _, _, rfl⟩)
  · exact Or.inr (Or.inr ⟨_, List.contains_iff_mem.mp h, _, _, _, rfl⟩)
  · cases h

/-- What follows an atom goes on with no path, is no macro, and opens no struct. -/
theorem not_stands_of_endsAtom {e : Expected} (he : e ∈ [Expected.mark "::", .mark "<", .mark "!", .mark "#", .group .brace, .identifier])
    {ts : List Token} (h : endsAtom ts = true) : e.stands ts = false := by
  have hmark : ∀ c ∈ ['.', '?', ',', ';', '='], ∀ joint pos rest, e.stands (.punct c joint pos :: rest) = false := by
    simp only [List.mem_cons, List.not_mem_nil, or_false] at he
    intro c hc joint pos rest
    simp only [List.mem_cons, List.not_mem_nil, or_false] at hc
    rcases he with rfl | rfl | rfl | rfl | rfl | rfl <;> rcases hc with rfl | rfl | rfl | rfl | rfl <;> rfl
  simp only [List.mem_cons, List.not_mem_nil, or_false] at he
  rcases exists_of_endsAtom h with rfl | ⟨content, opensAt, closesAt, rest, rfl⟩ | ⟨c, hc, joint, pos, rest, rfl⟩
  · rcases he with rfl | rfl | rfl | rfl | rfl | rfl <;> rfl
  · rcases he with rfl | rfl | rfl | rfl | rfl | rfl <;> rfl
  · exact hmark c hc joint pos rest

theorem endsAtom_of_endsOperand {ts : List Token} (h : endsOperand ts = true) : endsAtom ts = true ∧ opensCall ts = false := by
  unfold endsOperand at h
  split at h
  · exact ⟨rfl, rfl⟩
  · refine ⟨List.contains_iff_mem.mpr ?_, rfl⟩
    have hc := List.contains_iff_mem.mp h
    simp only [List.mem_cons, List.not_mem_nil, or_false] at hc ⊢
    exact Or.inr (Or.inr hc)
  · cases h

theorem endsExpression_of_comma {ts : List Token} (h : ((Expected.mark ",").stands ts || ts.isEmpty) = true) :
    endsExpression ts = true := by
  rcases Bool.or_eq_true_iff.mp h with h | h
  · obtain ⟨joint, pos, rest, rfl⟩ := exists_punct_of_stands ',' rfl h
    rfl
  · rw [List.isEmpty_iff.mp h]
    rfl

namespace Read

section

variable {like : List Token → List Token → Prop} [Token.Placeless like] {g : Grammar} {bound : Nat}

/-- Plain expressions of less than a size are read by a grammar as such that are written alike. -/
def RereadsExpressions (like : List Token → List Token → Prop) (g : Grammar) (bound : Nat) : Prop :=
  ∀ ts, IsPlainExpression ts → Token.sizes ts < bound →
    Reads like (g.expression true) ts endsExpression fun e ws => e.Tight like ts ∧ ws = []

/-- Something is read by a grammar as an expression with nothing around it, and written again. -/
structure Alone (like : List Token → List Token → Prop) (g : Grammar) (ts : List Token) : Prop where
  nonempty : ts ≠ []
  copies : Copies like g.expressionAlone ts endsExpression fun _ => True

omit [Token.Placeless like] in
theorem Alone.of_reads {ts : List Token} (hne : ts ≠ [])
    (h : Reads like (g.expression true) ts endsExpression fun e ws => like ts (e.tokens .alone) ∧ ws = []) : Alone like g ts := by
  refine ⟨hne, fun us more s hu hm hs => ?_⟩
  obtain ⟨e, ws, ⟨he, rfl⟩, hrun⟩ := h hu hm hs
  refine ⟨(), e.tokens .alone, ⟨trivial, he⟩, ?_⟩
  unfold Grammar.expressionAlone Grammar.expressionIn
  rw [run_bind, hrun]
  rfl

theorem RereadsExpressions.alone (hg : RereadsExpressions like g bound) {ts : List Token} (h : IsPlainExpression ts)
    (hsize : Token.sizes ts < bound) : Alone like g ts :=
  .of_reads h.ne_nil ((hg ts h hsize).imp fun ⟨he, hws⟩ => ⟨he.tokens rfl rfl, hws⟩)

/-- Expressions with commas between them, in a bracket. -/
theorem copies_arguments {ts : List (List Token)} {trailing : Bool} (h : ∀ e ∈ ts, Alone like g e)
    (hended : ts = [] → trailing = false) {opensAt closesAt : Position} {next : List Token → Bool} :
    Copies like (inside .parenthesis (commaSeparated g.expressionAlone)) [.group .parenthesis (commas trailing ts) opensAt closesAt]
      next fun _ => True := by
  have hitem : ∀ e ∈ ts, Copies like g.expressionAlone e (fun more => (Expected.mark ",").stands more || more.isEmpty) fun _ => True := by
    exact fun e he => (h e he).copies.mono fun more hm => endsExpression_of_comma hm
  have hlist : Copies like (commaSeparated g.expressionAlone) (commas trailing (ts.map id)) List.isEmpty fun read =>
      List.Forall₂ (fun _ _ => True) ts read.1 ∧ read.2 = trailing :=
    copies_separatedUntil run_atEnd (fun hm => hm) rfl (fun e he us more hu => isEmpty_of_like (h e he).nonempty hu) hitem hended
  rw [List.map_id] at hlist
  exact Copies.inside (hlist.imp fun h => ⟨trivial, h.2⟩)


theorem reads_callArguments {ts : List (List Token)} {trailing : Bool} (h : ∀ e ∈ ts, Alone like g e)
    (hended : ts = [] → trailing = false) {opensAt closesAt : Position} {next : List Token → Bool} :
    Reads like (callArguments g) [.group .parenthesis (commas trailing ts) opensAt closesAt] next fun read ws =>
      like [.group .parenthesis (commas trailing ts) opensAt closesAt] [.enclosed .parenthesis (commas read.2 read.1)] ∧ ws = [] := by
  have hitem : ∀ e ∈ ts, Makes like (apart g.expressionAlone) e (fun more => (Expected.mark ",").stands more || more.isEmpty) (like e) := by
    exact fun e he => ((Copies.apart (h e he).copies).imp fun h => h.1).mono fun more hm => endsExpression_of_comma hm
  have hlist : Makes like (commaSeparated (apart g.expressionAlone)) (commas trailing (ts.map id)) List.isEmpty fun read =>
      List.Forall₂ like ts read.1 ∧ read.2 = trailing :=
    makes_separatedUntil run_atEnd (fun hm => hm) rfl (fun e he us more hu => isEmpty_of_like (h e he).nonempty hu) hitem hended
  rw [List.map_id] at hlist
  intro us more s hu hm hs
  obtain ⟨⟨⟨arguments, found⟩, vs⟩, ws, ⟨⟨hall, hfound⟩, rfl⟩, hrun⟩ := Reads.captured (Makes.inside hlist) hu hm hs
  obtain rfl : found = trailing := hfound
  refine ⟨(arguments, found), [], ⟨Token.Placeless.group (like_commas hall found), rfl⟩, ?_⟩
  unfold callArguments
  rw [run_bind, hrun]
  rfl

theorem copies_member {name : String} (hname : isReserved name = false) {next : List Token → Bool} :
    Copies like member [Token.word name] next (· = true) := by
  refine reads_sees true (fun hu _ => ?_) ?_
  · obtain ⟨pos, rfl⟩ := exists_of_word hu
    exact (Bool.not_eq_true' _).mpr hname
  · exact Copies.bind_nil (Copies.discard (copies_identifier hname)) fun _ _ => reads_pure ⟨rfl, Token.Likeness.refl _⟩

/-- The name of a member, with what comes after it. -/
theorem copies_memberThen {name : String} (hname : isReserved name = false) {ts : List Token} {next : List Token → Bool}
    (h : Copies like (do
      let turbofish ← (do
        if true && (← sees (.mark "::")) then
          discard (writtenBy Arguments.tokens (angledArguments g))
          pure true
        else pure false)
      if turbofish || (true && (← sees (.group .parenthesis))) then
        discard (inside .parenthesis (commaSeparated g.expressionAlone))) ts next fun _ => True) :
    Copies like (fieldOrMethod g) (Token.symbol "." ++ Token.word name :: ts) next fun _ => True := by
  have hfirst : ∀ {us : List Token}, like (Token.word name :: ts) us → ∃ pos rest, us = .ident name pos :: rest := by
    intro us hu
    obtain ⟨v, vs, rfl, hv, -⟩ := Token.AllAgree.of_cons (Token.Likeness.agree hu)
    obtain ⟨pos, rfl⟩ := hv.of_ident
    exact ⟨pos, vs, rfl⟩
  refine Copies.bind (copies_mark "." (by decide) : Copies like _ _ (fun _ => true) _) (fun _ _ => ?_) fun _ _ => rfl
  refine reads_idle true (fun hu _ hs => ?_) (reads_unworded (fun hu _ => ?_) ?_)
  · obtain ⟨pos, rest, rfl⟩ := hfirst hu
    unfold number?
    rw [run_bind, run_bind, run_remaining, hs]
    rfl
  · obtain ⟨pos, rest, rfl⟩ := hfirst hu
    exact beq_eq_false_iff_ne.mpr (ne_of_not_isReserved hname (by decide))
  refine Copies.bind (copies_member hname : Copies like _ _ (fun _ => true) _) (fun named hnamed => ?_) fun _ _ => rfl
  subst hnamed
  exact h

theorem copies_field {name : String} (hname : isReserved name = false) :
    Copies like (fieldOrMethod g) (Token.symbol "." ++ [Token.word name]) (fun ts => endsAtom ts && !opensCall ts) fun _ => True := by
  refine copies_memberThen hname (reads_idle false (fun hu hm hs => ?_) (reads_sees false (fun hu hm => ?_) ?_))
  · rw [eq_nil_of_like hu, List.nil_append] at hs
    rw [run_bind, run_sees, hs, not_stands_of_endsAtom (by decide) (Bool.and_eq_true_iff.mp hm).1]
    rfl
  · rw [eq_nil_of_like hu, List.nil_append]
    obtain ⟨hends, hcall⟩ := Bool.and_eq_true_iff.mp hm
    rcases exists_of_endsAtom hends with rfl | ⟨content, opensAt, closesAt, rest, rfl⟩ | ⟨c, hc, joint, pos, rest, rfl⟩
    · rfl
    · cases hcall
    · rfl
  · exact reads_pure ⟨trivial, Token.Likeness.refl _⟩

theorem copies_method {name : String} (hname : isReserved name = false) {ts : List (List Token)} {trailing : Bool}
    (h : ∀ e ∈ ts, Alone like g e) (hended : ts = [] → trailing = false) {opensAt closesAt : Position} {next : List Token → Bool} :
    Copies like (fieldOrMethod g) (Token.symbol "." ++ [Token.word name, .group .parenthesis (commas trailing ts) opensAt closesAt])
      next fun _ => True := by
  refine copies_memberThen hname (reads_idle false (fun hu _ hs => ?_) (reads_sees true (fun hu _ => ?_) ?_))
  · obtain ⟨inner, opens, closes, rfl, -⟩ := exists_of_group hu
    rw [run_bind, run_sees, hs]
    rfl
  · obtain ⟨inner, opens, closes, rfl, -⟩ := exists_of_group hu
    rfl
  · exact Copies.discard (copies_arguments h hended)

/-- One turn over what follows an operand. -/
def trailerStep (g : Grammar) (read : Expression) : Parser (Turn Expression Expression) := do
  if ← sees (.group .parenthesis) then
    let (arguments, trailing) ← callArguments g
    pure (.again (.call [] read arguments trailing))
  else if !read.isRange && (← seesBut (.mark ".") [.mark ".."]) then
    pure (.again (.member [] read (← apart (fieldOrMethod g))))
  else if ← sees (.group .bracket) then
    pure (.again (.index [] read (← apart (inside .bracket g.expressionAlone))))
  else if !read.isRange && (← sees (.mark "?")) then
    pure (.again (.member [] read (← apart (mark "?"))))
  else pure (.done read)

section

variable {e : Expression} {us : List Token} {next : List Token → Bool}

/-- An operand goes on with what a turn has read. -/
def GoesOn (like : List Token → List Token → Prop) (us : List Token) (turn : Turn Expression Expression) (ws : List Token) : Prop :=
  (∃ e, turn = .again e ∧ e.Tight like us) ∧ ws = []

theorem reads_callTrailer (he : e.Tight like us) {ts : List (List Token)} {trailing : Bool} (h : ∀ e ∈ ts, Alone like g e)
    (hended : ts = [] → trailing = false) {opensAt closesAt : Position} :
    Reads like (trailerStep g e) [.group .parenthesis (commas trailing ts) opensAt closesAt] next
      (GoesOn like (us ++ [.group .parenthesis (commas trailing ts) opensAt closesAt])) := by
  refine reads_sees true (fun hu _ => ?_) ?_
  · obtain ⟨inner, opens, closes, rfl, -⟩ := exists_of_group hu
    rfl
  intro vs more s hv hm hs
  obtain ⟨⟨arguments, found⟩, ws, ⟨hwritten, rfl⟩, hrun⟩ := reads_callArguments h hended hv hm hs
  refine ⟨_, [], ⟨⟨_, rfl, he.call hwritten⟩, rfl⟩, ?_⟩
  rw [if_pos rfl, run_bind, hrun]
  rfl

theorem reads_memberTrailer (he : e.Tight like us) {ts : List Token} {middle : List Token → Bool}
    (h : Copies like (fieldOrMethod g) (Token.symbol "." ++ ts) middle fun _ => True)
    (hname : ∀ {us}, like ts us → ∃ name pos rest, us = .ident name pos :: rest) :
    Reads like (trailerStep g e) (Token.symbol "." ++ ts) middle (GoesOn like (us ++ (Token.symbol "." ++ ts))) := by
  have hshape : ∀ {us : List Token}, like (Token.symbol "." ++ ts) us →
      ∃ joint pos name nameAt rest, us = .punct '.' joint pos :: .ident name nameAt :: rest := by
    intro us hu
    obtain ⟨vs, ws, rfl, hv, hw⟩ := Token.Likeness.of_append hu
    obtain ⟨joint, pos, rfl⟩ := (Token.Likeness.agree hv).of_symbol_alone '.' rfl
    obtain ⟨name, nameAt, rest, rfl⟩ := hname hw
    exact ⟨joint, pos, name, nameAt, rest, rfl⟩
  refine reads_sees false (fun hu _ => ?_) (reads_seesBut true (fun hu _ => ?_) ?_)
  · obtain ⟨joint, pos, name, nameAt, rest, rfl⟩ := hshape hu
    rfl
  · obtain ⟨joint, pos, name, nameAt, rest, rfl⟩ := hshape hu
    cases joint <;> rfl
  rw [he.isRange]
  intro vs more s hv hm hs
  obtain ⟨rest, ws, ⟨hwritten, rfl⟩, hrun⟩ := Copies.apart h hv hm hs
  refine ⟨_, [], ⟨⟨_, rfl, he.member hwritten⟩, rfl⟩, ?_⟩
  rw [Bool.not_false, Bool.true_and, if_pos rfl, run_bind, hrun]
  rfl

theorem reads_questionTrailer (he : e.Tight like us) :
    Reads like (trailerStep g e) (Token.symbol "?") next (GoesOn like (us ++ Token.symbol "?")) := by
  have hshape : ∀ {us : List Token}, like (Token.symbol "?") us → ∃ joint pos, us = [.punct '?' joint pos] := fun hu =>
    (Token.Likeness.agree hu).of_symbol_alone '?' rfl
  refine reads_sees false (fun hu _ => ?_) (reads_seesBut false (fun hu _ => ?_) ?_)
  · obtain ⟨joint, pos, rfl⟩ := hshape hu
    rfl
  · obtain ⟨joint, pos, rfl⟩ := hshape hu
    rfl
  rw [Bool.and_false, if_neg Bool.false_ne_true]
  refine reads_sees false (fun hu _ => ?_) (reads_sees true (fun hu _ => ?_) ?_)
  · obtain ⟨joint, pos, rfl⟩ := hshape hu
    rfl
  · obtain ⟨joint, pos, rfl⟩ := hshape hu
    rfl
  rw [he.isRange]
  intro vs more s hv hm hs
  obtain ⟨rest, ws, ⟨hwritten, rfl⟩, hrun⟩ := Copies.apart (copies_mark "?" (by decide)) hv hm hs
  refine ⟨_, [], ⟨⟨_, rfl, he.member hwritten⟩, rfl⟩, ?_⟩
  rw [Bool.not_false, Bool.true_and, if_pos rfl, run_bind, hrun]
  rfl

/-- At the end of an operand nothing is read. -/
theorem run_trailerStep {s : Stream} (h : endsOperand s.rest = true) : trailerStep g e s = .ok (.done e, s) := by
  have hnone : ∀ x ∈ [Expected.group .parenthesis, .mark ".", .group .bracket, .mark "?"], x.stands s.rest = false := by
    intro x hx
    simp only [List.mem_cons, List.not_mem_nil, or_false] at hx
    unfold endsOperand at h
    split at h
    · rename_i hs
      rw [hs]
      rcases hx with rfl | rfl | rfl | rfl <;> rfl
    · rename_i c joint pos rest hs
      have hc := List.contains_iff_mem.mp h
      simp only [List.mem_cons, List.not_mem_nil, or_false] at hc
      rw [hs]
      rcases hx with rfl | rfl | rfl | rfl <;> rcases hc with rfl | rfl | rfl <;> rfl
    · cases h
  unfold trailerStep
  simp only [run_bind, run_sees, run_seesBut, run_pure, hnone _ (by decide : Expected.group .parenthesis ∈ _),
    hnone _ (by decide : Expected.mark "." ∈ _), hnone _ (by decide : Expected.group .bracket ∈ _),
    hnone _ (by decide : Expected.mark "?" ∈ _), Bool.false_and, Bool.and_false, Bool.false_eq_true, if_false]

/-- A turn, and the turns after it. -/
theorem reads_turnThen {n : Nat} {ts vs : List Token} {middle : List Token → Bool}
    (hstep : Reads like (trailerStep g e) ts middle (GoesOn like (us ++ ts)))
    (hrest : ∀ e', e'.Tight like (us ++ ts) → Reads like (turns (trailerStep g) n e') vs next fun e'' ws =>
      e''.Tight like (us ++ ts ++ vs) ∧ ws = [])
    (hnext : ∀ {ws more}, like vs ws → next more = true → middle (ws ++ more) = true) :
    Reads like (turns (trailerStep g) (n + 1) e) (ts ++ vs) next fun e'' ws => e''.Tight like (us ++ (ts ++ vs)) ∧ ws = [] := by
  rw [← List.append_assoc]
  refine Reads.bind hstep (fun turn ws hturn => ?_) hnext
  obtain ⟨⟨e', rfl, he'⟩, rfl⟩ := hturn
  exact hrest e' he'

theorem endsAtom_of_trailers {inner : List Token → Prop} {ts : List Token} (h : IsPlainTrailers inner ts) {ws more : List Token}
    (hw : like ts ws) (hm : endsOperand more = true) : endsAtom (ws ++ more) = true ∧ (opensCall ts = false → opensCall (ws ++ more) = false) := by
  cases h with
  | nil =>
    rw [eq_nil_of_like hw]
    exact ⟨(endsAtom_of_endsOperand hm).1, fun _ => (endsAtom_of_endsOperand hm).2⟩
  | call plain ended others =>
    obtain ⟨v, vs, rfl, hv, -⟩ := (Token.Likeness.agree hw).of_cons
    obtain ⟨inner, opens, closes, rfl, -⟩ := hv.of_group
    exact ⟨rfl, nofun⟩
  | field free apart others =>
    obtain ⟨joint, pos, vs, rfl, -⟩ := (Token.Likeness.agree hw).of_symbol '.' rfl
    exact ⟨rfl, fun _ => rfl⟩
  | method free plain ended others =>
    obtain ⟨joint, pos, vs, rfl, -⟩ := (Token.Likeness.agree hw).of_symbol '.' rfl
    exact ⟨rfl, fun _ => rfl⟩
  | question others =>
    obtain ⟨joint, pos, vs, rfl, -⟩ := (Token.Likeness.agree hw).of_symbol '?' rfl
    exact ⟨rfl, fun _ => rfl⟩

theorem reads_trailers {ts : List Token} (h : IsPlainTrailers (Alone like g) ts) (he : e.Tight like us) {n : Nat} (hn : ts.length < n) :
    Reads like (turns (trailerStep g) n e) ts endsOperand fun e' ws => e'.Tight like (us ++ ts) ∧ ws = [] := by
  induction h generalizing e us n with
  | nil =>
    obtain ⟨n, rfl⟩ : ∃ k, n = k + 1 := ⟨n - 1, by omega⟩
    refine reads_nil fun s hm => ⟨e, [], ⟨(List.append_nil us).symm ▸ he, rfl⟩, ?_⟩
    rw [run_turns_done (run_trailerStep hm)]
    rfl
  | @call arguments trailing opensAt closesAt rest plain ended others ih =>
    obtain ⟨n, rfl⟩ : ∃ k, n = k + 1 := ⟨n - 1, by omega⟩
    rw [List.length_cons] at hn
    exact reads_turnThen (reads_callTrailer he plain ended : Reads like _ _ (fun _ => true) _)
      (fun e' he' => ih he' (by omega)) fun _ _ => rfl
  | @field name rest free apart others ih =>
    obtain ⟨n, rfl⟩ : ∃ k, n = k + 1 := ⟨n - 1, by omega⟩
    have hsplit : Token.symbol "." ++ Token.word name :: rest = (Token.symbol "." ++ [Token.word name]) ++ rest := by simp
    rw [hsplit] at hn ⊢
    have hlength : (Token.symbol "." ++ [Token.word name]).length = 2 := rfl
    rw [List.length_append, hlength] at hn
    refine reads_turnThen (reads_memberTrailer he (copies_field free) fun hu => ?_) (fun e' he' => ih he' (by omega))
      fun hw hm => ?_
    · obtain ⟨pos, rfl⟩ := exists_of_word hu
      exact ⟨_, _, _, rfl⟩
    · obtain ⟨hends, hcall⟩ := endsAtom_of_trailers others hw hm
      rw [hends, hcall apart]
      rfl
  | @method name arguments trailing opensAt closesAt rest free plain ended others ih =>
    obtain ⟨n, rfl⟩ : ∃ k, n = k + 1 := ⟨n - 1, by omega⟩
    have hsplit : Token.symbol "." ++ Token.word name :: .group .parenthesis (commas trailing arguments) opensAt closesAt :: rest =
        (Token.symbol "." ++ [Token.word name, .group .parenthesis (commas trailing arguments) opensAt closesAt]) ++ rest := by simp
    rw [hsplit] at hn ⊢
    have hlength : (Token.symbol "." ++ [Token.word name, .group .parenthesis (commas trailing arguments) opensAt closesAt]).length = 3 := rfl
    rw [List.length_append, hlength] at hn
    refine reads_turnThen (reads_memberTrailer he (copies_method free plain ended : Copies like _ _ (fun _ => true) _)
      fun hu => ?_) (fun e' he' => ih he' (by omega)) fun _ _ => rfl
    obtain ⟨v, vs, rfl, hv, -⟩ := Token.AllAgree.of_cons (Token.Likeness.agree hu)
    obtain ⟨pos, rfl⟩ := hv.of_ident
    exact ⟨_, _, _, rfl⟩
  | @question rest others ih =>
    obtain ⟨n, rfl⟩ : ∃ k, n = k + 1 := ⟨n - 1, by omega⟩
    have hlength : (Token.symbol "?").length = 1 := rfl
    rw [List.length_append, hlength] at hn
    exact reads_turnThen (reads_questionTrailer he : Reads like _ _ (fun _ => true) _)
      (fun e' he' => ih he' (by omega)) fun _ _ => rfl

end

/-! ### Atoms -/

theorem endsExpression_colon {ts : List Token} (h : endsExpression ts = true) : (Expected.mark ":").stands ts = false := by
  unfold endsExpression at h
  split at h
  · rfl
  · rename_i c joint pos rest
    have hc := List.contains_iff_mem.mp h
    simp only [List.mem_cons, List.not_mem_nil, or_false] at hc
    rcases hc with rfl | rfl <;> rfl
  · cases h

theorem IsPlainValue.exists_of_tokens {inner : List Token → Prop} {v : List Token} (h : IsPlainValue inner v) {us : List Token}
    (hu : Token.AllAgree v us) : ∃ name pos rest, us = .ident name pos :: rest := by
  cases h with
  | short free =>
    obtain ⟨pos, rfl⟩ := exists_of_word hu
    exact ⟨_, pos, [], rfl⟩
  | set free plain =>
    obtain ⟨v, vs, rfl, hv, -⟩ := hu.of_cons
    obtain ⟨pos, rfl⟩ := hv.of_ident
    exact ⟨_, pos, vs, rfl⟩

theorem copies_fieldValue {v : List Token} (h : IsPlainValue (Alone like g) v) :
    Copies like (fieldValue g) v endsExpression fun _ => True := by
  refine reads_discardUnattributed (fun hu _ => ?_) ?_
  · obtain ⟨name, pos, rest, rfl⟩ := IsPlainValue.exists_of_tokens h (Token.Likeness.agree hu)
    rfl
  cases h with
  | @short name free =>
    refine Copies.bind_nil (copies_member free) fun named hnamed => ?_
    subst hnamed
    refine reads_sees false (fun hu hm => ?_) (reads_pure ⟨trivial, Token.Likeness.refl _⟩)
    rw [eq_nil_of_like hu]
    exact endsExpression_colon hm
  | @set name value free plain =>
    refine Copies.bind (copies_member free : Copies like _ [Token.word name] (fun _ => true) _) (fun named hnamed => ?_) fun _ _ => rfl
    subst hnamed
    refine reads_sees true (fun hu _ => ?_) ?_
    · obtain ⟨joint, pos, vs, rfl, -⟩ := Token.AllAgree.of_symbol (Token.Likeness.agree hu : Token.AllAgree (Token.symbol ":" ++ value) _) ':' rfl
      rfl
    · exact Copies.bind (copies_mark ":" (by decide) : Copies like _ _ (fun _ => true) _)
        (fun _ _ => plain.copies) fun _ _ => rfl

/-- One turn over the fields of a struct that is written out. -/
def valuesStep (g : Grammar) (_ : Unit) : Parser (Turn Unit Unit) := do
  if ← atEnd then pure (.done ())
  else if ← mark? ".." then
    if !(← atEnd) then g.expressionAlone
    pure (.done ())
  else
    fieldValue g
    if ← atEnd then pure (.done ())
    else
      mark ","
      pure (.again ())

/-- A field, with the comma after it or at the end. -/
theorem copies_valuesStep {v : List Token} (h : IsPlainValue (Alone like g) v) (comma : Bool) :
    Copies like (valuesStep g ()) (v ++ if comma then Token.symbol "," else []) (fun more => comma || more.isEmpty)
      (· = if comma then .again () else .done ()) := by
  have hfirst : ∀ {us more : List Token}, like (v ++ if comma then Token.symbol "," else []) us →
      ∃ name pos rest, us ++ more = .ident name pos :: rest := by
    intro us more hu
    obtain ⟨vs, ws, rfl, hv, -⟩ := Token.Likeness.of_append hu
    obtain ⟨name, pos, rest, rfl⟩ := IsPlainValue.exists_of_tokens h (Token.Likeness.agree hv)
    exact ⟨name, pos, rest ++ ws ++ more, rfl⟩
  refine reads_atEnd false (fun hu _ => ?_) (reads_unmarked (fun hu _ => ?_) ?_)
  · obtain ⟨name, pos, rest, h⟩ := hfirst hu
    rw [h]
    rfl
  · obtain ⟨name, pos, rest, h⟩ := hfirst hu
    rw [h]
    rfl
  refine Copies.bind (copies_fieldValue h) (fun _ _ => ?_) fun hu hm => ?_
  · cases comma with
    | true =>
      refine reads_atEnd false (fun hu _ => ?_) ?_
      · obtain ⟨joint, pos, rfl⟩ := Token.AllAgree.of_symbol_alone (Token.Likeness.agree (hu : like (Token.symbol ",") _)) ',' rfl
        rfl
      · exact Copies.bind_nil (copies_mark "," (by decide)) fun _ _ => reads_pure ⟨rfl, Token.Likeness.refl _⟩
    | false =>
      refine reads_atEnd true (fun hu hm => ?_) (reads_pure ⟨rfl, Token.Likeness.refl _⟩)
      rw [eq_nil_of_like hu]
      exact hm
  · cases comma with
    | true =>
      obtain ⟨joint, pos, rfl⟩ := Token.AllAgree.of_symbol_alone (Token.Likeness.agree (hu : like (Token.symbol ",") _)) ',' rfl
      rfl
    | false =>
      rw [eq_nil_of_like hu, List.nil_append, List.isEmpty_iff.mp hm]
      rfl

theorem copies_turnsOfValues {values : List (List Token)} {trailing : Bool} (h : ∀ v ∈ values, IsPlainValue (Alone like g) v)
    {n : Nat} (hn : (commas trailing values).length < n) :
    Copies like (turns (valuesStep g) n ()) (commas trailing values) List.isEmpty fun _ => True := by
  induction values generalizing n with
  | nil =>
    obtain ⟨n, rfl⟩ : ∃ k, n = k + 1 := ⟨n - 1, by omega⟩
    have hstep : Copies like (valuesStep g ()) [] List.isEmpty (· = .done ()) := by
      refine reads_atEnd true (fun hu hm => ?_) (reads_pure ⟨rfl, Token.Likeness.refl _⟩)
      rw [eq_nil_of_like hu]
      exact hm
    refine Copies.bind_nil hstep fun turn ht => ?_
    subst ht
    exact reads_pure ⟨trivial, Token.Likeness.refl _⟩
  | cons v rest ih =>
    obtain ⟨n, rfl⟩ : ∃ k, n = k + 1 := ⟨n - 1, by omega⟩
    have hv := h v List.mem_cons_self
    by_cases hlast : rest = [] ∧ trailing = false
    · obtain ⟨rfl, rfl⟩ := hlast
      refine Copies.bind_nil ((copies_valuesStep hv false).mono fun more hm => hm) fun turn ht => ?_
      subst ht
      exact reads_pure ⟨trivial, Token.Likeness.refl _⟩
    · have hmore : rest = [] → trailing = true := fun he => Bool.not_eq_false _ ▸ fun hf => hlast ⟨he, hf⟩
      rw [commas_cons hmore] at hn ⊢
      rw [List.length_append, List.length_append, show (Token.symbol ",").length = 1 from rfl] at hn
      have hstep : Copies like (valuesStep g ()) (v ++ Token.symbol ",") (fun _ => true) _ := copies_valuesStep hv true
      rw [← List.append_assoc]
      refine Copies.bind hstep (fun turn ht => ?_) fun _ _ => rfl
      subst ht
      exact ih (fun w hw => h w (List.mem_cons_of_mem _ hw)) (by omega)

theorem copies_structValues {values : List (List Token)} {trailing : Bool} {opensAt closesAt : Position}
    (h : ∀ v ∈ values, IsPlainValue (Alone like g) v) {next : List Token → Bool} :
    Copies like (structValues g) [.group .brace (commas trailing values) opensAt closesAt] next fun _ => True :=
  Copies.inside (Reads.loop fun _ hn => copies_turnsOfValues h hn)

theorem copies_pathName (hg : Rereads g bound) {path : PathExpr} (h : path.IsBare) (hsize : Token.sizes path.tokens ≤ bound) :
    Copies like (qualifiedPath g true) path.tokens endsPath (· = .path path) := by
  have hbare : path.isPlain = true ∧ ∀ s ∈ path.segments, s.arguments.areOfPlain = true := by
    obtain ⟨leading, names, -, -, rfl⟩ := h
    have hsegments : ∀ s ∈ (PathExpr.ofNames leading names).segments, ∃ name, s = Segment.mk name .none := by
      intro s hs
      obtain ⟨name, -, rfl⟩ := List.mem_map.mp hs
      exact ⟨name, rfl⟩
    refine ⟨List.all_eq_true.mpr fun s hs => ?_, fun s hs => ?_⟩
    · obtain ⟨name, rfl⟩ := hsegments s hs
      rfl
    · obtain ⟨name, rfl⟩ := hsegments s hs
      rfl
  have hbody : Takes like (do
      if ← sees (.mark "<") then
        mark "<"
        let subject ← g.type true
        let asTrait ← (do if ← word? "as" then some <$> Read.path g false else pure none)
        mark ">"
        mark "::"
        let first ← segment g true
        let others ← whileSeen (sees (.mark "::")) (do mark "::"; segment g true)
        pure (TypeExpr.qualified subject asTrait (first :: others))
      else .path <$> pathBody g true) path.tokens endsPath (.path path) := by
    refine reads_sees false (fun hu _ => ?_) (Takes.map _ (Reads.of_agree (takes_pathBody hg hbare.2 h.proper hsize fun _ => hbare.1)))
    obtain ⟨t, rest, rfl, ht, -⟩ := exists_of_isBare h (Token.Likeness.agree hu)
    exact not_stands_of_opensOperand ht rfl
  refine (Reads.writtenBy hbody).imp fun hread => ?_
  obtain ⟨⟨_, rfl⟩, rfl⟩ := hread
  exact ⟨rfl, Token.Likeness.refl _⟩

/-- After the first token of a path there are separators, or what follows the path. -/
theorem not_stands_second {path : PathExpr} (h : path.IsBare) {e : Expected}
    (he : ∀ joint pos rest, e.stands (.punct ':' joint pos :: rest) = false) {us more : List Token} (hu : Token.AllAgree path.tokens us)
    (hm : e.stands more = false) : e.stands (afterTree (us ++ more)) = false := by
  obtain ⟨leading, names, hne, -, rfl⟩ := h
  obtain ⟨name, others, rfl⟩ := List.exists_cons_of_ne_nil hne
  rw [PathExpr.ofNames, List.map_cons, PathExpr.tokens_cons] at hu
  cases leading with
  | true =>
    obtain ⟨pos, joint, next, rest, rfl, -⟩ := Token.AllAgree.of_symbol_pair hu ':' ':' rfl
    exact he joint next _
  | false =>
    obtain ⟨v, rest, rfl, hv, hrest⟩ := Token.AllAgree.of_cons (hu : Token.AllAgree (Token.word name :: _) _)
    obtain ⟨pos, rfl⟩ := hv.of_ident
    cases others with
    | nil =>
      have hnil : rest = [] := Token.AllAgree.of_nil hrest
      rw [hnil]
      exact hm
    | cons second others =>
      obtain ⟨pos, joint, next, rest, rfl, -⟩ := @Token.AllAgree.of_symbol_pair "::" _ _ hrest ':' ':' rfl
      exact he true pos _

theorem operandHere_of_cons {t : Token} {rest : List Token} {s : Stream} (ht : opensOperand t = true) (hs : s.rest = t :: rest) :
    OperandHere s := fun _ he => hs ▸ not_stands_of_opensOperand ht he

omit [Token.Placeless like] in
/-- A closed atom is written again as it is read. -/
theorem reads_atomOf {p : Parser Atom} {ts : List Token} {next : List Token → Bool}
    (hp : Copies like p ts next fun kind => kind.isClosed = true) :
    Reads like (atomOf p) ts next fun e ws => e.Tight like ts ∧ ws = [] := by
  intro us more s hu hm hs
  obtain ⟨⟨kind, content⟩, ws, ⟨⟨hclosed, hwritten⟩, rfl⟩, hrun⟩ := Reads.captured hp hu hm hs
  refine ⟨.atom [] kind content, [], ⟨.atom hclosed hwritten, rfl⟩, ?_⟩
  unfold atomOf
  rw [run_bind, hrun]
  rfl

/-- A path of names as an atom, with what comes after it. -/
theorem reads_pathAtom (hg : Rereads g bound) {path : PathExpr} (h : path.IsBare) (hsize : Token.sizes path.tokens ≤ bound)
    {allowStruct : Bool} {ts : List Token} {next : List Token → Bool}
    (hafter : ∀ {us more}, like ts us → next more = true → ∀ e ∈ [Expected.mark "::", .mark "<", .mark "!", .mark "#"],
      e.stands (us ++ more) = false)
    (hrest : Copies like (do
      if allowStruct && (← sees (.group .brace)) then
        structValues g
        pure Atom.fields
      else pure (.path path)) ts next fun kind => kind.isClosed = true) :
    Reads like (simpleAtom g allowStruct) (path.tokens ++ ts) next fun e ws => e.Tight like (path.tokens ++ ts) ∧ ws = [] := by
  have hatom : Copies like (pathAtom g allowStruct) (path.tokens ++ ts) next fun kind => kind.isClosed = true := by
    refine Copies.bind (copies_pathName hg h hsize) (fun read hread => ?_) fun hu hm => ?_
    · subst hread
      refine reads_seesBut false (fun hu hm => ?_) ?_
      · rw [hafter hu hm (.mark "!") (by decide)]
        rfl
      · rw [Bool.and_false, if_neg Bool.false_ne_true]
        exact hrest
    · rw [endsPath, hafter hu hm (.mark "::") (by decide), hafter hu hm (.mark "<") (by decide)]
      rfl
  refine (reads_atomOf hatom).congr fun {us more s} hu hm hs => ?_
  obtain ⟨vs, ws, rfl, hv, hw⟩ := Token.Likeness.of_append hu
  obtain ⟨t, rest, hcons, ht, hstands⟩ := exists_of_isBare h (Token.Likeness.agree hv)
  obtain ⟨hliteral, hpath⟩ := hstands (ws ++ more)
  rw [List.append_assoc] at hs
  have hhash : (Expected.mark "#").stands (afterTree s.rest) = false := by
    rw [hs]
    exact not_stands_second h (fun _ _ _ => rfl) (Token.Likeness.agree hv) (hafter hw hm _ (by decide))
  rw [← hs] at hliteral hpath
  refine run_simpleAtom_of_path (@operandHere_of_cons t (rest ++ (ws ++ more)) s ht (by rw [hs, hcons]; rfl)) hliteral ?_ hpath
  rw [hhash, Bool.and_false]

/-- A path of names alone. -/
theorem reads_pathAlone (hr : Rereads g bound) {path : PathExpr} (h : path.IsBare) (hsize : Token.sizes path.tokens ≤ bound)
    (allowStruct : Bool) :
    Reads like (simpleAtom g allowStruct) path.tokens endsAtom fun e ws => e.Tight like path.tokens ∧ ws = [] := by
  have hread : Reads like (simpleAtom g allowStruct) (path.tokens ++ []) endsAtom fun e ws => e.Tight like (path.tokens ++ []) ∧ ws = [] := by
    refine reads_pathAtom hr h hsize (fun hu hm e he => ?_) (reads_sees false (fun hu hm => ?_) ?_)
    · rw [eq_nil_of_like hu]
      exact not_stands_of_endsAtom ((by decide : ∀ e ∈ [Expected.mark "::", .mark "<", .mark "!", .mark "#"],
        e ∈ [Expected.mark "::", .mark "<", .mark "!", .mark "#", .group .brace, .identifier]) e he) hm
    · rw [eq_nil_of_like hu]
      exact not_stands_of_endsAtom (by decide) hm
    · rw [Bool.and_false, if_neg Bool.false_ne_true]
      exact reads_pure ⟨rfl, Token.Likeness.refl _⟩
  rwa [List.append_nil] at hread

/-- A struct that is written out after a path of names. -/
theorem reads_structAtom (hr : Rereads g bound) {path : PathExpr} (h : path.IsBare) (hsize : Token.sizes path.tokens ≤ bound)
    {content : List Token} {opensAt closesAt : Position} {next : List Token → Bool}
    (hvalues : Copies like (structValues g) [.group .brace content opensAt closesAt] next fun _ => True) :
    Reads like (simpleAtom g true) (path.tokens ++ [.group .brace content opensAt closesAt]) next fun e ws =>
      e.Tight like (path.tokens ++ [.group .brace content opensAt closesAt]) ∧ ws = [] := by
  refine reads_pathAtom hr h hsize (fun hu _ e he => ?_) ?_
  · obtain ⟨inner, opens, closes, rfl, -⟩ := exists_of_group hu
    simp only [List.mem_cons, List.not_mem_nil, or_false] at he
    rcases he with rfl | rfl | rfl | rfl <;> rfl
  · refine reads_sees true (fun hu _ => ?_) ?_
    · obtain ⟨inner, opens, closes, rfl, -⟩ := exists_of_group hu
      rfl
    · exact Copies.bind_nil hvalues fun _ _ => reads_pure ⟨rfl, Token.Likeness.refl _⟩

theorem reads_simpleAtom (hr : Rereads g bound) {ts : List Token} (h : IsPlainAtom (Alone like g) ts) (hsize : Token.sizes ts ≤ bound) :
    Reads like (simpleAtom g true) ts endsAtom fun e ws => e.Tight like ts ∧ ws = [] := by
  cases h with
  | path bare below => exact reads_pathAlone hr bare hsize true
  | values bare below plain ended =>
    simp only [sizes_append] at hsize
    exact reads_structAtom hr bare (by omega) (copies_structValues plain)
  | literal text =>
    have hread : Copies like (do discard literal; pure Atom.other) [Token.text text] endsAtom fun kind => kind.isClosed = true :=
      Copies.bind_nil (Copies.discard copies_literal) fun _ _ => reads_pure ⟨rfl, Token.Likeness.refl _⟩
    refine (reads_atomOf hread).congr fun hu _ hs => ?_
    obtain ⟨v, vs, rfl, hv, -⟩ := (Token.Likeness.agree hu).of_cons
    obtain ⟨pos, rfl⟩ := hv.of_literal
    exact run_simpleAtom_of_literal hs
  | @tuple elements trailing opensAt closesAt plain ended =>
    have hread : Copies like (do parenAtom g; pure Atom.other) [.group .parenthesis (commas trailing elements) opensAt closesAt]
        endsAtom fun kind => kind.isClosed = true :=
      Copies.bind_nil (Copies.discard (copies_arguments plain ended)) fun _ _ => reads_pure ⟨rfl, Token.Likeness.refl _⟩
    refine (reads_atomOf hread).congr fun hu _ hs => ?_
    obtain ⟨inner, opens, closes, rfl, -⟩ := exists_of_group hu
    exact run_simpleAtom_of_parenthesis hs

/-! ### Operands and expressions -/

/-- Tokens like these start as a plain operand does. -/
def OpensOperand (ts : List Token) : Prop := ∀ ⦃us⦄, Token.AllAgree ts us → ∃ t rest, us = t :: rest ∧ opensOperand t = true

theorem OpensOperand.append {ts us : List Token} (h : OpensOperand ts) : OpensOperand (ts ++ us) := by
  intro vs hv
  obtain ⟨xs, ys, rfl, hx, -⟩ := hv.of_append
  obtain ⟨t, rest, rfl, ht⟩ := h hx
  exact ⟨t, rest ++ ys, rfl, ht⟩

theorem opensOperand_of_isBare {path : PathExpr} (h : path.IsBare) : OpensOperand path.tokens := fun _ hu =>
  have ⟨t, rest, hcons, ht, _⟩ := exists_of_isBare h hu
  ⟨t, rest, hcons, ht⟩

theorem opensOperand_of_plainAtom {inner : List Token → Prop} {ts : List Token} (h : IsPlainAtom inner ts) : OpensOperand ts := by
  cases h with
  | path bare below => exact opensOperand_of_isBare bare
  | literal text =>
    intro us hu
    obtain ⟨v, vs, rfl, hv, -⟩ := hu.of_cons
    obtain ⟨pos, rfl⟩ := hv.of_literal
    exact ⟨_, _, rfl, rfl⟩
  | tuple plain ended =>
    intro us hu
    obtain ⟨inner, opens, closes, rfl, -⟩ := exists_of_group hu
    exact ⟨_, _, rfl, rfl⟩
  | values bare below plain ended => exact (opensOperand_of_isBare bare).append

theorem exists_of_plainExpression {ts : List Token} (h : IsPlainExpression ts) : OpensOperand ts := by
  obtain ⟨first, others⟩ := h
  exact (opensOperand_of_plainAtom first).append

/-- An operand with the attributes before it and its place. -/
def operandParts (g : Grammar) (allowStruct : Bool) : Parser (List Token × Position × Expression) := do
  let attributes ← apart (outerAttributes g)
  let position ← here
  match ← prefixOperator? with
  | some operator => pure (attributes, position, .prefixed [] operator (← g.operand allowStruct))
  | none =>
    let first ← (do
      match ← blockAtom? g with
      | some atom => pure atom
      | none => simpleAtom g allowStruct)
    pure (attributes, position, ← trailers g first)

section

variable {allowStruct : Bool} {atom trailing : List Token} {next : List Token → Bool}

theorem reads_operandParts (hopens : OpensOperand atom)
    (hatom : Reads like (simpleAtom g allowStruct) atom endsAtom fun e ws => e.Tight like atom ∧ ws = [])
    (htrailers : ∀ e, e.Tight like atom →
      Reads like (trailers g e) trailing next fun e' ws => e'.Tight like (atom ++ trailing) ∧ ws = [])
    (hnext : ∀ {ws more}, like trailing ws → next more = true → endsAtom (ws ++ more) = true) :
    Reads like (operandParts g allowStruct) (atom ++ trailing) next fun read ws =>
      (read.1 = [] ∧ read.2.2.Tight like (atom ++ trailing)) ∧ ws = [] := by
  have hhere : ∀ {ts us more : List Token} {s : Stream}, OpensOperand ts → like ts us → s.rest = us ++ more → OperandHere s := by
    intro ts us more s hopens hu hs
    obtain ⟨t, rest, rfl, ht⟩ := hopens (Token.Likeness.agree hu)
    exact operandHere_of_cons ht hs
  refine reads_idle [] (fun hu _ hs => run_apartAttributes (hhere hopens.append hu hs (.mark "#") rfl)) ?_
  refine reads_ignored (fun s => ⟨_, rfl⟩) fun position =>
    reads_idle none (fun hu _ hs => run_prefixOperator? (hhere hopens.append hu hs)) ?_
  have hfirst : Reads like (do
      match ← blockAtom? g with
      | some atom => pure atom
      | none => simpleAtom g allowStruct) atom endsAtom fun e ws => e.Tight like atom ∧ ws = [] :=
    reads_idle none (fun hu _ hs => run_blockAtom? (hhere hopens hu hs)) hatom
  refine Reads.bind hfirst (fun e ws he => ?_) hnext
  obtain ⟨he, rfl⟩ := he
  refine Reads.bind_nil (htrailers e he) fun e' ws he' => ?_
  obtain ⟨he', rfl⟩ := he'
  exact reads_pure ⟨⟨rfl, he'⟩, rfl⟩

/-- An operand is read as an atom, and then what comes after it. -/
theorem reads_operandWith (hopens : OpensOperand atom)
    (hatom : Reads like (simpleAtom g allowStruct) atom endsAtom fun e ws => e.Tight like atom ∧ ws = [])
    (htrailers : ∀ e, e.Tight like atom →
      Reads like (trailers g e) trailing next fun e' ws => e'.Tight like (atom ++ trailing) ∧ ws = [])
    (hnext : ∀ {ws more}, like trailing ws → next more = true → endsAtom (ws ++ more) = true) :
    Reads like (operand g allowStruct) (atom ++ trailing) next fun e ws => e.Tight like (atom ++ trailing) ∧ ws = [] := by
  have hparts := Reads.sourceOf (reads_operandParts hopens hatom htrailers hnext)
  generalize atom ++ trailing = ts at hparts ⊢
  refine Reads.bind_nil hparts fun read ws hread => ?_
  obtain ⟨⟨attributes, position, e⟩, source⟩ := read
  obtain ⟨⟨_, ⟨hnone, he⟩, -⟩, -, rfl⟩ := hread
  obtain rfl : attributes = [] := hnone
  have hpure : Reads like (pure (e.withAttributes [])) [] next fun e ws => e.Tight like ts ∧ ws = [] := by
    rw [he.withAttributes]
    exact reads_pure ⟨he, rfl⟩
  cases he <;> exact hpure

/-- An operand whose parts may each stand alone. -/
theorem reads_operandOf (hopens : OpensOperand atom)
    (hatom : Reads like (simpleAtom g allowStruct) atom endsAtom fun e ws => e.Tight like atom ∧ ws = [])
    (others : IsPlainTrailers (Alone like g) trailing) :
    Reads like (operand g allowStruct) (atom ++ trailing) endsOperand fun e ws => e.Tight like (atom ++ trailing) ∧ ws = [] :=
  reads_operandWith hopens hatom (fun _ he => Reads.loop fun _ hn => reads_trailers others he hn)
    fun hw hm => (endsAtom_of_trailers others hw hm).1

end

theorem reads_operand (hr : Rereads g bound) (hg : RereadsExpressions like g bound) {ts : List Token} (h : IsPlainExpression ts)
    (hsize : Token.sizes ts ≤ bound) : Reads like (operand g true) ts endsOperand fun e ws => e.Tight like ts ∧ ws = [] := by
  obtain @⟨atom, trailing, first, others⟩ := h
  rw [sizes_append] at hsize
  exact reads_operandOf (opensOperand_of_plainAtom first)
    (reads_simpleAtom hr (first.imp fun e he h => hg.alone h (by omega)) (by omega)) (others.imp fun e he h => hg.alone h (by omega))

/-- One turn over the operators after an operand. -/
def continuedStep (g : Grammar) (allowStruct : Bool) (base : Precedence) (read : Expression) : Parser (Turn Expression Expression) := do
  if read.isRange then return .done read
  match ← operator? with
  | some (operator, precedence) =>
    if precedence.below base then pure (.done read)
    else if precedence == .compare && read.isComparison then fail .comparisonChained
    else
      discard (apart (mark operator))
      pure (.again (.binary [] read operator precedence (← rightSide g allowStruct precedence)))
  | none =>
    if base.atMost .assign && (← seesBut (.mark "=") [.mark "=>"]) then
      discard (apart (mark "="))
      pure (.again (.assign [] read (← rightSide g allowStruct .assign)))
    else if base.atMost .range && (← sees (.mark "..")) then
      match ← rangeRest g allowStruct with
      | (dots, some stop) => pure (.again (.rangeBetween [] read dots stop))
      | (_, none) => pure (.again (.rangeFrom [] read))
    else if ← sees (.word "as") then
      let (type, _) ← captured (do
        word "as"
        g.type false)
      checkCast
      pure (.again (.cast [] read type))
    else pure (.done read)

/-- No operator follows at the end of an expression. -/
theorem run_continuedStep {e : Expression} (he : e.isRange = false) (allowStruct : Bool) {s : Stream} (h : endsExpression s.rest = true) :
    continuedStep g allowStruct .jump e s = .ok (.done e, s) := by
  unfold continuedStep
  rw [he]
  unfold endsExpression at h
  obtain ⟨rest, closesAt, within, leftover, written⟩ := s
  split at h
  · rename_i hs
    obtain rfl := hs
    rfl
  · rename_i c joint pos rest hs
    obtain rfl := hs
    have hc := List.contains_iff_mem.mp h
    simp only [List.mem_cons, List.not_mem_nil, or_false] at hc
    rcases hc with rfl | rfl <;> rfl
  · cases h

theorem run_continued {e : Expression} (he : e.isRange = false) (allowStruct : Bool) {s : Stream} (h : endsExpression s.rest = true) :
    continued g e allowStruct .jump s = .ok (e, s) := run_turns_done (run_continuedStep he allowStruct h)

theorem endsOperand_of_endsExpression {ts : List Token} (h : endsExpression ts = true) : endsOperand ts = true := by
  unfold endsExpression at h
  split at h
  · rfl
  · refine List.contains_iff_mem.mpr ?_
    have hc := List.contains_iff_mem.mp h
    simp only [List.mem_cons, List.not_mem_nil, or_false] at hc ⊢
    rcases hc with rfl | rfl
    · exact Or.inl rfl
    · exact Or.inr (Or.inl rfl)
  · cases h

theorem reads_expression (hr : Rereads g bound) (hg : RereadsExpressions like g bound) {ts : List Token} (h : IsPlainExpression ts)
    (hsize : Token.sizes ts ≤ bound) : Reads like (expression g true) ts endsExpression fun e ws => e.Tight like ts ∧ ws = [] := by
  refine Reads.bind_nil ((reads_operand hr hg h hsize).mono fun _ => endsOperand_of_endsExpression) fun e ws he => ?_
  obtain ⟨he, rfl⟩ := he
  exact reads_nil fun s hm => ⟨e, [], ⟨he, rfl⟩, run_continued he.isRange true hm⟩

theorem rereadsExpressions_layer (hr : Rereads g bound) (hg : RereadsExpressions like g bound) :
    RereadsExpressions like (layer g) (bound + 1) := fun _ h hsize => reads_expression hr hg h (by omega)

end

end Read

/-- Plain expressions are read again by a grammar that is deep enough for them. -/
theorem rereadsExpressions_grammar {like : List Token → List Token → Prop} [Token.Placeless like] (depth : Nat) : Read.RereadsExpressions like (grammar (depth + 1)) depth := by
  induction depth with
  | zero => exact fun _ _ hsize => absurd hsize (Nat.not_lt_zero _)
  | succ depth ih => exact Read.rereadsExpressions_layer (rereads_grammar depth) ih

end BuilderSynthesis.Syntax
