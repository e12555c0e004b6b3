/-
  BuilderSynthesis.Proofs.TypeReading — plain types are read again.

  What a plain type starts with decides which reader reads it (`run_typeBody`), and that reader makes
  the same type of its tokens (`takes_typeBody`). With a layer for each token, every plain type is read
  again (`rereads_grammar`), and so it is from any text that spells it (`readType_of_spells`).
-/

import BuilderSynthesis.Proofs.PathReading

namespace BuilderSynthesis.Syntax

open BuilderSynthesis.Syntax.Parser

/-! ## Reading types again -/

namespace Read

variable {g : Grammar} {bound : Nat}

/-- A mark that would go on with a type does not stand before another one. -/
theorem endsType_of_symbol {operator : String} (ho : operator ∈ [">", ",", ";", "="]) {ts us more : List Token}
    (hu : Token.AllAgree (Token.symbol operator ++ ts) us) : endsType (us ++ more) = true := by
  simp only [List.mem_cons, List.not_mem_nil, or_false] at ho
  rcases ho with rfl | rfl | rfl | rfl
  · obtain ⟨joint, pos, vs, rfl, -⟩ := hu.of_symbol '>' rfl
    rfl
  · obtain ⟨joint, pos, vs, rfl, -⟩ := hu.of_symbol ',' rfl
    rfl
  · obtain ⟨joint, pos, vs, rfl, -⟩ := hu.of_symbol ';' rfl
    rfl
  · obtain ⟨joint, pos, vs, rfl, -⟩ := hu.of_symbol '=' rfl
    rfl

theorem takes_reference (hg : Rereads g bound) {lifetime : Option String} {mutable : Bool} {referent : TypeExpr}
    (hplain : referent.isPlain = true) (hproper : (TypeExpr.reference lifetime mutable referent).Proper)
    (hsize : Token.sizes referent.tokens < bound) :
    Takes Token.AllAgree (reference g) (TypeExpr.reference lifetime mutable referent).tokens endsType (.reference lifetime mutable referent) := by
  obtain ⟨hlifetime, hreferent⟩ := hproper
  have hopens := opensType_tokens hplain hreferent
  have htype : ∀ name, Takes Token.AllAgree (do
      let mutable ← word? "mut"
      pure (TypeExpr.reference name mutable (← g.type false)))
      ((if mutable then [Token.word "mut"] else []) ++ referent.tokens) endsType (.reference name mutable referent) := by
    intro name
    have hread : ∀ b, Takes Token.AllAgree (do pure (TypeExpr.reference name b (← g.type false))) referent.tokens endsType
        (.reference name b referent) := fun b => (hg false referent hplain hreferent hsize).bind_nil (takes_pure _)
    cases mutable with
    | true => exact makes_worded (hread true)
    | false => exact reads_unworded (fun hu _ => hopens.not_stands (by decide) hu) (hread false)
  rw [TypeExpr.tokens, List.append_assoc, List.append_assoc]
  refine (takes_mark "&" (by decide) : Takes Token.AllAgree _ _ (fun _ => true) ()).bind ?_ fun _ _ => rfl
  cases lifetime with
  | some name =>
    obtain ⟨letters, rfl, -⟩ := hlifetime name rfl
    have hname : Takes Token.AllAgree lifetime? (Token.lifetime ("'" ++ letters)) (fun _ => true) (some ("'" ++ letters)) := by
      refine reads_sees true (fun hu _ => ?_) ?_
      · obtain ⟨pos, namePos, rfl⟩ := exists_of_lifetime hu
        rfl
      · exact takes_lifetime.map _
    exact hname.bind (htype _) fun _ _ => rfl
  | none =>
    refine reads_idle none (fun {us more s} hu _ hs => ?_) (htype none)
    have hne : Expected.lifetime.stands (us ++ more) = false := by
      cases mutable with
      | true =>
        obtain ⟨v, vs, rfl, hv, -⟩ := Token.AllAgree.of_cons (hu : Token.AllAgree (Token.word "mut" :: _) _)
        obtain ⟨pos, rfl⟩ := hv.of_ident
        rfl
      | false => exact hopens.not_stands (by decide) hu
    unfold lifetime?
    rw [run_bind, run_sees, hs, hne]
    rfl

theorem takes_pointer (hg : Rereads g bound) {mutable : Bool} {target : TypeExpr} (hplain : target.isPlain = true)
    (hproper : target.Proper) (hsize : Token.sizes target.tokens < bound) :
    Takes Token.AllAgree (pointer g) (TypeExpr.pointer mutable target).tokens endsType (.pointer mutable target) := by
  have hread : ∀ b, Takes Token.AllAgree (do pure (TypeExpr.pointer b (← g.type false))) target.tokens endsType (.pointer b target) :=
    fun b => (hg false target hplain hproper hsize).bind_nil (takes_pure _)
  rw [TypeExpr.tokens]
  refine (takes_mark "*" (by decide) : Takes Token.AllAgree _ _ (fun _ => true) ()).bind ?_ fun _ _ => rfl
  cases mutable with
  | false => exact makes_worded (hread false)
  | true =>
    refine reads_unworded (fun hu _ => ?_) (makes_worded (hread true))
    obtain ⟨v, vs, rfl, hv, -⟩ := Token.AllAgree.of_cons (hu : Token.AllAgree (Token.word "mut" :: _) _)
    obtain ⟨pos, rfl⟩ := hv.of_ident
    rfl

end Read

namespace Read

variable {g : Grammar} {bound : Nat}

/-- A numeral is read as an expression that is written as it is. -/
def ReadsNumerals (g : Grammar) : Prop :=
  ∀ {ts : List Token}, isNumeral ts = true → Takes Token.AllAgree (Read.tokensOf g.expressionAlone) ts List.isEmpty ts

theorem endsType_of_isEmpty {ts : List Token} (h : ts.isEmpty = true) : endsType ts = true := by
  rw [List.isEmpty_iff.mp h]
  rfl

theorem takes_slice (hg : Rereads g bound) {element : TypeExpr} (hplain : element.isPlain = true)
    (hproper : element.Proper) (hsize : Token.sizes element.tokens < bound) {next : List Token → Bool} :
    Takes Token.AllAgree (bracketed g) (TypeExpr.slice element).tokens next (.slice element) := by
  rw [TypeExpr.tokens]
  refine Makes.inside (Takes.bind_nil ((hg true element hplain hproper hsize).mono fun _ => endsType_of_isEmpty) ?_)
  refine reads_unmarked (fun hu hm => ?_) (takes_pure _)
  rw [hu.of_nil, List.isEmpty_iff.mp hm]
  rfl

theorem takes_array (hg : Rereads g bound) (hnumeral : ReadsNumerals g) {element : TypeExpr} {length : List Token}
    (hplain : element.isPlain = true) (hlength : isNumeral length = true) (hproper : element.Proper)
    (hsize : Token.sizes element.tokens < bound) {next : List Token → Bool} :
    Takes Token.AllAgree (bracketed g) (TypeExpr.array element length).tokens next (.array element length) := by
  rw [TypeExpr.tokens, List.append_assoc]
  refine Makes.inside ((hg true element hplain hproper hsize).bind ?_ fun hu _ => endsType_of_symbol (by decide) hu)
  exact makes_marked (by decide) ((hnumeral hlength).bind_nil (takes_pure _))

/-- The types between commas. -/
theorem takes_types (hg : Rereads g bound) {types : List TypeExpr} {trailing : Bool}
    (hplain : ∀ t ∈ types, t.isPlain = true) (hproper : ∀ t ∈ types, t.Proper)
    (hsize : ∀ t ∈ types, Token.sizes t.tokens < bound) (htrailing : types = [] → trailing = false) :
    Takes Token.AllAgree (commaSeparated (g.type true)) (commas trailing (types.map TypeExpr.tokens)) List.isEmpty (types, trailing) := by
  refine takes_separatedUntil run_atEnd id rfl (fun t ht us more hu => ?_) (fun t ht => ?_) htrailing
  · obtain ⟨u, rest, hr, -⟩ := ((opensType_tokens (hplain t ht) (hproper t ht)).of_allAgree hu).first
    rw [hr]
    rfl
  · refine (hg true t (hplain t ht) (hproper t ht) (hsize t ht)).mono fun more hm => ?_
    rcases Bool.or_eq_true_iff.mp hm with h | h
    · exact endsType_of_endsArgument (Bool.or_eq_true_iff.mpr (Or.inl h))
    · exact endsType_of_isEmpty h

theorem not_isEmpty_of_opensType {ts us more : List Token} (h : OpensType ts) (hu : Token.AllAgree ts us) :
    (us ++ more).isEmpty = false := by
  obtain ⟨u, rest, hr, -⟩ := (h.of_allAgree hu).first
  rw [hr]
  rfl

theorem takes_tuple (hg : Rereads g bound) (allowPlus : Bool) {elements : List TypeExpr} {trailing : Bool}
    (hplain : ∀ t ∈ elements, t.isPlain = true) (hproper : (TypeExpr.tuple elements trailing).Proper)
    (hsize : ∀ t ∈ elements, Token.sizes t.tokens < bound) {next : List Token → Bool} :
    Takes Token.AllAgree (parenthesized g allowPlus) (TypeExpr.tuple elements trailing).tokens next (.tuple elements trailing) := by
  obtain ⟨hempty, hone, hall⟩ := hproper
  rw [TypeExpr.tokens, TypeExpr.tokensOfAll_eq_map]
  unfold parenthesized
  refine Takes.bind_nil (Makes.inside ?_ : Takes _ _ _ _ (TypeExpr.tuple elements trailing, false)) (takes_pure _)
  cases elements with
  | nil =>
    rw [hempty rfl]
    refine reads_atEnd true (fun hu hm => ?_) (takes_pure _)
    rw [hu.of_nil]
    exact hm
  | cons first others =>
    rw [TypeExpr.allProper_iff] at hall
    have hopens := opensType_tokens (hplain first List.mem_cons_self) (hall first List.mem_cons_self)
    have hcons : commas trailing ((first :: others).map TypeExpr.tokens) =
        first.tokens ++ (Token.symbol "," ++ commas (others.isEmpty.not && trailing) (others.map TypeExpr.tokens)) := by
      cases others with
      | nil =>
        rw [hone rfl]
        rfl
      | cons second rest => exact commas_cons fun h => absurd h (List.cons_ne_nil _ _)
    have hopened := hopens.append (Token.symbol "," ++ commas (others.isEmpty.not && trailing) (others.map TypeExpr.tokens))
    rw [hcons]
    refine reads_atEnd false (fun hu _ => not_isEmpty_of_opensType hopened hu) ?_
    refine reads_sees false (fun hu _ => hopened.not_stands (by decide) hu) ?_
    refine reads_sees false (fun hu _ => hopened.not_stands (by decide) hu) ?_
    refine (hg true first (hplain first List.mem_cons_self) (hall first List.mem_cons_self)
      (hsize first List.mem_cons_self)).bind ?_ fun hu _ => endsType_of_symbol (by decide) hu
    refine reads_sees true (fun hu _ => ?_) ?_
    · obtain ⟨joint, pos, vs, rfl, -⟩ := hu.of_symbol ',' rfl
      rfl
    refine (takes_mark "," (by decide) : Takes Token.AllAgree _ _ (fun _ => true) ()).bind ?_ fun _ _ => rfl
    refine (takes_types hg (fun t ht => hplain t (List.mem_cons_of_mem _ ht)) (fun t ht => hall t (List.mem_cons_of_mem _ ht))
      (fun t ht => hsize t (List.mem_cons_of_mem _ ht)) fun h => ?_).bind_nil ?_
    · rw [h]
      rfl
    · have hended : (others.isEmpty || (others.isEmpty.not && trailing)) = trailing := by
        cases others with
        | nil => exact (hone rfl).symm
        | cons second rest => rfl
      have hmade : Takes Token.AllAgree (pure (TypeExpr.tuple (first :: others) (others.isEmpty || (others.isEmpty.not && trailing)), false))
          [] List.isEmpty (TypeExpr.tuple (first :: others) trailing, false) := by
        rw [hended]
        exact takes_pure _
      exact hmade

theorem takes_paren (hg : Rereads g bound) (allowPlus : Bool) {inner : TypeExpr}
    (hplain : inner.isPlain = true) (hproper : inner.Proper) (hsize : Token.sizes inner.tokens < bound) :
    Takes Token.AllAgree (parenthesized g allowPlus) (TypeExpr.paren inner).tokens endsType (.paren inner) := by
  have hopens := opensType_tokens hplain hproper
  rw [TypeExpr.tokens]
  unfold parenthesized
  refine Takes.bind_nil (Makes.inside ?_ : Takes _ _ _ _ (TypeExpr.paren inner, true)) ?_
  · refine reads_atEnd false (fun hu _ => not_isEmpty_of_opensType hopens hu) ?_
    refine reads_sees false (fun hu _ => hopens.not_stands (by decide) hu) ?_
    refine reads_sees false (fun hu _ => hopens.not_stands (by decide) hu) ?_
    refine Takes.bind_nil ((hg true inner hplain hproper hsize).mono fun _ => endsType_of_isEmpty) ?_
    refine reads_sees false (fun hu hm => ?_) (takes_pure _)
    rw [hu.of_nil, List.isEmpty_iff.mp hm]
    rfl
  · refine reads_sees false (fun hu hm => ?_) ?_
    · rw [hu.of_nil]
      exact not_stands_of_endsType (by decide) hm
    · rw [Bool.and_false]
      exact takes_pure _

end Read

/-! ### Types that start with a path -/

namespace Read

variable {g : Grammar} {bound : Nat}

/-- The path of a trait that a type is seen as. -/
theorem takes_asTrait (hg : Rereads g bound) {asTrait : Option PathExpr} (hplain : asTrait.all PathExpr.isOfPlain = true)
    (hproper : ∀ path ∈ asTrait, path.Proper)
    (hsize : Token.sizes ((asTrait.map fun path => Token.word "as" :: path.tokens).getD []) ≤ bound) :
    Takes Token.AllAgree (do if ← word? "as" then some <$> path g false else pure none)
      ((asTrait.map fun path => Token.word "as" :: path.tokens).getD []) (fun more => (Expected.mark ">").stands more)
      asTrait := by
  have hend : ∀ {more : List Token}, (Expected.mark ">").stands more = true →
      endsType more = true ∧ (Expected.word "as").stands more = false := by
    intro more hm
    obtain ⟨joint, pos, rest, rfl⟩ := exists_punct_of_stands '>' rfl hm
    exact ⟨rfl, rfl⟩
  cases asTrait with
  | none =>
    refine reads_unworded (fun hu hm => ?_) (takes_pure none)
    rw [hu.of_nil]
    exact (hend hm).2
  | some path =>
    simp only [Option.map_some, Option.getD_some, Token.sizes] at hsize
    exact makes_worded (((takes_path hg hplain (hproper _ rfl) (by omega)).map some).mono fun _ hm =>
      endsPath_of_endsType (hend hm).1)

theorem takes_qualified (hg : Rereads g bound) {subject : TypeExpr} {asTrait : Option PathExpr} {rest : List Segment}
    (hplain : (TypeExpr.qualified subject asTrait rest).isPlain = true)
    (hproper : (TypeExpr.qualified subject asTrait rest).Proper)
    (hsize : Token.sizes (TypeExpr.qualified subject asTrait rest).tokens ≤ bound) :
    Takes Token.AllAgree (qualifiedPath g false) (TypeExpr.qualified subject asTrait rest).tokens endsType
      (.qualified subject asTrait rest) := by
  rw [TypeExpr.isPlain_qualified, Bool.and_eq_true, Bool.and_eq_true] at hplain
  obtain ⟨⟨hsubjectPlain, htraitPlain⟩, hrestPlain⟩ := hplain
  obtain ⟨hsubject, htrait, hne, hrest⟩ := TypeExpr.proper_qualified.mp hproper
  obtain ⟨⟨name, arguments⟩, others, rfl⟩ := List.exists_cons_of_ne_nil hne
  obtain ⟨hfirst, hothers⟩ := Segment.allProper_cons.mp hrest
  rw [TypeExpr.tokens_qualified, Segment.joined_eq] at hsize ⊢
  have hangle : Token.sizes (Token.symbol "<") = 1 := rfl
  simp only [sizes_append, Segment.tokens, Token.sizes] at hsize
  have hsizes : ∀ s ∈ others, Token.sizes s.tokens ≤ bound := by
    intro s hs
    have hle := sizes_le_flatMap (fun s => Token.symbol "::" ++ s.tokens) hs
    simp only [sizes_append] at hle
    omega
  have hfirstPlain : arguments.areOfPlain = true := Segment.areOfPlain_of_mem hrestPlain List.mem_cons_self
  refine Takes.writtenBy (reads_sees true (fun hu _ => ?_) ?_)
  · simp only [List.append_assoc] at hu
    obtain ⟨joint, pos, vs, rfl, -⟩ := hu.of_symbol '<' rfl
    rfl
  simp only [List.append_assoc]
  refine (takes_mark "<" (by decide) : Takes Token.AllAgree _ _ (fun _ => true) ()).bind ?_ fun _ _ => rfl
  refine (hg true subject hsubjectPlain hsubject (by omega)).bind ?_ fun {us more} hu _ => ?_
  · refine (takes_asTrait hg htraitPlain htrait (by omega)).bind ?_ fun hu _ => ?_
    · refine (takes_mark ">" (by decide) : Takes Token.AllAgree _ _ (fun _ => true) ()).bind ?_ fun _ _ => rfl
      refine (takes_mark "::" (by decide) : Takes Token.AllAgree _ _ (fun _ => true) ()).bind ?_ fun _ _ => rfl
      refine (takes_segment hg hfirstPlain hfirst (by omega) fun (h : false = true) => absurd h Bool.false_ne_true).bind ?_ fun {us more} hu hm => ?_
      · refine Takes.bind_nil ((takes_others hg (Expected.mark "::").stands (run_sees _) (fun hm => (not_stands_of_endsPath hm).2)
          (fun _ _ _ _ _ _ => rfl) (fun s hs => Segment.areOfPlain_of_mem hrestPlain (List.mem_cons_of_mem _ hs)) hothers
          hsizes fun (h : false = true) => absurd h Bool.false_ne_true).mono fun _ => endsPath_of_endsType) (takes_pure _)
      · exact endsName_of_others hu (endsPath_of_endsType hm)
    · obtain ⟨joint, pos, vs, rfl, -⟩ := hu.of_symbol '>' rfl
      rfl
  · cases asTrait with
    | none => exact endsType_of_symbol (by decide) hu
    | some path =>
      obtain ⟨v, vs, rfl, hv, -⟩ := Token.AllAgree.of_cons (hu : Token.AllAgree (Token.word "as" :: _) us)
      obtain ⟨pos, rfl⟩ := hv.of_ident
      rfl

theorem takes_pathType (allowPlus : Bool) {t : TypeExpr} (hread : Takes Token.AllAgree (qualifiedPath g false) t.tokens endsType t)
    (hform : (∃ path, t = .path path) ∨ ∃ subject asTrait rest, t = .qualified subject asTrait rest) :
    Takes Token.AllAgree (pathType g allowPlus []) t.tokens endsType t := by
  refine hread.bind_nil ?_
  have hnever : ∀ e ∈ continuesType, ∀ {us more : List Token}, Token.AllAgree [] us → endsType more = true →
      e.stands (us ++ more) = false := by
    intro e he us more hu hm
    rw [hu.of_nil]
    exact not_stands_of_endsType he hm
  rcases hform with ⟨path, rfl⟩ | ⟨subject, asTrait, rest, rfl⟩
  · refine reads_seesBut false (fun hu hm => ?_) (reads_sees false (fun hu hm => hnever _ (by decide) hu hm) ?_)
    · rw [hnever _ (by decide) hu hm]
      rfl
    · simp only [List.isEmpty_nil, Bool.not_true, Bool.and_false, Bool.or_false, Bool.false_eq_true, if_false]
      exact takes_pure _
  · exact takes_pure _

end Read

/-! ### Types -/

theorem TypeExpr.isPlain_of_mem {types : List TypeExpr} (h : TypeExpr.allPlain types = true) :
    ∀ t ∈ types, t.isPlain = true := by
  induction types with
  | nil => exact fun t ht => by cases ht
  | cons first rest ih =>
    simp only [TypeExpr.allPlain, Bool.and_eq_true] at h
    exact List.forall_mem_cons.mpr ⟨h.1, ih h.2⟩

namespace Read

variable {g : Grammar} {bound : Nat}

/-- Which reader reads a type that is bound by no parameters. -/
theorem run_typeBody (g : Grammar) (allowPlus : Bool) {s : Stream} (h : (Expected.word "for").stands s.rest = false) :
    typeBody g allowPlus s =
      if (Expected.group .parenthesis).stands s.rest then parenthesized g allowPlus s
      else if [Expected.word "fn", .word "unsafe", .word "extern"].any (·.stands s.rest) then functionType g [] s
      else if (Expected.word "builtin").stands s.rest && (Expected.mark "#").stands (afterTree s.rest) then
        (do builtin; pure (TypeExpr.verbatim (s.rest.take (s.rest.length - (← remaining).length)))) s
      else if pathStarts.any (·.stands s.rest) then pathType g allowPlus [] s
      else if (Expected.word "dyn").stands s.rest then dynamic g allowPlus s
      else if (Expected.group .bracket).stands s.rest then bracketed g s
      else if (Expected.mark "*").stands s.rest then pointer g s
      else if (Expected.mark "&").stands s.rest then reference g s
      else if (Expected.mark "!").stands s.rest && !([Expected.mark "="].any (·.stands s.rest)) then
        (do mark "!"; pure TypeExpr.never) s
      else if (Expected.word "impl").stands s.rest then implicit g allowPlus s
      else (do
        if ← word? "_" then pure TypeExpr.inferred
        else if ← sees .lifetime then
          let position ← here
          let (list, trailing) ← objectBounds g position true
          pure (TypeExpr.traitObject false list trailing)
        else failNoneOf typeStarts) s := by
  have hbinder : binder g s = .ok ([], s) := by
    unfold binder
    rw [run_bind, run_sees, h]
    rfl
  unfold typeBody startsBuiltin
  simp only [run_bind, run_remaining, hbinder, run_seesAny, List.isEmpty_nil, Bool.not_true, Bool.false_and,
    Bool.false_eq_true, if_false, run_sees, run_seesSecond, run_pure, run_ite, run_seesBut]

theorem typeBody_of_parenthesis {allowPlus : Bool} {s : Stream} {content rest : List Token} {opensAt closesAt : Position}
    (hs : s.rest = .group .parenthesis content opensAt closesAt :: rest) :
    typeBody g allowPlus s = parenthesized g allowPlus s := by
  rw [run_typeBody g allowPlus (by rw [hs]; rfl), hs]
  rfl

theorem typeBody_of_bracket {allowPlus : Bool} {s : Stream} {content rest : List Token} {opensAt closesAt : Position}
    (hs : s.rest = .group .bracket content opensAt closesAt :: rest) : typeBody g allowPlus s = bracketed g s := by
  rw [run_typeBody g allowPlus (by rw [hs]; rfl), hs]
  rfl

theorem typeBody_of_star {allowPlus joint : Bool} {s : Stream} {rest : List Token} {pos : Position}
    (hs : s.rest = .punct '*' joint pos :: rest) : typeBody g allowPlus s = pointer g s := by
  rw [run_typeBody g allowPlus (by rw [hs]; rfl), hs]
  rfl

theorem typeBody_of_ampersand {allowPlus joint : Bool} {s : Stream} {rest : List Token} {pos : Position}
    (hs : s.rest = .punct '&' joint pos :: rest) : typeBody g allowPlus s = reference g s := by
  rw [run_typeBody g allowPlus (by rw [hs]; rfl), hs]
  rfl

theorem typeBody_of_exclamation {allowPlus joint : Bool} {s : Stream} {rest : List Token} {pos : Position}
    (hs : s.rest = .punct '!' joint pos :: rest) :
    typeBody g allowPlus s = (do mark "!"; pure TypeExpr.never) s := by
  rw [run_typeBody g allowPlus (by rw [hs]; rfl), hs]
  rfl

theorem typeBody_of_underscore {allowPlus : Bool} {s : Stream} {rest : List Token} {pos : Position}
    (hs : s.rest = .ident "_" pos :: rest) :
    typeBody g allowPlus s = (do word "_"; pure TypeExpr.inferred) s := by
  obtain ⟨ts, closesAt, within, leftover, written⟩ := s
  obtain rfl : ts = .ident "_" pos :: rest := hs
  rw [run_typeBody g allowPlus rfl]
  rfl

theorem typeBody_of_path {allowPlus : Bool} {s : Stream} (hstarts : pathStarts.any (·.stands s.rest) = true)
    (hwords : ∀ e ∈ [Expected.word "for", .group .parenthesis, .word "fn", .word "unsafe", .word "extern"],
      e.stands s.rest = false)
    (hbuiltin : ((Expected.word "builtin").stands s.rest && (Expected.mark "#").stands (afterTree s.rest)) = false) :
    typeBody g allowPlus s = pathType g allowPlus [] s := by
  rw [run_typeBody g allowPlus (hwords _ (by decide)), hbuiltin, hstarts, hwords _ (by decide)]
  simp [hwords]

/-- What follows a name begins no attribute. -/
theorem not_hash_after_name {arguments : Arguments} {others : List Segment} (hplain : arguments.areOfPlain = true)
    {us more : List Token} (hu : Token.AllAgree (arguments.tokens ++ others.flatMap fun s => Token.symbol "::" ++ s.tokens) us)
    (hm : endsType more = true) : (Expected.mark "#").stands (us ++ more) = false := by
  cases arguments with
  | none =>
    cases others with
    | nil =>
      rw [hu.of_nil]
      exact not_stands_of_endsType (by decide) hm
    | cons second rest =>
      rw [List.flatMap_cons, List.append_assoc] at hu
      obtain ⟨pos, joint, next, vs, rfl, -⟩ := Token.AllAgree.of_symbol_pair hu ':' ':' rfl
      rfl
  | angled turbofish arguments trailing =>
    rw [angled_tokens _ _ hplain] at hu
    simp only [List.append_assoc] at hu
    cases turbofish with
    | true =>
      obtain ⟨pos, joint, next, vs, rfl, -⟩ := Token.AllAgree.of_symbol_pair hu ':' ':' rfl
      rfl
    | false =>
      obtain ⟨joint, pos, vs, rfl, -⟩ := Token.AllAgree.of_symbol hu '<' rfl
      rfl
  | called inputs trailing output => cases hplain

theorem stands_pathStart {name : String} (hpath : isPathName name = true) (htry : name ≠ "try") (pos : Position)
    (rest : List Token) : pathStarts.any (·.stands (.ident name pos :: rest)) = true ∧
      ∀ e ∈ [Expected.word "for", .group .parenthesis, .word "fn", .word "unsafe", .word "extern"],
        e.stands (.ident name pos :: rest) = false := by
  constructor
  · rw [isPathName, takesArguments, Bool.or_eq_true, Bool.or_eq_true] at hpath
    rcases hpath with (hfree | hself) | hword
    · exact List.any_eq_true.mpr ⟨.identifier, by decide, hfree⟩
    · exact List.any_eq_true.mpr ⟨.word "Self", by decide, hself⟩
    · have hwords : ∀ word ∈ ["try", "self", "super", "crate"], word ≠ "try" → Expected.word word ∈ pathStarts := by decide
      exact List.any_eq_true.mpr ⟨.word name, hwords name (List.contains_iff_mem.mp hword) htry, beq_self_eq_true name⟩
  · have hne : ∀ word ∈ ["for", "fn", "unsafe", "extern"], (name == word) = false := by
      intro word hw
      refine beq_eq_false_iff_ne.mpr fun hname => ?_
      rw [hname, (by decide : ∀ word ∈ ["for", "fn", "unsafe", "extern"], isPathName word = false) word hw] at hpath
      cases hpath
    intro e he
    simp only [List.mem_cons, List.not_mem_nil, or_false] at he
    rcases he with rfl | rfl | rfl | rfl | rfl
    · exact hne _ (by decide)
    · rfl
    · exact hne _ (by decide)
    · exact hne _ (by decide)
    · exact hne _ (by decide)

theorem typeBody_of_pathTokens {allowPlus : Bool} {path : PathExpr} (hplain : path.isOfPlain = true)
    (hproper : path.Proper) {us more : List Token} {s : Stream} (hu : Token.AllAgree path.tokens us)
    (hm : endsType more = true) (hs : s.rest = us ++ more) : typeBody g allowPlus s = pathType g allowPlus [] s := by
  obtain ⟨leading, segments⟩ := path
  obtain ⟨⟨name, arguments⟩, others, rfl⟩ := List.exists_cons_of_ne_nil hproper.1
  rw [PathExpr.tokens_cons] at hu
  cases leading with
  | true =>
    obtain ⟨pos, joint, next, vs, rfl, -⟩ := Token.AllAgree.of_symbol_pair hu ':' ':' rfl
    refine typeBody_of_path (by rw [hs]; rfl) (fun e he => ?_) (by rw [hs]; rfl)
    rw [hs]
    simp only [List.mem_cons, List.not_mem_nil, or_false] at he
    rcases he with rfl | rfl | rfl | rfl | rfl <;> rfl
  | false =>
    obtain ⟨v, vs, rfl, hv, hvs⟩ := Token.AllAgree.of_cons
      (hu : Token.AllAgree (Token.word name :: (arguments.tokens ++ others.flatMap fun s => Token.symbol "::" ++ s.tokens)) us)
    obtain ⟨pos, rfl⟩ := hv.of_ident
    obtain ⟨⟨htry, harguments⟩, -⟩ :
        (name != "try" ∧ arguments.areOfPlain = true) ∧ Segment.allOfPlain others = true := by
      simpa [PathExpr.isOfPlain, Segment.allOfPlain] using hplain
    obtain ⟨hstarts, hwords⟩ := stands_pathStart hproper.2.2.1 (bne_iff_ne.mp htry) pos (vs ++ more)
    have hmark : (Expected.mark "#").stands (vs ++ more) = false := not_hash_after_name harguments hvs hm
    refine typeBody_of_path (by rw [hs]; exact hstarts) (by rw [hs]; exact hwords) ?_
    rw [hs]
    show ((Expected.word "builtin").stands _ && (Expected.mark "#").stands (vs ++ more)) = false
    rw [hmark, Bool.and_false]

theorem takes_unqualified (hg : Rereads g bound) {path : PathExpr} (hplain : path.isOfPlain = true)
    (hproper : path.Proper) (hsize : Token.sizes path.tokens ≤ bound) :
    Takes Token.AllAgree (qualifiedPath g false) path.tokens endsType (.path path) := by
  obtain ⟨leading, segments⟩ := path
  have hsegments : ∀ s ∈ segments, s.arguments.areOfPlain = true := fun s hs => Segment.areOfPlain_of_mem hplain hs
  have hbody : Takes Token.AllAgree (pathBody g false) (PathExpr.mk leading segments).tokens endsPath (.mk leading segments) :=
    takes_pathBody hg hsegments hproper hsize nofun
  refine Takes.writtenBy (reads_sees false (fun hu _ => ?_) ((hbody.map _).mono fun _ => endsPath_of_endsType))
  obtain ⟨⟨name, arguments⟩, others, rfl⟩ := List.exists_cons_of_ne_nil hproper.1
  rw [PathExpr.tokens_cons] at hu
  cases leading with
  | true =>
    obtain ⟨pos, joint, next, vs, rfl, -⟩ := Token.AllAgree.of_symbol_pair hu ':' ':' rfl
    rfl
  | false =>
    obtain ⟨v, vs, rfl, hv, -⟩ := Token.AllAgree.of_cons (hu : Token.AllAgree (Token.word name :: _) _)
    obtain ⟨pos, rfl⟩ := hv.of_ident
    rfl

theorem takes_typeBody (hg : Rereads g bound) (hnumeral : ReadsNumerals g) {allowPlus : Bool} {t : TypeExpr}
    (hplain : t.isPlain = true) (hproper : t.Proper) (hsize : Token.sizes t.tokens ≤ bound) :
    Takes Token.AllAgree (typeBody g allowPlus) t.tokens endsType t := by
  cases t with
  | array element length =>
    simp only [TypeExpr.isPlain, Bool.and_eq_true] at hplain
    rw [TypeExpr.tokens, Token.sizes, Token.enclosed, Token.size, sizes_append, sizes_append] at hsize
    refine (takes_array hg hnumeral hplain.1 hplain.2 hproper (by omega)).congr fun hu _ hs => ?_
    rw [TypeExpr.tokens] at hu
    obtain ⟨content, opensAt, closesAt, rfl, -⟩ := exists_of_group hu
    exact typeBody_of_bracket hs
  | slice element =>
    have helement : element.isPlain = true := hplain
    rw [TypeExpr.tokens, Token.sizes, Token.enclosed, Token.size] at hsize
    refine (takes_slice hg helement hproper (by omega)).congr fun hu _ hs => ?_
    rw [TypeExpr.tokens] at hu
    obtain ⟨content, opensAt, closesAt, rfl, -⟩ := exists_of_group hu
    exact typeBody_of_bracket hs
  | tuple elements trailing =>
    rw [TypeExpr.tokens, TypeExpr.tokensOfAll_eq_map, Token.sizes, Token.enclosed, Token.size] at hsize
    have hsizes : ∀ t ∈ elements, Token.sizes t.tokens < bound := by
      intro t ht
      have hle := sizes_le_commas trailing (List.mem_map_of_mem (f := TypeExpr.tokens) ht)
      omega
    refine (takes_tuple hg allowPlus (TypeExpr.isPlain_of_mem hplain) hproper hsizes).congr fun hu _ hs => ?_
    rw [TypeExpr.tokens] at hu
    obtain ⟨content, opensAt, closesAt, rfl, -⟩ := exists_of_group hu
    exact typeBody_of_parenthesis hs
  | paren inner =>
    have hinner : inner.isPlain = true := hplain
    rw [TypeExpr.tokens, Token.sizes, Token.enclosed, Token.size] at hsize
    refine (takes_paren hg allowPlus hinner hproper (by omega)).congr fun hu _ hs => ?_
    rw [TypeExpr.tokens] at hu
    obtain ⟨content, opensAt, closesAt, rfl, -⟩ := exists_of_group hu
    exact typeBody_of_parenthesis hs
  | pointer mutable target =>
    have htarget : target.isPlain = true := hplain
    rw [TypeExpr.tokens, sizes_append, Token.sizes] at hsize
    have hstar : Token.sizes (Token.symbol "*") = 1 := rfl
    refine (takes_pointer hg htarget hproper (by omega)).congr fun hu _ hs => ?_
    rw [TypeExpr.tokens] at hu
    obtain ⟨joint, pos, vs, rfl, -⟩ := hu.of_symbol '*' rfl
    exact typeBody_of_star hs
  | reference lifetime mutable referent =>
    have hreferent : referent.isPlain = true := hplain
    rw [TypeExpr.tokens, sizes_append, sizes_append, sizes_append] at hsize
    have hampersand : Token.sizes (Token.symbol "&") = 1 := rfl
    refine (takes_reference hg hreferent hproper (by omega)).congr fun hu _ hs => ?_
    rw [TypeExpr.tokens, List.append_assoc, List.append_assoc] at hu
    obtain ⟨joint, pos, vs, rfl, -⟩ := hu.of_symbol '&' rfl
    exact typeBody_of_ampersand hs
  | never =>
    rw [TypeExpr.tokens]
    refine Reads.congr (q := do mark "!"; pure TypeExpr.never) ?_ fun hu _ hs => ?_
    · exact (takes_mark "!" (by decide)).bind_nil (takes_pure _)
    · obtain ⟨joint, pos, rfl⟩ := hu.of_symbol_alone '!' rfl
      exact typeBody_of_exclamation hs
  | inferred =>
    rw [TypeExpr.tokens]
    refine Reads.congr (q := do word "_"; pure TypeExpr.inferred) (takes_word.bind_nil (takes_pure _)) fun hu _ hs => ?_
    obtain ⟨v, vs, rfl, hv, hvs⟩ := hu.of_cons
    obtain ⟨pos, rfl⟩ := hv.of_ident
    exact typeBody_of_underscore hs
  | path path =>
    refine (takes_pathType allowPlus (takes_unqualified hg hplain hproper hsize) (Or.inl ⟨_, rfl⟩)).congr fun hu hm hs => ?_
    exact typeBody_of_pathTokens hplain hproper hu hm hs
  | qualified subject asTrait rest =>
    refine (takes_pathType allowPlus (takes_qualified hg hplain hproper hsize) (Or.inr ⟨_, _, _, rfl⟩)).congr fun hu _ hs => ?_
    rw [TypeExpr.tokens_qualified] at hu
    simp only [List.append_assoc] at hu
    obtain ⟨joint, pos, vs, rfl, -⟩ := hu.of_symbol '<' rfl
    refine typeBody_of_path (by rw [hs]; rfl) (fun e he => ?_) (by rw [hs]; rfl)
    rw [hs]
    simp only [List.mem_cons, List.not_mem_nil, or_false] at he
    rcases he with rfl | rfl | rfl | rfl | rfl <;> rfl
  | _ => cases hplain

theorem takes_type (hg : Rereads g bound) (hnumeral : ReadsNumerals g) {n : Nat} (hn : n ≤ bound + 1) : Rereads (layer g) n :=
  fun _ t hplain hproper hsize => Takes.writtenBy (takes_typeBody hg hnumeral hplain hproper (by omega))

end Read

/-! ## Every depth -/

section Numerals

variable (g : Grammar) {text : String} {pos closesAt : Position} {within : Option Delimiter}
  {leftover : Option (Position × Option Delimiter)} {written : List Token}

theorem operand_numeral : Read.operand g true ⟨[.literal text pos], closesAt, within, leftover, written⟩ =
    .ok (.atom [] .other [Token.text text], ⟨[], closesAt, within, leftover, written⟩) := by
  unfold Read.operand
  rfl

/-- Nothing goes on with an expression at the end. -/
theorem continued_at_end (content : List Token) :
    Read.continued g (.atom [] .other content) true .jump ⟨[], closesAt, within, leftover, written⟩ =
      .ok (.atom [] .other content, ⟨[], closesAt, within, leftover, written⟩) := rfl

theorem expression_numeral : Read.expression g true ⟨[.literal text pos], closesAt, within, leftover, written⟩ =
    .ok (.atom [] .other [Token.text text], ⟨[], closesAt, within, leftover, written⟩) := by
  unfold Read.expression
  rw [run_bind, operand_numeral]
  exact continued_at_end g _

theorem readsNumerals_layer : Read.ReadsNumerals (layer g) := by
  intro ts h us more s hu hm hs
  obtain ⟨text, pos, rfl, rfl⟩ := exists_of_isNumeral h hu
  obtain ⟨rest, closesAt, within, leftover, written⟩ := s
  rw [List.isEmpty_iff.mp hm] at hs ⊢
  obtain rfl : rest = [.literal text pos] := hs
  have hexpression : (layer g).expression true = Read.expression g true := rfl
  have halone : (layer g).expressionAlone ⟨[.literal text pos], closesAt, within, leftover, []⟩ =
      .ok ((), ⟨[], closesAt, within, leftover, [Token.text text]⟩) := by
    unfold Grammar.expressionAlone Grammar.expressionIn
    rw [run_bind, hexpression, expression_numeral]
    rfl
  refine ⟨_, [Token.text text], rfl, ?_⟩
  unfold Read.tokensOf captured
  rw [run_bind]
  simp only [halone]
  rfl

end Numerals

/-- Plain types are read again by a grammar with a layer for each of their tokens. -/
theorem rereads_grammar (depth : Nat) : Rereads (grammar (depth + 1)) depth := by
  induction depth with
  | zero => exact fun _ _ _ _ hsize => absurd hsize (Nat.not_lt_zero _)
  | succ depth ih => exact Read.takes_type ih (readsNumerals_layer _) (Nat.le_refl _)

mutual

theorem size_of_agrees : ∀ {t u : Token}, t.Agrees u → u.size = t.size
  | .ident .., .ident .., _ => rfl
  | .punct .., .punct .., _ => rfl
  | .literal .., .literal .., _ => rfl
  | .group _ content _ _, .group _ inner _ _, h => by
    rw [Token.size, Token.size, sizes_of_allAgree h.2]

theorem sizes_of_allAgree : ∀ {ts us : List Token}, Token.AllAgree ts us → Token.sizes us = Token.sizes ts
  | [], [], _ => rfl
  | t :: ts, u :: us, h => by
    rw [Token.sizes, Token.sizes, size_of_agrees h.1, sizes_of_allAgree h.2]

end

/-- A text that spells tokens is read as these tokens are. -/
theorem readText_of_spells {α : Type} {reader : Grammar → Parser α} {text : String} {ts : List Token}
    {next : List Token → Bool} {a : α} (h : Spells text.toList ts)
    (hread : Takes Token.AllAgree (reader (grammar (4 * Token.sizes ts + 8))) ts next a) (hnext : next [] = true) :
    (readText reader text).map (·.1) = .ok a := by
  obtain ⟨us, hlexed, hu⟩ := tokensOf_of_spells h
  obtain ⟨found, written, rfl, hw⟩ := hread.onTokens hu hnext .start
  have hgrammar : readTokens reader us .start = .ok (found, written) := by
    rw [readTokens, grammarFor, sizes_of_allAgree hu]
    exact hw
  unfold readText readChars
  rw [hlexed]
  show Except.map _ (readTokens reader us .start) = _
  rw [hgrammar]
  rfl

/-- A text that spells a plain type is read as that type. -/
theorem readType_of_spells {text : String} {t : TypeExpr} (hplain : t.isPlain = true) (hproper : t.Proper)
    (h : Spells text.toList t.tokens) : readType text = .ok t :=
  readText_of_spells h (rereads_grammar (4 * Token.sizes t.tokens + 8) true t hplain hproper (by omega)) rfl

end BuilderSynthesis.Syntax
