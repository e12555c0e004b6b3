/-
  BuilderSynthesis.Proofs.GenericsReading — generic parameters and where clauses are read again.

  Plain bounds are lifetimes and traits by their paths; plain parameters and predicates are put together
  from these and from plain types. Their printed texts are read again as what they are
  (`readGenerics_printed`, `readWhereClause_printed`). A clause without predicates prints as no text at
  all, and no text is no clause.
-/

import BuilderSynthesis.Proofs.PrintedTypes

namespace BuilderSynthesis.Syntax

open BuilderSynthesis.Syntax.Parser

/-! ## Bounds -/

/-- The bound is a lifetime, or a trait by its path, which may be a relaxed one. -/
inductive Bound.IsPlain : Bound → Prop where
  | lifetime {name} (h : IsLifetime name) : IsPlain (.lifetime name)
  | trait {path} (maybe : Bool) (plain : path.isOfPlain = true) (proper : path.Proper) :
      IsPlain (.trait false (if maybe then Token.symbol "?" else []) path)

/-- Nothing stands here that would go on with a bound. -/
def endsBound (ts : List Token) : Bool := endsPath ts && !(Expected.group .parenthesis).stands ts

/-- What cannot stand where a path starts. -/
def neverStartPath : List Expected :=
  [.lifetime, .group .bracket, .group .parenthesis, .group .brace, .mark "?", .mark ",", .mark ">", .mark ";", .mark "=",
   .mark "#", .word "for", .word "const", .word "use"]

theorem not_stands_of_path {path : PathExpr} (hproper : path.Proper) {e : Expected} (he : e ∈ neverStartPath)
    {us more : List Token} (hu : Token.AllAgree path.tokens us) : e.stands (us ++ more) = false := by
  simp only [neverStartPath, List.mem_cons, List.not_mem_nil, or_false] at he
  rcases exists_of_path hproper hu with ⟨pos, joint, next, rest, rfl⟩ | ⟨name, pos, rest, rfl, hname⟩
  · rcases he with rfl | rfl | rfl | rfl | rfl | rfl | rfl | rfl | rfl | rfl | rfl | rfl | rfl <;> rfl
  · have hne : ∀ word ∈ ["for", "const", "use"], (name == word) = false := by
      intro word hw
      refine beq_eq_false_iff_ne.mpr fun he => ?_
      rw [he, (by decide : ∀ word ∈ ["for", "const", "use"], isPathName word = false) word hw] at hname
      cases hname
    rcases he with rfl | rfl | rfl | rfl | rfl | rfl | rfl | rfl | rfl | rfl | rfl | rfl | rfl
    all_goals first | rfl | exact hne _ (by decide)

namespace Read

variable {g : Grammar} {bound : Nat}

theorem run_binder {s : Stream} (h : (Expected.word "for").stands s.rest = false) : binder g s = .ok ([], s) := by
  unfold binder
  rw [run_bind, run_sees, h]
  rfl

theorem run_callable {segments : List Segment} {s : Stream} (h : endsBound s.rest = true) :
    callable g segments s = .ok (segments, s) := by
  obtain ⟨hpath, hcall⟩ := Bool.and_eq_true_iff.mp h
  rw [Bool.not_eq_true'] at hcall
  have hseparator := (not_stands_of_endsPath hpath).2
  have htakes : takesCall segments s = .ok (false, s) := by
    unfold takesCall
    simp only [run_bind, run_sees, run_seesThird, run_pure, hcall, hseparator, Bool.false_and, Bool.or_false, Bool.and_false]
  unfold callable
  rw [run_bind, htakes]
  rfl

/-- A trait by its path, where nothing stands before it. -/
theorem takes_traitPath (hg : Rereads g bound) (maybe : Bool) {path : PathExpr} (hplain : path.isOfPlain = true)
    (hproper : path.Proper) (hsize : Token.sizes path.tokens ≤ bound) :
    Takes Token.AllAgree (do
      let bound ← Read.path g false
      let segments ← callable g bound.segments
      pure (some (if maybe then Token.symbol "?" else [], PathExpr.mk bound.leading segments)))
      path.tokens endsBound (some (if maybe then Token.symbol "?" else [], path)) := by
  refine Takes.bind_nil ((takes_path hg hplain hproper hsize).mono fun _ h => (Bool.and_eq_true_iff.mp h).1) ?_
  refine reads_idle path.segments (fun hu hm hs => run_callable ?_) ?_
  · rw [hs, eq_nil_of_like hu]
    exact hm
  · obtain ⟨leading, segments⟩ := path
    exact takes_pure _

theorem takes_traitBound (hg : Rereads g bound) (maybe : Bool) {path : PathExpr} (hplain : path.isOfPlain = true)
    (hproper : path.Proper) (hsize : Token.sizes path.tokens ≤ bound) :
    Takes Token.AllAgree (traitBound g true) ((if maybe then Token.symbol "?" else []) ++ path.tokens) endsBound
      (some (if maybe then Token.symbol "?" else [], path)) := by
  have hbegins : ∀ e ∈ [Expected.word "for", .group .bracket, .word "const"], ∀ {us more : List Token},
      Token.AllAgree ((if maybe then Token.symbol "?" else []) ++ path.tokens) us → e.stands (us ++ more) = false := by
    intro e he us more hu
    cases maybe with
    | true =>
      obtain ⟨joint, pos, vs, rfl, -⟩ := hu.of_symbol '?' rfl
      simp only [List.mem_cons, List.not_mem_nil, or_false] at he
      rcases he with rfl | rfl | rfl <;> rfl
    | false =>
      have hall : ∀ e ∈ [Expected.word "for", .group .bracket, .word "const"], e ∈ neverStartPath := by decide
      exact not_stands_of_path hproper (hall e he) hu
  unfold traitBound
  refine reads_idle [] (fun hu _ hs => run_binder (hs ▸ hbegins _ (by decide) hu)) ?_
  refine reads_ignored (fun s => ⟨_, rfl⟩) fun position => ?_
  refine reads_sees false (fun hu _ => hbegins _ (by decide) hu) (reads_sees false (fun hu _ => hbegins _ (by decide) hu) ?_)
  simp only [Bool.false_eq_true, if_false]
  refine reads_ignored (fun s => ⟨_, rfl⟩) fun maybeAt => ?_
  cases maybe with
  | true =>
    refine makes_marked (by decide) (reads_idle [] (fun hu _ hs => ?_) ?_)
    · exact run_binder (hs ▸ not_stands_of_path hproper (by decide) hu)
    · exact takes_traitPath hg true hplain hproper hsize
  | false =>
    refine reads_unmarked (fun hu _ => not_stands_of_path hproper (by decide) hu) ?_
    exact takes_traitPath hg false hplain hproper hsize

theorem takes_bound (hg : Rereads g bound) {b : Bound} (h : b.IsPlain) (hsize : Token.sizes b.tokens ≤ bound) :
    Takes Token.AllAgree (Read.bound g false true) b.tokens endsBound b := by
  refine Takes.writtenBy ?_
  cases h with
  | lifetime h =>
    obtain ⟨letters, rfl, -⟩ := h
    refine reads_sees true (fun hu _ => ?_) (takes_lifetime.map _)
    obtain ⟨pos, namePos, rfl⟩ := exists_of_lifetime hu
    rfl
  | @trait path maybe plain proper =>
    have htokens : (Bound.trait false (if maybe then Token.symbol "?" else []) path).tokens =
        (if maybe then Token.symbol "?" else []) ++ path.tokens := by
      rw [Bound.tokens]
      rfl
    rw [htokens, sizes_append] at hsize
    have hbegins : ∀ e ∈ [Expected.lifetime, .word "use", .group .parenthesis], ∀ {us more : List Token},
        Token.AllAgree ((if maybe then Token.symbol "?" else []) ++ path.tokens) us → e.stands (us ++ more) = false := by
      intro e he us more hu
      cases maybe with
      | true =>
        obtain ⟨joint, pos, vs, rfl, -⟩ := hu.of_symbol '?' rfl
        simp only [List.mem_cons, List.not_mem_nil, or_false] at he
        rcases he with rfl | rfl | rfl <;> rfl
      | false =>
        have hall : ∀ e ∈ [Expected.lifetime, .word "use", .group .parenthesis], e ∈ neverStartPath := by decide
        exact not_stands_of_path proper (hall e he) hu
    have hread := takes_traitBound hg maybe plain proper (by omega)
    have hform : Takes Token.AllAgree (do
          if ← sees (.group .parenthesis) then pure (true, ← inside .parenthesis (traitBound g true))
          else pure (false, ← traitBound g true))
        ((if maybe then Token.symbol "?" else []) ++ path.tokens) endsBound
        (false, some (if maybe then Token.symbol "?" else [], path)) :=
      reads_sees false (fun hu _ => hbegins _ (by decide) hu) (hread.bind_nil (takes_pure _))
    rw [htokens]
    refine reads_sees false (fun hu _ => hbegins _ (by decide) hu) (reads_sees false (fun hu _ => hbegins _ (by decide) hu) ?_)
    refine Makes.bind_nil (Reads.imp hform.sourceOf fun h => h.1) ?_
    rintro ⟨made, source⟩ ⟨_, rfl⟩
    exact takes_pure _

/-- Plain types and plain bounds of less than a size are read again by a grammar. -/
structure RereadsBounds (g : Grammar) (bound : Nat) : Prop where
  types : Rereads g bound
  bounds : ∀ b : Bound, b.IsPlain → Token.sizes b.tokens < bound → Takes Token.AllAgree (g.bound false true) b.tokens endsBound b

theorem rereadsBounds_layer {n : Nat} (hg : Rereads g bound) (hnumeral : ReadsNumerals g) (hn : n ≤ bound + 1) :
    RereadsBounds (layer g) n where
  types := takes_type hg hnumeral hn
  bounds _ h hsize := takes_bound hg h (by omega)

end Read

theorem rereadsBounds_grammar (depth : Nat) : Read.RereadsBounds (grammar (depth + 2)) depth :=
  Read.rereadsBounds_layer (rereads_grammar depth) (readsNumerals_layer _) (Nat.le_succ _)

/-! ## Lists of bounds -/

/-- A plain bound starts with the apostrophe of a lifetime, a question mark, separators or a name. -/
theorem Bound.IsPlain.exists_of_tokens {b : Bound} (h : b.IsPlain) {us : List Token} (hu : Token.AllAgree b.tokens us) :
    (∃ pos rest, us = .punct '\'' true pos :: rest) ∨ (∃ joint pos rest, us = .punct '?' joint pos :: rest) ∨
      (∃ pos joint next rest, us = .punct ':' true pos :: .punct ':' joint next :: rest) ∨
        ∃ name pos rest, us = .ident name pos :: rest := by
  cases h with
  | lifetime h =>
    obtain ⟨letters, rfl, -⟩ := h
    obtain ⟨pos, namePos, rfl⟩ := exists_of_lifetime hu
    exact Or.inl ⟨pos, _, rfl⟩
  | @trait path maybe plain proper =>
    cases maybe with
    | true =>
      obtain ⟨joint, pos, rest, rfl, -⟩ := Token.AllAgree.of_symbol (hu : Token.AllAgree (Token.symbol "?" ++ path.tokens) us) '?' rfl
      exact Or.inr (Or.inl ⟨joint, pos, rest, rfl⟩)
    | false =>
      rcases exists_of_path proper (hu : Token.AllAgree path.tokens us) with h | ⟨name, pos, rest, rfl, -⟩
      · exact Or.inr (Or.inr (Or.inl h))
      · exact Or.inr (Or.inr (Or.inr ⟨name, pos, rest, rfl⟩))

theorem Bound.IsPlain.tokens_ne_nil {b : Bound} (h : b.IsPlain) : b.tokens ≠ [] := by
  intro he
  have hu : Token.AllAgree b.tokens [] := by
    rw [he]
    trivial
  rcases h.exists_of_tokens hu with ⟨_, _, h⟩ | ⟨_, _, _, h⟩ | ⟨_, _, _, _, h⟩ | ⟨_, _, _, h⟩ <;> cases h

theorem Bound.tokensOfMany_eq (bounds : List Bound) (trailing : Bool) :
    Bound.tokensOfMany bounds trailing = joinTokens (Token.symbol "+") trailing (bounds.map Bound.tokens) := by
  have hall : ∀ bounds, Bound.tokensOfAll bounds = bounds.map Bound.tokens := by
    intro bounds
    induction bounds with
    | nil => rfl
    | cons b rest ih => rw [Bound.tokensOfAll, ih, List.map_cons]
  rw [Bound.tokensOfMany, hall]

/-- The test ends a list of bounds: it holds of none that a bound starts with. -/
structure EndsBounds (stops next : List Token → Bool) : Prop where
  ends : ∀ {more}, next more = true →
    stops more = true ∧ (Expected.mark "+").stands more = false ∧ endsBound more = true
  lifetime : ∀ pos rest, stops (.punct '\'' true pos :: rest) = false
  maybe : ∀ joint pos rest, stops (.punct '?' joint pos :: rest) = false
  separator : ∀ pos joint next rest, stops (.punct ':' true pos :: .punct ':' joint next :: rest) = false
  name : ∀ name pos rest, stops (.ident name pos :: rest) = false

namespace Read

variable {g : Grammar} {bound : Nat} {stop : Parser Bool} {stops next : List Token → Bool}

theorem endsBound_of_plus {ts : List Token} (h : (Expected.mark "+").stands ts = true) : endsBound ts = true := by
  obtain ⟨joint, pos, rest, rfl⟩ := exists_punct_of_stands '+' rfl h
  rfl

/-- Lifetimes with plus signs between them. -/
theorem takes_lifetimes (hstop : ∀ s, stop s = .ok (stops s.rest, s))
    (hends : ∀ {more}, next more = true → stops more = true ∧ (Expected.mark "+").stands more = false)
    (hlifetime : ∀ pos rest, stops (.punct '\'' true pos :: rest) = false) {names : List String} {trailing : Bool}
    (hnames : ∀ name ∈ names, IsLifetime name) (htrailing : names = [] → trailing = false) :
    Takes Token.AllAgree (joinedBy "+" stop lifetime) (joinTokens (Token.symbol "+") trailing (names.map Token.lifetime)) next
      (names, trailing) := by
  refine takes_joinedBy (by decide) hstop hends ?_ ?_ htrailing ?_
  · intro name hname us more hu
    obtain ⟨letters, rfl, -⟩ := hnames name hname
    obtain ⟨pos, namePos, rfl⟩ := exists_of_lifetime hu
    exact hlifetime pos _
  · intro name hname
    obtain ⟨letters, rfl, -⟩ := hnames name hname
    exact takes_lifetime
  · intro name _ h
    cases h

/-- Plain bounds with plus signs between them. -/
theorem takes_bounds (hg : RereadsBounds g bound) (hstop : ∀ s, stop s = .ok (stops s.rest, s)) (hends : EndsBounds stops next)
    {list : List Bound} {trailing : Bool} (hplain : ∀ b ∈ list, b.IsPlain)
    (hsize : Token.sizes (Bound.tokensOfMany list trailing) < bound) (htrailing : list = [] → trailing = false) :
    Takes Token.AllAgree (bounds g stop) (Bound.tokensOfMany list trailing) next (list, trailing) := by
  rw [Bound.tokensOfMany_eq] at hsize ⊢
  refine takes_joinedBy (by decide) hstop (fun hm => ⟨(hends.ends hm).1, (hends.ends hm).2.1⟩) ?_ ?_ htrailing
    fun b hb => (hplain b hb).tokens_ne_nil
  · intro b hb us more hu
    rcases (hplain b hb).exists_of_tokens hu with ⟨pos, rest, rfl⟩ | ⟨joint, pos, rest, rfl⟩ |
      ⟨pos, joint, next, rest, rfl⟩ | ⟨name, pos, rest, rfl⟩
    · exact hends.lifetime pos _
    · exact hends.maybe joint pos _
    · exact hends.separator pos joint next _
    · exact hends.name name pos _
  · intro b hb
    have hle := sizes_le_joinTokens (Token.symbol "+") trailing (List.mem_map_of_mem (f := Bound.tokens) hb)
    refine (hg.bounds b (hplain b hb) (by omega)).mono fun more hm => ?_
    rcases Bool.or_eq_true_iff.mp hm with h | h
    · exact endsBound_of_plus h
    · exact (hends.ends h).2.2

end Read

/-! ## Parameters -/

/-- What follows a colon, which is not written before nothing. -/
def afterColon (tokens : List Token) : List Token := if tokens.isEmpty then [] else Token.symbol ":" ++ tokens

/-- A plain parameter has no attributes; its bounds and the type, or the numeral, that it falls back on are
plain. -/
inductive GenericParameter.IsPlain : GenericParameter → Prop where
  | lifetime {name outlives trailing} (named : IsLifetime name) (lifetimes : ∀ other ∈ outlives, IsLifetime other)
      (ended : outlives = [] → trailing = false) :
      IsPlain ⟨.lifetime, name, [],
        Token.lifetime name ++ afterColon (joinTokens (Token.symbol "+") trailing (outlives.map Token.lifetime)), none⟩
  | type {name bounds trailing} {fallback : Option TypeExpr} (named : IsIdentifier name) (free : isReserved name = false)
      (plain : ∀ b ∈ bounds, b.IsPlain) (ended : bounds = [] → trailing = false)
      (other : ∀ t ∈ fallback, t.isPlain = true ∧ t.Proper) :
      IsPlain ⟨.type, name, [], Token.word name :: afterColon (Bound.tokensOfMany bounds trailing),
        fallback.map TypeExpr.tokens⟩
  | constant {name} {type : TypeExpr} {fallback : Option (List Token)} (named : IsIdentifier name)
      (free : isReserved name = false) (plain : type.isPlain = true) (proper : type.Proper)
      (other : ∀ value ∈ fallback, isNumeral value = true) :
      IsPlain ⟨.constant, name, [], Token.word "const" :: Token.word name :: (Token.symbol ":" ++ type.tokens), fallback⟩

namespace Read

variable {g : Grammar} {bound : Nat} {next : List Token → Bool}

theorem takes_colonBounds {p : Parser (List Token)} {tokens : List Token} (hp : Takes Token.AllAgree p tokens next tokens)
    (hcolon : ∀ {more}, next more = true → (Expected.mark ":").stands more = false) :
    Takes Token.AllAgree (colonBounds p) (afterColon tokens) next (afterColon tokens) := by
  unfold afterColon
  cases htokens : tokens.isEmpty with
  | true =>
    refine reads_unmarked (fun hu hm => ?_) (takes_pure _)
    rw [hu.of_nil]
    exact hcolon hm
  | false =>
    refine makes_marked (by decide) (hp.bind_nil ?_)
    rw [htokens]
    exact takes_pure _

/-- The end of the bounds of a parameter. -/
def endsParameterBounds (ts : List Token) : Bool := endsArgument ts || (Expected.mark "=").stands ts

theorem exists_of_endsParameterBounds {ts : List Token} (h : endsParameterBounds ts = true) :
    ∃ c ∈ [',', '>', '='], ∃ joint pos rest, ts = .punct c joint pos :: rest := by
  rcases Bool.or_eq_true_iff.mp h with h | h
  · rcases Bool.or_eq_true_iff.mp h with h | h
    · exact ⟨',', by decide, exists_punct_of_stands ',' rfl h⟩
    · exact ⟨'>', by decide, exists_punct_of_stands '>' rfl h⟩
  · exact ⟨'=', by decide, exists_punct_of_stands '=' rfl h⟩

theorem endsParameter : EndsBounds (fun ts => ts.isEmpty || [Expected.mark ",", .mark ">"].any (·.stands ts)) endsArgument where
  ends hm := by
    rcases Bool.or_eq_true_iff.mp hm with h | h
    · obtain ⟨joint, pos, rest, rfl⟩ := exists_punct_of_stands ',' rfl h
      exact ⟨rfl, rfl, rfl⟩
    · obtain ⟨joint, pos, rest, rfl⟩ := exists_punct_of_stands '>' rfl h
      exact ⟨rfl, rfl, rfl⟩
  lifetime _ _ := rfl
  maybe _ _ _ := rfl
  separator _ _ _ _ := rfl
  name _ _ _ := rfl

theorem endsBoundsOfType : EndsBounds
    (fun ts => ts.isEmpty || [Expected.mark ",", .mark ">"].any (·.stands ts) || (Expected.mark "=").stands ts)
    endsParameterBounds where
  ends hm := by
    obtain ⟨c, hc, joint, pos, rest, rfl⟩ := exists_of_endsParameterBounds hm
    simp only [List.mem_cons, List.not_mem_nil, or_false] at hc
    rcases hc with rfl | rfl | rfl <;> exact ⟨rfl, rfl, rfl⟩
  lifetime _ _ := rfl
  maybe _ _ _ := rfl
  separator _ _ _ _ := rfl
  name _ _ _ := rfl

theorem takes_lifetimeParameter {name : String} {outlives : List String} {trailing : Bool} (hname : IsLifetime name)
    (houtlives : ∀ other ∈ outlives, IsLifetime other) (hended : outlives = [] → trailing = false) :
    Takes Token.AllAgree (lifetimeParameter [])
      (Token.lifetime name ++ afterColon (joinTokens (Token.symbol "+") trailing (outlives.map Token.lifetime))) endsArgument
      ⟨.lifetime, name, [],
        Token.lifetime name ++ afterColon (joinTokens (Token.symbol "+") trailing (outlives.map Token.lifetime)), none⟩ := by
  have hlist : Takes Token.AllAgree (joinedBy "+" parameterEnd lifetime)
      (joinTokens (Token.symbol "+") trailing (outlives.map Token.lifetime)) endsArgument (outlives, trailing) :=
    takes_lifetimes (fun _ => rfl) (fun hm => ⟨(endsParameter.ends hm).1, (endsParameter.ends hm).2.1⟩) endsParameter.lifetime
      houtlives hended
  obtain ⟨letters, rfl, -⟩ := hname
  refine (takes_lifetime : Takes _ _ _ (fun _ => true) _).bind ?_ fun _ _ => rfl
  refine Takes.bind_nil (takes_colonBounds ?_ fun hm => not_stands_of_endsArgument (by decide) hm) (takes_pure _)
  exact hlist.bind_nil (takes_pure _)

theorem takes_fallback {α : Type} {p : Parser α} {tokens : α → List Token} {fallback : Option α}
    (hp : ∀ a ∈ fallback, Takes Token.AllAgree p (tokens a) endsArgument a) :
    Takes Token.AllAgree (do if ← mark? "=" then some <$> p else pure none)
      ((fallback.map fun a => Token.symbol "=" ++ tokens a).getD []) endsArgument fallback := by
  cases fallback with
  | none =>
    refine reads_unmarked (fun hu hm => ?_) (takes_pure none)
    rw [eq_nil_of_like hu]
    exact not_stands_of_endsArgument (by decide) hm
  | some a => exact makes_marked (by decide) ((hp a rfl).map some)

theorem takes_typeParameter (hg : RereadsBounds g bound) {name : String} {list : List Bound} {trailing : Bool}
    {fallback : Option TypeExpr} (hfree : isReserved name = false) (hplain : ∀ b ∈ list, b.IsPlain)
    (hended : list = [] → trailing = false) (hother : ∀ t ∈ fallback, t.isPlain = true ∧ t.Proper)
    (hlist : Token.sizes (Bound.tokensOfMany list trailing) < bound) (hsize : ∀ t ∈ fallback, Token.sizes t.tokens < bound) :
    Takes Token.AllAgree (typeParameter g [])
      (Token.word name :: (afterColon (Bound.tokensOfMany list trailing) ++
        (fallback.map fun t => Token.symbol "=" ++ t.tokens).getD [])) endsArgument
      ⟨.type, name, [], Token.word name :: afterColon (Bound.tokensOfMany list trailing), fallback.map TypeExpr.tokens⟩ := by
  refine Takes.bind (takes_identifier hfree : Takes _ _ [Token.word name] (fun _ => true) _) ?_ fun _ _ => rfl
  have hread : Takes Token.AllAgree (do
      let read ← bounds g (do pure ((← parameterEnd) || (← sees (.mark "="))))
      pure (Bound.tokensOfMany read.1 read.2)) (Bound.tokensOfMany list trailing) endsParameterBounds
      (Bound.tokensOfMany list trailing) :=
    (takes_bounds hg (fun _ => rfl) endsBoundsOfType hplain hlist hended).bind_nil (takes_pure _)
  refine (takes_colonBounds hread fun hm => ?_).bind ?_ fun {us more} hu hm => ?_
  · obtain ⟨c, hc, joint, pos, rest, rfl⟩ := exists_of_endsParameterBounds hm
    simp only [List.mem_cons, List.not_mem_nil, or_false] at hc
    rcases hc with rfl | rfl | rfl <;> rfl
  · refine (takes_fallback fun t ht => ?_).bind_nil (takes_pure _)
    exact (hg.types true t (hother t ht).1 (hother t ht).2 (hsize t ht)).mono fun _ => endsType_of_endsArgument
  · cases fallback with
    | none =>
      rw [eq_nil_of_like hu]
      exact Bool.or_eq_true_iff.mpr (Or.inl hm)
    | some t =>
      obtain ⟨joint, pos, vs, rfl, -⟩ := Token.AllAgree.of_symbol hu '=' rfl
      rfl

theorem takes_constantParameter (hg : RereadsBounds g bound) {name : String} {type : TypeExpr}
    {fallback : Option (List Token)} (hfree : isReserved name = false) (hplain : type.isPlain = true) (hproper : type.Proper)
    (hother : ∀ value ∈ fallback, isNumeral value = true) (hsize : Token.sizes type.tokens < bound) :
    Takes Token.AllAgree (constantParameter g [])
      (Token.word "const" :: Token.word name :: (Token.symbol ":" ++ (type.tokens ++
        (fallback.map fun value => Token.symbol "=" ++ value).getD []))) endsArgument
      ⟨.constant, name, [], Token.word "const" :: Token.word name :: (Token.symbol ":" ++ type.tokens), fallback⟩ := by
  refine Takes.bind (takes_word : Takes _ _ [Token.word "const"] (fun _ => true) _) ?_ fun _ _ => rfl
  refine Takes.bind (takes_identifier hfree : Takes _ _ [Token.word name] (fun _ => true) _) ?_ fun _ _ => rfl
  refine Takes.bind (takes_mark ":" (by decide) : Takes _ _ _ (fun _ => true) _) ?_ fun _ _ => rfl
  refine (hg.types true type hplain hproper hsize).bind ?_ fun {us more} hu hm => ?_
  · exact (takes_fallback fun value hv => takes_numeral (hother value hv)).bind_nil (takes_pure _)
  · cases fallback with
    | none =>
      rw [eq_nil_of_like hu]
      exact endsType_of_endsArgument hm
    | some value => exact endsType_of_symbol (by decide) hu

theorem run_outerAttributes {s : Stream} (h : (Expected.mark "#").stands s.rest = false) :
    outerAttributes g s = .ok ([], s) := run_whileSeen_nil (by rw [run_sees, h])

/-- Where no attribute stands, there is none. -/
theorem reads_unattributed {α : Type} {like : List Token → List Token → Prop} {f : List Attribute → Parser α} {ts : List Token}
    {holds : α → List Token → Prop}
    (hne : ∀ {us more}, like ts us → next more = true → (Expected.mark "#").stands (us ++ more) = false)
    (hf : Reads like (f []) ts next holds) : Reads like (outerAttributes g >>= f) ts next holds :=
  reads_idle [] (fun hu hm hs => run_outerAttributes (hs ▸ hne hu hm)) hf

theorem reads_discardUnattributed {α : Type} {like : List Token → List Token → Prop} {f : Unit → Parser α} {ts : List Token} {next : List Token → Bool}
    {holds : α → List Token → Prop}
    (hne : ∀ {us more}, like ts us → next more = true → (Expected.mark "#").stands (us ++ more) = false)
    (hf : Reads like (f ()) ts next holds) : Reads like (discard (outerAttributes g) >>= f) ts next holds := by
  refine reads_idle () (fun hu hm hs => ?_) hf
  show (outerAttributes g >>= fun _ => pure ()) _ = _
  rw [run_bind, run_outerAttributes (hs ▸ hne hu hm)]
  rfl

end Read

theorem GenericParameter.IsPlain.tokens_eq {p : GenericParameter} (h : p.IsPlain) :
    p.tokens true = p.declaration ++ (p.fallback.map fun value => Token.symbol "=" ++ value).getD [] := by
  have hnone : p.attributes = [] := by cases h <;> rfl
  rw [tokens, hnone, List.nil_append]
  cases p.fallback <;> rfl

/-- A plain parameter starts with an apostrophe or with a word. -/
theorem GenericParameter.IsPlain.exists_of_tokens {p : GenericParameter} (h : p.IsPlain) {us : List Token}
    (hu : Token.AllAgree (p.tokens true) us) :
    (∃ pos rest, us = .punct '\'' true pos :: rest) ∨ ∃ name pos rest, us = .ident name pos :: rest := by
  rw [h.tokens_eq] at hu
  cases h with
  | lifetime named =>
    obtain ⟨letters, rfl, -⟩ := named
    rw [List.append_assoc] at hu
    obtain ⟨vs, ws, rfl, hv, -⟩ := hu.of_append
    obtain ⟨pos, namePos, rfl⟩ := exists_of_lifetime hv
    exact Or.inl ⟨pos, _, rfl⟩
  | @type name =>
    obtain ⟨v, vs, rfl, hv, -⟩ := Token.AllAgree.of_cons (hu : Token.AllAgree (Token.word name :: _) us)
    obtain ⟨pos, rfl⟩ := hv.of_ident
    exact Or.inr ⟨name, pos, vs, rfl⟩
  | constant =>
    obtain ⟨v, vs, rfl, hv, -⟩ := Token.AllAgree.of_cons (hu : Token.AllAgree (Token.word "const" :: _) us)
    obtain ⟨pos, rfl⟩ := hv.of_ident
    exact Or.inr ⟨"const", pos, vs, rfl⟩

namespace Read

variable {g : Grammar} {bound : Nat} {next : List Token → Bool}

theorem sizes_afterColon (tokens : List Token) : Token.sizes tokens ≤ Token.sizes (afterColon tokens) := by
  unfold afterColon
  split
  · rename_i h
    rw [List.isEmpty_iff.mp h]
  · rw [sizes_append]
    exact Nat.le_add_left _ _

theorem takes_genericParameter (hg : RereadsBounds g bound) {p : GenericParameter} (h : p.IsPlain)
    (hsize : Token.sizes (p.tokens true) < bound) (order : List Expected) (underscore : Bool) :
    Takes Token.AllAgree (genericParameter g order underscore) (p.tokens true) endsArgument p := by
  refine reads_unattributed (fun hu _ => ?_) ?_
  · rcases h.exists_of_tokens hu with ⟨pos, rest, rfl⟩ | ⟨name, pos, rest, rfl⟩ <;> rfl
  rw [h.tokens_eq] at hsize ⊢
  cases h with
  | lifetime named lifetimes ended =>
    have hread := takes_lifetimeParameter named lifetimes ended
    obtain ⟨letters, rfl, -⟩ := named
    rw [Option.map_none, Option.getD_none, List.append_nil]
    refine reads_sees true (fun hu _ => ?_) hread
    obtain ⟨vs, ws, rfl, hv, -⟩ := hu.of_append
    obtain ⟨pos, namePos, rfl⟩ := exists_of_lifetime hv
    rfl
  | @type name list trailing fallback named free plain ended other =>
    have hmap : ((fallback.map TypeExpr.tokens).map fun value => Token.symbol "=" ++ value).getD [] =
        (fallback.map fun t => Token.symbol "=" ++ t.tokens).getD [] := by
      rw [Option.map_map]
      rfl
    rw [hmap] at hsize ⊢
    rw [List.cons_append, Token.sizes, sizes_append] at hsize
    have hlist := sizes_afterColon (Bound.tokensOfMany list trailing)
    refine reads_sees false (fun hu _ => ?_) (reads_sees true (fun hu _ => ?_)
      (takes_typeParameter hg free plain ended other (by omega) fun t ht => ?_))
    · obtain ⟨v, vs, rfl, hv, -⟩ := Token.AllAgree.of_cons (hu : Token.AllAgree (Token.word name :: _) _)
      obtain ⟨pos, rfl⟩ := hv.of_ident
      rfl
    · obtain ⟨v, vs, rfl, hv, -⟩ := Token.AllAgree.of_cons (hu : Token.AllAgree (Token.word name :: _) _)
      obtain ⟨pos, rfl⟩ := hv.of_ident
      show (!isReserved name) = true
      rw [free]
      rfl
    · rw [Option.mem_def.mp ht, Option.map_some, Option.getD_some, sizes_append] at hsize
      omega
  | @constant name type fallback named free plain proper other =>
    have hstarts : ∀ {us : List Token}, Token.AllAgree (Token.word "const" :: Token.word name :: (Token.symbol ":" ++ type.tokens) ++
        (fallback.map fun value => Token.symbol "=" ++ value).getD []) us → ∃ pos rest, us = .ident "const" pos :: rest := by
      intro us hu
      obtain ⟨v, vs, rfl, hv, -⟩ := Token.AllAgree.of_cons (hu : Token.AllAgree (Token.word "const" :: _) _)
      obtain ⟨pos, rfl⟩ := hv.of_ident
      exact ⟨pos, vs, rfl⟩
    rw [List.cons_append, Token.sizes, List.cons_append, Token.sizes, sizes_append, sizes_append] at hsize
    have hread := takes_constantParameter hg free plain proper other (by omega)
    have htokens : Token.word "const" :: Token.word name :: (Token.symbol ":" ++ type.tokens) ++
        (fallback.map fun value => Token.symbol "=" ++ value).getD [] = Token.word "const" :: Token.word name ::
          (Token.symbol ":" ++ (type.tokens ++ (fallback.map fun value => Token.symbol "=" ++ value).getD [])) := by
      simp only [List.cons_append, List.append_assoc]
    refine reads_sees false (fun hu _ => ?_) (reads_sees false (fun hu _ => ?_) (reads_sees true (fun hu _ => ?_) ?_))
    · obtain ⟨pos, rest, rfl⟩ := hstarts hu
      rfl
    · obtain ⟨pos, rest, rfl⟩ := hstarts hu
      rfl
    · obtain ⟨pos, rest, rfl⟩ := hstarts hu
      rfl
    · rw [htokens]
      exact hread

end Read

/-! ## All parameters -/

/-- The parameters are plain, and lifetimes come first. -/
structure Generics.IsPlain (g : Generics) : Prop where
  parameters : ∀ p ∈ g.parameters, p.IsPlain
  lifetimesFirst : (g.parameters.dropWhile (·.isLifetime)).all (!·.isLifetime) = true
  ended : g.parameters = [] → g.trailing = false

/-- Parameters with lifetimes first are written in their order. -/
theorem Generics.IsPlain.angled_eq {g : Generics} (h : g.IsPlain) (part : GenericParameter → List Token)
    (hne : g.parameters ≠ []) : g.angled part =
      Token.symbol "<" ++ (commas g.trailing (g.parameters.map part) ++ Token.symbol ">") := by
  have hsplit : g.parameters.map (fun p => (p.isLifetime, part p)) =
      ((g.parameters.takeWhile (·.isLifetime)).map part).map (true, ·) ++
        ((g.parameters.dropWhile (·.isLifetime)).map part).map (false, ·) := by
    conv =>
      lhs
      rw [← List.takeWhile_append_dropWhile (p := (·.isLifetime)) (l := g.parameters)]
    rw [List.map_append, List.map_map, List.map_map]
    refine congrArg₂ (· ++ ·) (List.map_congr_left fun p hp => ?_) (List.map_congr_left fun p hp => ?_)
    · exact congrArg (·, part p) (List.mem_takeWhile_imp hp)
    · have hnot := List.all_eq_true.mp h.lifetimesFirst p hp
      rw [Bool.not_eq_true'] at hnot
      exact congrArg (·, part p) hnot
  have hparts : (g.parameters.takeWhile (·.isLifetime)).map part ++ (g.parameters.dropWhile (·.isLifetime)).map part =
      g.parameters.map part := by
    rw [← List.map_append, List.takeWhile_append_dropWhile]
  rw [angled, if_neg (by rw [List.isEmpty_iff]; exact hne), hsplit, lifetimesFirst_append, hparts, List.append_assoc]

/-- Nothing stands here that would start parameters. -/
def endsGenerics (ts : List Token) : Bool := !(Expected.mark "<").stands ts

namespace Read

variable {g : Grammar} {bound : Nat}

theorem takes_genericParameters (hg : RereadsBounds g bound) {list : List GenericParameter} {trailing : Bool}
    (hplain : ∀ p ∈ list, p.IsPlain) (hended : list = [] → trailing = false)
    (hsize : Token.sizes (commas trailing (list.map (·.tokens true))) < bound) (order : List Expected) (underscore : Bool) :
    Takes Token.AllAgree (genericParameters g order underscore) (commas trailing (list.map (·.tokens true)))
      (Expected.mark ">").stands (list, trailing) := by
  refine takes_separatedUntil (run_sees _) (fun hm => hm) rfl ?_ ?_ hended
  · intro p hp us more hu
    rcases (hplain p hp).exists_of_tokens hu with ⟨pos, rest, rfl⟩ | ⟨name, pos, rest, rfl⟩ <;> rfl
  · intro p hp
    have hle := sizes_le_commas trailing (List.mem_map_of_mem (f := (·.tokens true)) hp)
    exact takes_genericParameter hg (hplain p hp) (by omega) order underscore

theorem takes_generics (hg : RereadsBounds g bound) {parameters : Generics} (h : parameters.IsPlain)
    (hsize : Token.sizes parameters.tokens < bound) :
    Takes Token.AllAgree (generics g) parameters.tokens endsGenerics parameters := by
  refine Takes.writtenBy ?_
  obtain ⟨list, trailing⟩ := parameters
  by_cases hne : list = []
  · subst hne
    obtain rfl : trailing = false := h.ended rfl
    refine reads_sees false (fun hu hm => ?_) (takes_pure _)
    rw [eq_nil_of_like hu]
    exact (Bool.not_eq_true' _).mp hm
  · rw [Generics.tokens, h.angled_eq _ hne] at hsize ⊢
    rw [sizes_append, sizes_append] at hsize
    refine reads_sees true (fun hu _ => ?_) ?_
    · obtain ⟨joint, pos, vs, rfl, -⟩ := Token.AllAgree.of_symbol hu '<' rfl
      rfl
    refine Takes.bind (takes_mark "<" (by decide) : Takes _ _ _ (fun _ => true) _) ?_ fun _ _ => rfl
    refine Takes.bind (takes_genericParameters hg h.parameters h.ended (by omega) _ true) ?_ fun hu _ => ?_
    · exact Takes.bind_nil (takes_mark ">" (by decide)) (takes_pure _)
    · obtain ⟨joint, pos, rfl⟩ := Token.AllAgree.of_symbol_alone hu '>' rfl
      rfl

end Read

/-! ## Where clauses -/

/-- A plain predicate is about a lifetime or a plain type that does not start with an angle bracket; its bounds
are plain. -/
inductive IsPlainPredicate : List Token → Prop where
  | lifetime {name outlives trailing} (named : IsLifetime name) (lifetimes : ∀ other ∈ outlives, IsLifetime other)
      (ended : outlives = [] → trailing = false) :
      IsPlainPredicate (Token.lifetime name ++ Token.symbol ":" ++
        joinTokens (Token.symbol "+") trailing (outlives.map Token.lifetime))
  | type {type : TypeExpr} {bounds trailing} (plain : type.isPlain = true) (proper : type.Proper)
      (unqualified : ∀ subject asTrait rest, type ≠ .qualified subject asTrait rest) (bounded : ∀ b ∈ bounds, b.IsPlain)
      (ended : bounds = [] → trailing = false) :
      IsPlainPredicate (type.tokens ++ Token.symbol ":" ++ Bound.tokensOfMany bounds trailing)

/-- The clause has predicates, which are plain. -/
structure WhereClause.IsPlain (clause : WhereClause) : Prop where
  predicates : ∀ p ∈ clause.predicates, IsPlainPredicate p
  nonempty : clause.predicates ≠ []

/-- The end of a where clause. -/
def endsClause (ts : List Token) : Bool := ts.isEmpty || [Expected.group .brace, .mark ";", .mark "="].any (·.stands ts)

/-- The end of a predicate. -/
def endsPredicate (ts : List Token) : Bool := (Expected.mark ",").stands ts || endsClause ts

/-- What ends a predicate for the reader of its bounds. -/
def stopsPredicate (ts : List Token) : Bool :=
  ts.isEmpty || [Expected.group .brace, .mark ",", .mark ";", .mark "="].any (·.stands ts) ||
    ((Expected.mark ":").stands ts && !([Expected.mark "::"].any (·.stands ts)))

theorem exists_of_endsClause {ts : List Token} (h : endsClause ts = true) :
    ts = [] ∨ (∃ content opensAt closesAt rest, ts = .group .brace content opensAt closesAt :: rest) ∨
      ∃ c ∈ [';', '='], ∃ joint pos rest, ts = .punct c joint pos :: rest := by
  rcases Bool.or_eq_true_iff.mp h with h | h
  · exact Or.inl (List.isEmpty_iff.mp h)
  simp only [List.any_cons, List.any_nil, Bool.or_false, Bool.or_eq_true] at h
  rcases h with h | h | h
  · cases ts with
    | nil => cases h
    | cons t rest =>
      cases t with
      | group delimiter content opensAt closesAt =>
        obtain rfl : delimiter = .brace := beq_iff_eq.mp h
        exact Or.inr (Or.inl ⟨content, opensAt, closesAt, rest, rfl⟩)
      | _ => cases h
  · exact Or.inr (Or.inr ⟨';', by decide, exists_punct_of_stands ';' rfl h⟩)
  · exact Or.inr (Or.inr ⟨'=', by decide, exists_punct_of_stands '=' rfl h⟩)

theorem exists_of_endsPredicate {ts : List Token} (h : endsPredicate ts = true) :
    ts = [] ∨ (∃ content opensAt closesAt rest, ts = .group .brace content opensAt closesAt :: rest) ∨
      ∃ c ∈ [',', ';', '='], ∃ joint pos rest, ts = .punct c joint pos :: rest := by
  rcases Bool.or_eq_true_iff.mp h with h | h
  · exact Or.inr (Or.inr ⟨',', by decide, exists_punct_of_stands ',' rfl h⟩)
  rcases exists_of_endsClause h with h | h | ⟨c, hc, h⟩
  · exact Or.inl h
  · exact Or.inr (Or.inl h)
  · exact Or.inr (Or.inr ⟨c, List.mem_cons_of_mem _ hc, h⟩)

theorem endsBoundsOfPredicate : EndsBounds stopsPredicate endsPredicate where
  ends hm := by
    rcases exists_of_endsPredicate hm with rfl | ⟨content, opensAt, closesAt, rest, rfl⟩ | ⟨c, hc, joint, pos, rest, rfl⟩
    · exact ⟨rfl, rfl, rfl⟩
    · exact ⟨rfl, rfl, rfl⟩
    · simp only [List.mem_cons, List.not_mem_nil, or_false] at hc
      rcases hc with rfl | rfl | rfl <;> exact ⟨rfl, rfl, rfl⟩
  lifetime _ _ := rfl
  maybe _ _ _ := rfl
  separator _ _ _ _ := rfl
  name _ _ _ := rfl

/-- A plain type that is no qualified path starts with a bracket, with a mark of its own, with separators or with
a word. -/
theorem exists_of_unqualified {t : TypeExpr} (hplain : t.isPlain = true) (hproper : t.Proper)
    (hne : ∀ subject asTrait rest, t ≠ .qualified subject asTrait rest) {us : List Token} (hu : Token.AllAgree t.tokens us) :
    (∃ delimiter content opensAt closesAt rest, us = .group delimiter content opensAt closesAt :: rest ∧ delimiter ≠ .brace) ∨
      (∃ c ∈ ['*', '&', '!'], ∃ joint pos rest, us = .punct c joint pos :: rest) ∨
      (∃ pos joint next rest, us = .punct ':' true pos :: .punct ':' joint next :: rest) ∨
        ∃ name pos rest, us = .ident name pos :: rest := by
  have hgroup : ∀ (delimiter : Delimiter) {content : List Token}, delimiter ≠ .brace →
      Token.AllAgree [.enclosed delimiter content] us →
        ∃ delimiter content opensAt closesAt rest, us = .group delimiter content opensAt closesAt :: rest ∧ delimiter ≠ .brace := by
    intro delimiter content hd hu
    obtain ⟨v, vs, rfl, hv, -⟩ := hu.of_cons
    obtain ⟨inner, opens, closes, rfl, -⟩ := hv.of_group
    exact ⟨delimiter, inner, opens, closes, vs, rfl, hd⟩
  cases t with
  | array element length => exact Or.inl (hgroup .bracket nofun (TypeExpr.tokens.eq_1 .. ▸ hu))
  | slice element => exact Or.inl (hgroup .bracket nofun (TypeExpr.tokens.eq_2 .. ▸ hu))
  | tuple elements trailing => exact Or.inl (hgroup .parenthesis nofun (TypeExpr.tokens.eq_3 .. ▸ hu))
  | paren inner => exact Or.inl (hgroup .parenthesis nofun (TypeExpr.tokens.eq_4 .. ▸ hu))
  | pointer mutable target =>
    rw [TypeExpr.tokens] at hu
    obtain ⟨joint, pos, rest, rfl, -⟩ := hu.of_symbol '*' rfl
    exact Or.inr (Or.inl ⟨'*', by decide, joint, pos, rest, rfl⟩)
  | reference lifetime mutable referent =>
    rw [TypeExpr.tokens, List.append_assoc, List.append_assoc] at hu
    obtain ⟨joint, pos, rest, rfl, -⟩ := hu.of_symbol '&' rfl
    exact Or.inr (Or.inl ⟨'&', by decide, joint, pos, rest, rfl⟩)
  | never =>
    rw [TypeExpr.tokens] at hu
    obtain ⟨joint, pos, rfl⟩ := hu.of_symbol_alone '!' rfl
    exact Or.inr (Or.inl ⟨'!', by decide, joint, pos, [], rfl⟩)
  | inferred =>
    rw [TypeExpr.tokens] at hu
    obtain ⟨v, vs, rfl, hv, -⟩ := hu.of_cons
    obtain ⟨pos, rfl⟩ := hv.of_ident
    exact Or.inr (Or.inr (Or.inr ⟨"_", pos, vs, rfl⟩))
  | path path =>
    rw [TypeExpr.tokens] at hu
    rcases exists_of_path hproper hu with h | ⟨name, pos, rest, h, -⟩
    · exact Or.inr (Or.inr (Or.inl h))
    · exact Or.inr (Or.inr (Or.inr ⟨name, pos, rest, h⟩))
  | qualified subject asTrait rest => exact absurd rfl (hne subject asTrait rest)
  | _ => cases hplain

theorem IsPlainPredicate.not_stops {p : List Token} (h : IsPlainPredicate p) {us more : List Token}
    (hu : Token.AllAgree p us) : stopsPredicate (us ++ more) = false ∧ (Expected.mark "<").stands (us ++ more) = false := by
  cases h with
  | lifetime named =>
    obtain ⟨letters, rfl, -⟩ := named
    rw [List.append_assoc] at hu
    obtain ⟨vs, ws, rfl, hv, -⟩ := hu.of_append
    obtain ⟨pos, namePos, rfl⟩ := exists_of_lifetime hv
    exact ⟨rfl, rfl⟩
  | type plain proper unqualified =>
    rw [List.append_assoc] at hu
    obtain ⟨vs, ws, rfl, hv, -⟩ := hu.of_append
    rcases exists_of_unqualified plain proper unqualified hv with ⟨delimiter, content, opensAt, closesAt, rest, rfl, hd⟩ |
      ⟨c, hc, joint, pos, rest, rfl⟩ | ⟨pos, joint, next, rest, rfl⟩ | ⟨name, pos, rest, rfl⟩
    · cases delimiter
      · exact ⟨rfl, rfl⟩
      · exact ⟨rfl, rfl⟩
      · exact absurd rfl hd
    · simp only [List.mem_cons, List.not_mem_nil, or_false] at hc
      rcases hc with rfl | rfl | rfl <;> exact ⟨rfl, rfl⟩
    · exact ⟨rfl, rfl⟩
    · exact ⟨rfl, rfl⟩

theorem IsPlainPredicate.ne_nil {p : List Token} (h : IsPlainPredicate p) : p ≠ [] := by
  rintro rfl
  have hstops : stopsPredicate ([] ++ []) = false := (h.not_stops (Token.AllAgree.refl [])).1
  cases hstops

/-- A mark that stands alone does so in tokens that match. -/
theorem Token.AllMatch.of_punct {c : Char} {joint : Bool} {pos : Position} {ts us : List Token}
    (h : Token.AllMatch (.punct c joint pos :: ts) us) : ∃ found vs, us = .punct c joint found :: vs ∧ Token.AllMatch ts vs := by
  obtain ⟨h, hback⟩ := h
  obtain ⟨v, vs, rfl, hv, hvs⟩ := h.of_cons
  obtain ⟨jointly, found, rfl, hj⟩ := hv.of_punct
  obtain rfl : joint = jointly := by
    have hjointly : jointly = true → joint = true := hback.1.2
    cases joint <;> cases jointly <;> simp_all
  exact ⟨found, vs, rfl, hvs, hback.2⟩

namespace Read

variable {g : Grammar} {bound : Nat}

/-- What ends the lifetimes that a lifetime outlives. -/
def stopsLifetimes (ts : List Token) : Bool :=
  ts.isEmpty || [Expected.group .brace, .mark ",", .mark ";", .mark ":", .mark "="].any (·.stands ts)

theorem stopsLifetimes_of_endsPredicate {ts : List Token} (h : endsPredicate ts = true) :
    stopsLifetimes ts = true ∧ (Expected.mark "+").stands ts = false := by
  rcases exists_of_endsPredicate h with rfl | ⟨content, opensAt, closesAt, rest, rfl⟩ | ⟨c, hc, joint, pos, rest, rfl⟩
  · exact ⟨rfl, rfl⟩
  · exact ⟨rfl, rfl⟩
  · simp only [List.mem_cons, List.not_mem_nil, or_false] at hc
    rcases hc with rfl | rfl | rfl <;> exact ⟨rfl, rfl⟩

theorem takes_lifetimePredicate {name : String} {outlives : List String} {trailing : Bool} (hname : IsLifetime name)
    (houtlives : ∀ other ∈ outlives, IsLifetime other) (hended : outlives = [] → trailing = false) :
    Takes Token.AllAgree (wherePredicate g)
      (Token.lifetime name ++ (Token.symbol ":" ++ joinTokens (Token.symbol "+") trailing (outlives.map Token.lifetime)))
      endsPredicate
      (Token.lifetime name ++ Token.symbol ":" ++ joinTokens (Token.symbol "+") trailing (outlives.map Token.lifetime)) := by
  have hstop : ∀ s, (do pure ((← atEnd) || (← seesAny [.group .brace, .mark ",", .mark ";", .mark ":", .mark "="]))) s =
      Except.ok (stopsLifetimes s.rest, s) := fun _ => rfl
  have hlist := takes_lifetimes hstop stopsLifetimes_of_endsPredicate (fun _ _ => rfl) houtlives hended
  obtain ⟨letters, rfl, -⟩ := hname
  refine reads_sees true (fun hu _ => ?_) (reads_seesSecond true (fun hu _ => ?_) ?_)
  · obtain ⟨vs, ws, rfl, hv, -⟩ := hu.of_append
    obtain ⟨pos, namePos, rfl⟩ := exists_of_lifetime hv
    rfl
  · obtain ⟨vs, ws, rfl, hv, hw⟩ := hu.of_append
    obtain ⟨pos, namePos, rfl⟩ := exists_of_lifetime hv
    obtain ⟨joint, colon, xs, rfl, -⟩ := hw.of_symbol ':' rfl
    rfl
  refine Takes.bind (takes_lifetime : Takes _ _ _ (fun _ => true) _) ?_ fun _ _ => rfl
  refine Takes.bind (takes_mark ":" (by decide) : Takes _ _ _ (fun _ => true) _) ?_ fun _ _ => rfl
  exact hlist.bind_nil (takes_pure _)

theorem run_predicateEnd (s : Stream) : predicateEnd s = .ok (stopsPredicate s.rest, s) := rfl

theorem takes_typePredicate (hg : RereadsBounds g bound) {type : TypeExpr} {list : List Bound} {trailing : Bool}
    (hplain : type.isPlain = true) (hproper : type.Proper) (hbounds : ∀ b ∈ list, b.IsPlain)
    (hended : list = [] → trailing = false) (htype : Token.sizes type.tokens < bound)
    (hlist : Token.sizes (Bound.tokensOfMany list trailing) < bound) :
    Takes Token.AllMatch (wherePredicate g) (type.tokens ++ (Token.symbol ":" ++ Bound.tokensOfMany list trailing))
      endsPredicate (type.tokens ++ Token.symbol ":" ++ Bound.tokensOfMany list trailing) := by
  have hopens := (opensType_tokens hplain hproper).append (Token.symbol ":" ++ Bound.tokensOfMany list trailing)
  refine reads_sees false (fun hu _ => hopens.not_stands (by decide) hu.1) ?_
  refine reads_ignored (fun s => ⟨_, run_seesSecond _ s⟩) fun second => ?_
  refine reads_idle [] (fun hu _ hs => run_binder (hs ▸ hopens.not_stands (by decide) hu.1)) ?_
  have hread : Takes Token.AllMatch (g.type true) type.tokens endsType type := (hg.types true type hplain hproper htype).of_agree
  refine hread.bind ?_ fun hu _ => ?_
  · refine Takes.bind (takes_mark ":" (by decide) : Takes _ _ _ (fun _ => true) _) ?_ fun _ _ => rfl
    have hbounded := takes_bounds hg run_predicateEnd endsBoundsOfPredicate hbounds hlist hended
    exact Takes.bind_nil (hbounded.of_agree : Takes Token.AllMatch _ _ _ _) (takes_pure _)
  · obtain ⟨pos, vs, rfl, -⟩ := Token.AllMatch.of_punct hu
    rfl

theorem takes_predicate (hg : RereadsBounds g bound) {p : List Token} (h : IsPlainPredicate p) (hsize : Token.sizes p < bound) :
    Takes Token.AllMatch (wherePredicate g) p endsPredicate p := by
  cases h with
  | lifetime named lifetimes ended =>
    have hread := takes_lifetimePredicate (g := g) named lifetimes ended
    rw [← List.append_assoc] at hread
    exact hread.of_agree
  | type plain proper unqualified bounded ended =>
    rw [sizes_append, sizes_append] at hsize
    have hread := takes_typePredicate hg plain proper bounded ended (by omega) (by omega)
    rwa [← List.append_assoc] at hread

/-- Predicates with commas between them. -/
theorem takes_predicates (hg : RereadsBounds g bound) {list : List (List Token)} {trailing : Bool}
    (hplain : ∀ p ∈ list, IsPlainPredicate p) (hended : list = [] → trailing = false)
    (hsize : Token.sizes (commas trailing list) < bound) :
    Takes Token.AllMatch (joinedBy "," predicateEnd (wherePredicate g)) (commas trailing list) endsClause (list, trailing) := by
  have hid : commas trailing list = joinTokens (Token.symbol ",") trailing (list.map id) := by
    rw [List.map_id]
    rfl
  rw [hid]
  refine takes_joinedBy (by decide) run_predicateEnd (fun hm => ?_) ?_ ?_ hended ?_
  · refine ⟨(endsBoundsOfPredicate.ends (Bool.or_eq_true_iff.mpr (Or.inr hm))).1, ?_⟩
    rcases exists_of_endsClause hm with rfl | ⟨content, opensAt, closesAt, rest, rfl⟩ | ⟨c, hc, joint, pos, rest, rfl⟩
    · rfl
    · rfl
    · simp only [List.mem_cons, List.not_mem_nil, or_false] at hc
      rcases hc with rfl | rfl <;> rfl
  · intro p hp us more hu
    exact ((hplain p hp).not_stops hu.1).1
  · intro p hp
    exact takes_predicate hg (hplain p hp) (Nat.lt_of_le_of_lt (sizes_le_commas trailing hp) hsize)
  · intro p hp
    exact (hplain p hp).ne_nil

theorem takes_whereClause (hg : RereadsBounds g bound) {clause : WhereClause} (h : clause.IsPlain)
    (hsize : Token.sizes clause.tokens < bound) : Takes Token.AllMatch (whereClause g) clause.tokens endsClause clause := by
  refine Takes.writtenBy ?_
  obtain ⟨predicates, trailing⟩ := clause
  obtain ⟨hplain, hne⟩ := h
  have htokens : (WhereClause.mk predicates trailing).tokens = Token.word "where" :: commas trailing predicates := by
    rw [WhereClause.tokens, if_neg (by rw [List.isEmpty_iff]; exact hne)]
  rw [htokens] at hsize ⊢
  rw [Token.sizes] at hsize
  refine Takes.bind (takes_word : Takes _ _ [Token.word "where"] (fun _ => true) _) ?_ fun _ _ => rfl
  refine reads_idle false (fun {us more s} hu hm hs => ?_) ?_
  · have hangle : (Expected.mark "<").stands s.rest = false := by
      obtain ⟨first, rest, rfl⟩ := List.exists_cons_of_ne_nil hne
      obtain ⟨tail, htail⟩ := exists_commas_cons trailing first rest
      replace hu : Token.AllMatch (first ++ tail) us := htail ▸ hu
      obtain ⟨vs, ws, rfl, hv, -⟩ := Token.Likeness.of_append hu
      rw [hs, List.append_assoc]
      exact ((hplain first List.mem_cons_self).not_stops hv.1).2
    unfold opensGenerics
    simp only [run_bind, run_sees, run_seesSecond, run_seesThird, run_pure, hangle, Bool.false_and]
  · simp only [Bool.false_eq_true, if_false]
    have hlist : Takes Token.AllMatch (joinedBy "," predicateEnd (wherePredicate g)) (commas trailing predicates) endsClause
        (predicates, trailing) := takes_predicates hg hplain (fun h => absurd h hne) (by omega)
    exact hlist.bind_nil (takes_pure _)

end Read

/-! ## Printed texts -/

theorem Bound.IsPlain.printable {b : Bound} (h : b.IsPlain) : Printable b.tokens := by
  cases h with
  | lifetime h => exact printable_lifetime h
  | trait maybe plain proper =>
    rw [Bound.tokens]
    refine Printable.append ?_ (PathExpr.printable plain proper)
    cases maybe with
    | true => exact printable_symbol "?" (by decide)
    | false => exact .nil

theorem printable_bounds {list : List Bound} {trailing : Bool} (h : ∀ b ∈ list, b.IsPlain) :
    Printable (Bound.tokensOfMany list trailing) := by
  rw [Bound.tokensOfMany_eq]
  refine printable_joinTokens (printable_symbol "+" (by decide)) fun part hp => ?_
  obtain ⟨b, hb, rfl⟩ := List.mem_map.mp hp
  exact (h b hb).printable

theorem printable_lifetimes {names : List String} {trailing : Bool} (h : ∀ name ∈ names, IsLifetime name) :
    Printable (joinTokens (Token.symbol "+") trailing (names.map Token.lifetime)) := by
  refine printable_joinTokens (printable_symbol "+" (by decide)) fun part hp => ?_
  obtain ⟨name, hname, rfl⟩ := List.mem_map.mp hp
  exact printable_lifetime (h name hname)

theorem printable_afterColon {tokens : List Token} (h : Printable tokens) : Printable (afterColon tokens) := by
  unfold afterColon
  split
  · exact .nil
  · exact (printable_symbol ":" (by decide)).append h

theorem printable_fallback {fallback : Option (List Token)} (h : ∀ value ∈ fallback, Printable value) :
    Printable ((fallback.map fun value => Token.symbol "=" ++ value).getD []) := by
  cases fallback with
  | none => exact .nil
  | some value => exact (printable_symbol "=" (by decide)).append (h value rfl)

theorem GenericParameter.IsPlain.printable {p : GenericParameter} (h : p.IsPlain) : Printable (p.tokens true) := by
  rw [h.tokens_eq]
  cases h with
  | lifetime named lifetimes =>
    exact ((printable_lifetime named).append (printable_afterColon (printable_lifetimes lifetimes))).append .nil
  | type named free plain ended other =>
    refine Printable.append (.word named (printable_afterColon (printable_bounds plain))) (printable_fallback fun value hv => ?_)
    obtain ⟨t, ht, rfl⟩ := Option.map_eq_some_iff.mp hv
    exact TypeExpr.printable (other t ht).1 (other t ht).2
  | constant named free plain proper other =>
    refine Printable.append ?_ (printable_fallback fun value hv => printable_numeral (other value hv))
    exact .word (by decide) (.word named ((printable_symbol ":" (by decide)).append (TypeExpr.printable plain proper)))

theorem Generics.IsPlain.printable {g : Generics} (h : g.IsPlain) : Printable g.tokens := by
  by_cases hne : g.parameters = []
  · rw [Generics.tokens, angled, if_pos (by rw [List.isEmpty_iff]; exact hne)]
    exact .nil
  · rw [Generics.tokens, h.angled_eq _ hne]
    refine (printable_symbol "<" (by decide)).append (Printable.append ?_ (printable_symbol ">" (by decide)))
    refine printable_joinTokens (printable_symbol "," (by decide)) fun part hp => ?_
    obtain ⟨p, hmem, rfl⟩ := List.mem_map.mp hp
    exact (h.parameters p hmem).printable

theorem IsPlainPredicate.printable {p : List Token} (h : IsPlainPredicate p) : Printable p := by
  have hcolon : Printable (Token.symbol ":") := printable_symbol ":" (by decide)
  cases h with
  | lifetime named lifetimes => exact ((printable_lifetime named).append hcolon).append (printable_lifetimes lifetimes)
  | type plain proper _ bounded => exact ((TypeExpr.printable plain proper).append hcolon).append (printable_bounds bounded)

theorem WhereClause.IsPlain.printable {clause : WhereClause} (h : clause.IsPlain) : Printable clause.tokens := by
  rw [WhereClause.tokens, if_neg (by rw [List.isEmpty_iff]; exact h.nonempty)]
  exact .word (by decide) (printable_joinTokens (printable_symbol "," (by decide)) fun p hp => (h.predicates p hp).printable)

/-- A printed text is read as what its tokens are read as. -/
theorem exists_readText_printed {α : Type} {reader : Grammar → Parser α} {ts : List Token} {next : List Token → Bool}
    {holds : α → Prop} (hprintable : Printable ts)
    (hread : Makes Token.AllMatch (reader (grammar (4 * Token.sizes ts + 8))) ts next holds) (hnext : next [] = true) :
    ∃ a, holds a ∧ (readText reader (printed ts)).map (·.1) = .ok a := by
  obtain ⟨us, hlexed, hu⟩ := tokens_of_printable hprintable
  obtain ⟨a, written, ha, hw⟩ := hread.onTokens hu hnext .start
  have hgrammar : readTokens reader us .start = .ok (a, written) := by
    rw [readTokens, grammarFor, sizes_of_allAgree hu.1]
    exact hw
  refine ⟨a, ha, ?_⟩
  unfold tokens at hlexed
  unfold readText readChars
  rw [hlexed]
  show Except.map _ (readTokens reader us .start) = _
  rw [hgrammar]
  rfl

theorem readText_printed {α : Type} {reader : Grammar → Parser α} {ts : List Token} {next : List Token → Bool} {a : α}
    (hprintable : Printable ts) (hread : Takes Token.AllMatch (reader (grammar (4 * Token.sizes ts + 8))) ts next a)
    (hnext : next [] = true) : (readText reader (printed ts)).map (·.1) = .ok a := by
  obtain ⟨_, rfl, h⟩ := exists_readText_printed hprintable hread hnext
  exact h

/-- The printed text of plain parameters is read as these parameters. -/
theorem readGenerics_printed {g : Generics} (h : g.IsPlain) : readGenerics (printed g.tokens) = .ok g :=
  readText_printed h.printable
    (Reads.of_agree (Read.takes_generics (rereadsBounds_grammar (4 * Token.sizes g.tokens + 6)) h (by omega))) rfl

/-- The printed text of a plain where clause is read as this clause. -/
theorem readWhereClause_printed {clause : WhereClause} (h : clause.IsPlain) :
    readWhereClause (printed clause.tokens) = .ok clause :=
  readText_printed h.printable
    (Read.takes_whereClause (rereadsBounds_grammar (4 * Token.sizes clause.tokens + 6)) h (by omega)) rfl

/-- The text of a clause without predicates is no clause. -/
theorem readWhereClause_of_no_predicates (trailing : Bool) :
    (readWhereClause (printed (WhereClause.mk [] trailing).tokens)).isOk = false := by
  rfl

end BuilderSynthesis.Syntax
