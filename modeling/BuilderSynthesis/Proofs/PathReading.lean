/-
  BuilderSynthesis.Proofs.PathReading — plain paths and their arguments are read again.

  If a grammar reads plain types of less than a size again (`Rereads`), it does so with the arguments
  of a name (`takes_argument`), with a name and its arguments (`takes_segment`) and with a path
  (`takes_pathBody`) that are no larger.
-/

import BuilderSynthesis.Proofs.PlainTypes

namespace BuilderSynthesis.Syntax

open BuilderSynthesis.Syntax.Parser

/-! ## Sizes -/

theorem sizes_append (ts us : List Token) : Token.sizes (ts ++ us) = Token.sizes ts + Token.sizes us := by
  induction ts with
  | nil => exact (Nat.zero_add _).symm
  | cons t rest ih => rw [List.cons_append, Token.sizes, Token.sizes, ih, Nat.add_assoc]

theorem sizes_le_joinTokens (separator : List Token) (trailing : Bool) {parts : List (List Token)} {part : List Token}
    (h : part ∈ parts) : Token.sizes part ≤ Token.sizes (joinTokens separator trailing parts) := by
  induction parts with
  | nil => cases h
  | cons first rest ih =>
    cases rest with
    | nil =>
      rw [List.mem_singleton.mp h, joinTokens, sizes_append]
      omega
    | cons next more =>
      have hjoined : joinTokens separator trailing (first :: next :: more) =
          first ++ (separator ++ joinTokens separator trailing (next :: more)) :=
        joinTokens_cons_of_ne fun h => absurd h (List.cons_ne_nil _ _)
      rw [hjoined, sizes_append, sizes_append]
      rcases List.mem_cons.mp h with rfl | h
      · omega
      · have := ih h
        omega

theorem sizes_le_commas (trailing : Bool) {parts : List (List Token)} {part : List Token} (h : part ∈ parts) :
    Token.sizes part ≤ Token.sizes (commas trailing parts) := sizes_le_joinTokens _ trailing h

/-! ## Reading arguments again -/

/-- Plain types of less than a size are read again by a grammar. -/
def Rereads (g : Grammar) (bound : Nat) : Prop :=
  ∀ (allowPlus : Bool) (t : TypeExpr), t.isPlain = true → t.Proper → Token.sizes t.tokens < bound →
    Takes Token.AllAgree (g.type allowPlus) t.tokens endsType t

theorem exists_of_isNumeral {ts us : List Token} (h : isNumeral ts = true) (hu : Token.AllAgree ts us) :
    ∃ text pos, ts = [Token.text text] ∧ us = [.literal text pos] := by
  unfold isNumeral at h
  split at h
  · rename_i text
    obtain ⟨v, vs, rfl, hv, hvs⟩ := hu.of_cons
    obtain ⟨pos, rfl⟩ := hv.of_literal
    rw [hvs.of_nil]
    exact ⟨text, pos, rfl, rfl⟩
  · cases h

namespace Read

variable {g : Grammar} {bound : Nat}

theorem takes_numeral {ts : List Token} {next : List Token → Bool} (h : isNumeral ts = true) :
    Takes Token.AllAgree (constantArgument g) ts next ts := by
  intro us more s hu _ hs
  obtain ⟨text, pos, rfl, rfl⟩ := exists_of_isNumeral h hu
  obtain ⟨rest, closesAt, within, leftover, written⟩ := s
  obtain rfl : rest = [.literal text pos] ++ more := hs
  exact ⟨_, [Token.text text], rfl, rfl⟩

theorem not_stands_of_endsArgument {e : Expected} (he : e ∈ [Expected.mark "+", .mark "=", .mark ":"]) {ts : List Token}
    (h : endsArgument ts = true) : e.stands ts = false := by
  have hall : ∀ c ∈ [',', '>'], ∀ joint pos rest, e.stands (.punct c joint pos :: rest) = false := by
    simp only [List.mem_cons, List.not_mem_nil, or_false] at he
    rcases he with rfl | rfl | rfl <;> simp [Expected.stands, afterMarks]
  rcases Bool.or_eq_true_iff.mp h with h | h
  · obtain ⟨joint, pos, rest, rfl⟩ := exists_punct_of_stands ',' rfl h
    exact hall ',' (by decide) joint pos rest
  · obtain ⟨joint, pos, rest, rfl⟩ := exists_punct_of_stands '>' rfl h
    exact hall '>' (by decide) joint pos rest

theorem takes_lifetimeArgument {name : String} (h : IsLifetime name) :
    Takes Token.AllAgree (genericArgument g) (Token.lifetime name) endsArgument (.lifetime name) := by
  obtain ⟨letters, rfl, -⟩ := h
  refine reads_sees true (fun hu _ => ?_) (reads_seesSecond false (fun hu hm => ?_) ?_)
  · obtain ⟨pos, namePos, rfl⟩ := exists_of_lifetime hu
    rfl
  · obtain ⟨pos, namePos, rfl⟩ := exists_of_lifetime hu
    exact not_stands_of_endsArgument (by decide) hm
  · exact takes_lifetime.map _

theorem takes_constant {value : List Token} (h : isNumeral value = true) :
    Takes Token.AllAgree (genericArgument g) value endsArgument (.constant value) := by
  refine reads_sees false (fun hu _ => ?_) (reads_ignored (fun s => ⟨_, run_seesSecond _ s⟩) fun summed => ?_)
  · obtain ⟨text, pos, rfl, rfl⟩ := exists_of_isNumeral h hu
    rfl
  · refine reads_seesAny true (fun hu _ => ?_) ((takes_numeral h).map _)
    obtain ⟨text, pos, rfl, rfl⟩ := exists_of_isNumeral h hu
    rfl

/-- At the end of an argument there is no value for its name. -/
theorem takes_unnamed (name : String) (arguments : Arguments) : Takes Token.AllAgree (namedArgument g name arguments) [] endsArgument none := by
  have hnone : ∀ {operator : String}, operator ∈ ["=", ":"] → ∀ {us more : List Token}, Token.AllAgree [] us →
      endsArgument more = true → (Expected.mark operator).stands (us ++ more) = false := by
    intro operator ho us more hu hm
    rw [hu.of_nil]
    refine not_stands_of_endsArgument ?_ hm
    rcases List.mem_cons.mp ho with rfl | ho
    · decide
    · rw [List.mem_singleton.mp ho]
      decide
  exact reads_unmarked (hnone (by decide)) (reads_unmarked (hnone (by decide)) (takes_pure none))

/-- What starts like a type is read as one first. -/
theorem takes_opened {ts : List Token} {next : List Token → Bool} {a : Argument} (hopens : OpensType ts)
    (h : Takes Token.AllAgree (do
      let type ← g.type true
      match type with
      | .path (.mk false [.mk name arguments]) =>
        match arguments with
        | .called .. => pure (.type type)
        | _ => pure ((← namedArgument g name arguments).getD (.type type))
      | _ => pure (.type type)) ts next a) : Takes Token.AllAgree (genericArgument g) ts next a := by
  refine reads_sees false (fun hu _ => hopens.not_stands (by decide) hu) ?_
  refine reads_ignored (fun s => ⟨_, run_seesSecond _ s⟩) fun summed => ?_
  refine reads_seesAny false (fun hu _ => ?_) h
  exact List.any_eq_false.mpr fun e he => by
    rw [hopens.not_stands ((by decide : ∀ e ∈ [Expected.literal, .group .brace], e ∈ neverStartType) e he) hu]
    decide

theorem takes_typeArgument (hg : Rereads g bound) {t : TypeExpr} (hplain : t.isPlain = true) (hproper : t.Proper)
    (hsize : Token.sizes t.tokens < bound) : Takes Token.AllAgree (genericArgument g) t.tokens endsArgument (.type t) := by
  refine takes_opened (opensType_tokens hplain hproper) ?_
  refine Takes.bind_nil ((hg true t hplain hproper hsize).mono fun _ => endsType_of_endsArgument) ?_
  split
  · split
    · exact takes_pure _
    · exact (takes_unnamed _ _).bind_nil (takes_pure _)
  · exact takes_pure _

/-- A type that is passed for a name. -/
theorem takes_binding (hg : Rereads g bound) {name : String} {generics : Arguments} {value : TypeExpr}
    (hplain : Argument.allPlain true [.binding name generics value] = true)
    (hproper : Argument.AllProper [.binding name generics value])
    (hsize : Token.sizes (Argument.binding name generics value).tokens < bound) :
    Takes Token.AllAgree (genericArgument g) (Argument.binding name generics value).tokens endsArgument (.binding name generics value) := by
  obtain ⟨⟨hname, hpath, htakes, hgenerics⟩, hvalue, -⟩ := hproper
  obtain ⟨⟨htry, hgenericsPlain⟩, hvaluePlain⟩ : (name != "try" ∧ generics.areOfPlain = true) ∧ value.isPlain = true := by
    simpa [Argument.allPlain] using hplain
  have hplainName : (TypeExpr.path (.mk false [.mk name generics])).isPlain = true := by
    simp [TypeExpr.isPlain, PathExpr.isOfPlain, Segment.allOfPlain, htry, hgenericsPlain]
  have hproperName : (TypeExpr.path (.mk false [.mk name generics])).Proper :=
    ⟨List.cons_ne_nil _ _, hname, hpath, htakes, hgenerics, trivial⟩
  have htokens : (Argument.binding name generics value).tokens =
      (TypeExpr.path (.mk false [.mk name generics])).tokens ++ (Token.symbol "=" ++ value.tokens) := by
    simp [Argument.tokens, TypeExpr.tokens, PathExpr.tokens, Segment.tokensOfAll, Segment.tokens, joinTokens]
  rw [htokens] at hsize ⊢
  rw [sizes_append, sizes_append] at hsize
  refine takes_opened ((opensType_tokens hplainName hproperName).append _) ?_
  refine (hg true _ hplainName hproperName (by omega)).bind ?_ fun hu _ => ?_
  · have hread : Takes Token.AllAgree (namedArgument g name generics) (Token.symbol "=" ++ value.tokens) endsArgument
        (some (.binding name generics value)) := by
      have hopens := opensType_tokens hvaluePlain hvalue
      refine makes_marked (by decide) (reads_seesAny false (fun hu _ => ?_) ?_)
      · exact List.any_eq_false.mpr fun e he => by
          rw [hopens.not_stands ((by decide : ∀ e ∈ [Expected.literal, .group .brace], e ∈ neverStartType) e he) hu]
          decide
      · exact Takes.bind_nil ((hg true value hvaluePlain hvalue (by omega)).mono fun _ => endsType_of_endsArgument) (takes_pure _)
    have hargument : Takes Token.AllAgree (do pure ((← namedArgument g name generics).getD (.type (.path (.mk false [.mk name generics])))))
        (Token.symbol "=" ++ value.tokens) endsArgument (.binding name generics value) :=
      hread.bind_nil (takes_pure _)
    cases generics with
    | none => exact hargument
    | angled turbofish arguments trailing => exact hargument
    | called inputs trailing output => cases hgenericsPlain
  · obtain ⟨vs, ws, rfl, hv, -⟩ := hu.of_append
    obtain ⟨joint, pos, rfl⟩ := hv.of_symbol_alone '=' rfl
    rfl

end Read

/-! ## Reading paths again -/

theorem Argument.tokensOfAll_of_allPlain {begun : Bool} {arguments : List Argument}
    (h : Argument.allPlain begun arguments = true) :
    ∃ lifetimes others : List (List Token),
      Argument.tokensOfAll arguments = lifetimes.map (true, ·) ++ others.map (false, ·) ∧
        lifetimes ++ others = arguments.map Argument.tokens ∧ (begun = true → lifetimes = []) := by
  induction arguments generalizing begun with
  | nil => exact ⟨[], [], rfl, rfl, fun _ => rfl⟩
  | cons a rest ih =>
    have hother : Argument.allPlain true rest = true → (∀ name, a ≠ .lifetime name) →
        ∃ lifetimes others : List (List Token),
          Argument.tokensOfAll (a :: rest) = lifetimes.map (true, ·) ++ others.map (false, ·) ∧
            lifetimes ++ others = (a :: rest).map Argument.tokens ∧ (begun = true → lifetimes = []) := by
      intro hrest hne
      obtain ⟨lifetimes, others, hall, hmap, hnone⟩ := ih hrest
      rw [hnone rfl, List.map_nil, List.nil_append] at hall
      rw [hnone rfl, List.nil_append] at hmap
      refine ⟨[], a.tokens :: others, ?_, ?_, fun _ => rfl⟩
      · cases a with
        | lifetime name => exact absurd rfl (hne name)
        | _ => exact congrArg ((false, _) :: ·) hall
      · rw [List.nil_append, hmap, List.map_cons]
    cases a with
    | lifetime name =>
      obtain ⟨hbegun, hrest⟩ : begun = false ∧ Argument.allPlain begun rest = true := by
        simpa [Argument.allPlain] using h
      obtain ⟨lifetimes, others, hall, hmap, -⟩ := ih hrest
      refine ⟨Token.lifetime name :: lifetimes, others, ?_, ?_, fun hb => absurd (hbegun.symm.trans hb) (by decide)⟩
      · exact congrArg ((true, _) :: ·) hall
      · rw [List.cons_append, hmap, List.map_cons, Argument.tokens]
    | type type =>
      refine hother ?_ nofun
      simp only [Argument.allPlain, Bool.and_eq_true] at h
      exact h.2
    | constant value =>
      refine hother ?_ nofun
      simp only [Argument.allPlain, Bool.and_eq_true] at h
      exact h.2
    | binding name generics value =>
      refine hother ?_ nofun
      simp only [Argument.allPlain, Bool.and_eq_true] at h
      exact h.2
    | constantBinding name generics value => cases h
    | constraint name generics bounds trailing => cases h

theorem Argument.allPlain_of_mem {begun : Bool} {arguments : List Argument} (h : Argument.allPlain begun arguments = true)
    {a : Argument} (ha : a ∈ arguments) : Argument.allPlain false [a] = true := by
  induction arguments generalizing begun with
  | nil => cases ha
  | cons b rest ih =>
    have hparts : Argument.allPlain false [b] = true ∧ ∃ begun, Argument.allPlain begun rest = true := by
      cases b with
      | lifetime name =>
        simp only [Argument.allPlain, Bool.and_eq_true] at h
        exact ⟨rfl, begun, h.2⟩
      | constantBinding name generics value => cases h
      | constraint name generics bounds trailing => cases h
      | _ =>
        simp only [Argument.allPlain, Bool.and_eq_true] at h ⊢
        exact ⟨⟨h.1, trivial⟩, true, h.2⟩
    rcases List.mem_cons.mp ha with rfl | ha
    · exact hparts.1
    · obtain ⟨_, hrest⟩ := hparts.2
      exact ih hrest ha

theorem angled_tokens (turbofish trailing : Bool) {arguments : List Argument}
    (h : Argument.allPlain false arguments = true) :
    (Arguments.angled turbofish arguments trailing).tokens =
      (if turbofish then Token.symbol "::" else []) ++
        (Token.symbol "<" ++ (commas trailing (arguments.map Argument.tokens) ++ Token.symbol ">")) := by
  obtain ⟨lifetimes, others, hall, hmap, -⟩ := Argument.tokensOfAll_of_allPlain h
  rw [Arguments.tokens, hall, lifetimesFirst_append, hmap, List.append_assoc, List.append_assoc]

/-- No operator that goes on from an angle bracket stands at the start of an argument, and no bracket
closes there. -/
def neverOpen : List Expected := [.mark ">", .mark "=", .mark "<="]

theorem not_stands_argument {a : Argument} (hplain : Argument.allPlain false [a] = true)
    (hproper : Argument.AllProper [a]) {e : Expected} (he : e ∈ neverOpen) {us more : List Token}
    (hu : Token.AllAgree a.tokens us) : e.stands (us ++ more) = false := by
  have hopens : ∀ {ts : List Token}, OpensType ts → Token.AllAgree ts us → e.stands (us ++ more) = false := by
    intro ts ht hu
    simp only [neverOpen, List.mem_cons, List.not_mem_nil, or_false] at he
    rcases he with rfl | rfl | rfl
    · exact ht.not_stands (by decide) hu
    · exact ht.not_stands (by decide) hu
    · exact ht.not_atMost hu
  cases a with
  | lifetime name =>
    obtain ⟨letters, rfl, -⟩ := hproper.1
    obtain ⟨pos, namePos, rfl⟩ := exists_of_lifetime hu
    simp only [neverOpen, List.mem_cons, List.not_mem_nil, or_false] at he
    rcases he with rfl | rfl | rfl <;> rfl
  | type type =>
    simp only [Argument.allPlain, Bool.and_true] at hplain
    exact hopens (opensType_tokens hplain hproper.1) hu
  | constant value =>
    simp only [Argument.allPlain, Bool.and_true] at hplain
    obtain ⟨text, pos, -, rfl⟩ := exists_of_isNumeral hplain hu
    simp only [neverOpen, List.mem_cons, List.not_mem_nil, or_false] at he
    rcases he with rfl | rfl | rfl <;> rfl
  | binding name generics value =>
    obtain ⟨v, vs, rfl, hv, -⟩ := Token.AllAgree.of_cons (hu : Token.AllAgree (Token.word name :: _) us)
    obtain ⟨pos, rfl⟩ := hv.of_ident
    simp only [neverOpen, List.mem_cons, List.not_mem_nil, or_false] at he
    rcases he with rfl | rfl | rfl <;> rfl
  | constantBinding name generics value => cases hplain
  | constraint name generics bounds trailing => cases hplain

namespace Read

variable {g : Grammar} {bound : Nat}

theorem takes_argument (hg : Rereads g bound) {a : Argument} (hplain : Argument.allPlain false [a] = true)
    (hproper : Argument.AllProper [a]) (hsize : Token.sizes a.tokens < bound) :
    Takes Token.AllAgree (genericArgument g) a.tokens endsArgument a := by
  cases a with
  | lifetime name => exact takes_lifetimeArgument hproper.1
  | type type =>
    simp only [Argument.allPlain, Bool.and_true] at hplain
    exact takes_typeArgument hg hplain hproper.1 hsize
  | constant value =>
    simp only [Argument.allPlain, Bool.and_true] at hplain
    exact takes_constant hplain
  | binding name generics value => exact takes_binding hg hplain hproper hsize
  | constantBinding name generics value => cases hplain
  | constraint name generics bounds trailing => cases hplain

theorem takes_angledArguments (hg : Rereads g bound) {turbofish trailing : Bool} {arguments : List Argument}
    (hplain : Argument.allPlain false arguments = true) (hproper : (Arguments.angled turbofish arguments trailing).Proper)
    (hsize : ∀ a ∈ arguments, Token.sizes a.tokens < bound) {next : List Token → Bool} :
    Takes Token.AllAgree (angledArguments g) (Arguments.angled turbofish arguments trailing).tokens next
      (.angled turbofish arguments trailing) := by
  have hall : ∀ a ∈ arguments, Argument.AllProper [a] := Argument.allProper_iff.mp hproper.2
  have hlist : Takes Token.AllAgree (separatedUntil (sees (.mark ">")) (mark ",") (genericArgument g))
      (commas trailing (arguments.map Argument.tokens)) (fun more => (Expected.mark ">").stands more) (arguments, trailing) :=
    takes_separatedUntil (run_sees _) id rfl
      (fun a ha _ _ hu => not_stands_argument (Argument.allPlain_of_mem hplain ha) (hall a ha) (by decide) hu)
      (fun a ha => takes_argument hg (Argument.allPlain_of_mem hplain ha) (hall a ha) (hsize a ha)) hproper.1
  have hrest : ∀ b : Bool, Takes Token.AllAgree (do
      mark "<"
      let read ← separatedUntil (sees (.mark ">")) (mark ",") (genericArgument g)
      mark ">"
      pure (Arguments.angled b read.1 read.2))
      (Token.symbol "<" ++ (commas trailing (arguments.map Argument.tokens) ++ Token.symbol ">")) next
      (.angled b arguments trailing) := by
    intro b
    refine (takes_mark "<" (by decide) : Takes Token.AllAgree _ _ (fun _ => true) ()).bind ?_ fun _ _ => rfl
    refine hlist.bind ?_ fun hu _ => stands_symbol (by decide) hu _
    exact (takes_mark ">" (by decide)).bind_nil (takes_pure _)
  rw [angled_tokens _ _ hplain]
  cases turbofish with
  | true => exact makes_marked (by decide) (hrest true)
  | false =>
    refine reads_unmarked (fun hu _ => ?_) (hrest false)
    obtain ⟨joint, pos, vs, rfl, -⟩ := hu.of_symbol '<' rfl
    rfl

end Read

/-! ### Names of paths -/

/-- No arguments of a name stand here. -/
def endsName (ts : List Token) : Bool :=
  !(Expected.mark "<").stands ts && !((Expected.mark "::").stands ts && (Expected.mark "<").stands (afterTree (afterTree ts)))

/-- Nothing stands here that would go on with a path. -/
def endsPath (ts : List Token) : Bool := !(Expected.mark "<").stands ts && !(Expected.mark "::").stands ts

theorem endsPath_of_endsType {ts : List Token} (h : endsType ts = true) : endsPath ts = true := by
  rw [endsPath, not_stands_of_endsType (by decide) h, not_stands_of_endsType (by decide) h]
  rfl

theorem not_stands_of_endsPath {ts : List Token} (h : endsPath ts = true) :
    (Expected.mark "<").stands ts = false ∧ (Expected.mark "::").stands ts = false := by
  rwa [endsPath, Bool.and_eq_true, Bool.not_eq_true', Bool.not_eq_true'] at h

theorem endsName_of_endsPath {ts : List Token} (h : endsPath ts = true) : endsName ts = true := by
  obtain ⟨hangle, hseparator⟩ := not_stands_of_endsPath h
  rw [endsName, hangle, hseparator]
  rfl

namespace Read

variable {g : Grammar} {bound : Nat}

theorem exists_commas_cons (trailing : Bool) (part : List Token) (parts : List (List Token)) :
    ∃ tail, commas trailing (part :: parts) = part ++ tail := by
  cases parts with
  | nil => exact ⟨_, rfl⟩
  | cons next rest => exact ⟨_, List.append_assoc ..⟩

/-- The bracket before arguments is no part of a comparison. -/
theorem stands_angle {trailing : Bool} {arguments : List Argument} (hplain : Argument.allPlain false arguments = true)
    (hproper : Argument.AllProper arguments) {us more : List Token}
    (hu : Token.AllAgree (Token.symbol "<" ++ (commas trailing (arguments.map Argument.tokens) ++ Token.symbol ">")) us) :
    ((Expected.mark "<").stands (us ++ more) && !([Expected.mark "<=", .mark "<<="].any (·.stands (us ++ more)))) = true := by
  obtain ⟨joint, pos, vs, rfl, hvs⟩ := hu.of_symbol '<' rfl
  have hnever : ∀ e ∈ [Expected.mark "=", .mark "<="], e.stands (vs ++ more) = false := by
    cases arguments with
    | nil =>
      obtain ⟨joint, pos, rfl⟩ := Token.AllAgree.of_symbol_alone (hvs : Token.AllAgree (Token.symbol ">") vs) '>' rfl
      simp [Expected.stands, afterMarks]
    | cons a rest =>
      obtain ⟨tail, htail⟩ := exists_commas_cons trailing a.tokens (rest.map Argument.tokens)
      rw [List.map_cons, htail, List.append_assoc] at hvs
      obtain ⟨ws, xs, rfl, hw, -⟩ := hvs.of_append
      intro e he
      rw [List.append_assoc]
      have hnever : e ∈ neverOpen := (by decide : ∀ e ∈ [Expected.mark "=", .mark "<="], e ∈ neverOpen) e he
      exact not_stands_argument (Argument.allPlain_of_mem hplain List.mem_cons_self) (Argument.allProper_cons.mp hproper).1
        hnever hw
  have hequals := hnever (.mark "=") (by decide)
  have hatMost := hnever (.mark "<=") (by decide)
  cases joint with
  | false => rfl
  | true =>
    show (true && !((Expected.mark "=").stands (vs ++ more) || ((Expected.mark "<=").stands (vs ++ more) || false))) = true
    rw [hequals, hatMost]
    rfl

/-- A name that may have arguments. -/
theorem takes_argumentsName {name : String} (h : takesArguments name = true) :
    Takes Token.AllAgree (do if ← sees (.word "Self") then anyWord else identifier) [Token.word name] (fun _ => true) name := by
  refine reads_sees (name == "Self") (fun hu _ => ?_) ?_
  · obtain ⟨v, vs, rfl, hv, -⟩ := hu.of_cons
    obtain ⟨pos, rfl⟩ := hv.of_ident
    rfl
  · cases hself : name == "Self" with
    | true => exact takes_anyWord
    | false =>
      refine takes_identifier (Bool.eq_false_iff.mpr fun hr => ?_)
      rw [takesArguments, hr, hself] at h
      cases h

/-- The words that are read without arguments have none. -/
theorem isNone_of_pathWord {name : String} {arguments : Arguments} (hword : name ∈ ["try", "self", "super", "crate"])
    (htakes : arguments.isNone = false → takesArguments name = true) : arguments = .none := by
  have hbare : takesArguments name = false := (by decide : ∀ name ∈ ["try", "self", "super", "crate"],
    takesArguments name = false) name hword
  cases arguments with
  | none => rfl
  | _ => exact absurd (htakes rfl) (by rw [hbare]; decide)

/-- The arguments behind a name in a type, with two colons in front of them or without. -/
theorem takes_angledSegment (hg : Rereads g bound) {name : String} {turbofish trailing : Bool} {arguments : List Argument}
    (hplain : Argument.allPlain false arguments = true) (hproper : (Arguments.angled turbofish arguments trailing).Proper)
    (hsize : Token.sizes (Arguments.angled turbofish arguments trailing).tokens ≤ bound) :
    Takes Token.AllAgree
      (do
        if (← seesBut (.mark "<") [.mark "<=", .mark "<<="]) || ((← sees (.mark "::")) && (← seesThird (.mark "<"))) then
          pure (Segment.mk name (← angledArguments g))
        else pure (.mk name .none))
      (Arguments.angled turbofish arguments trailing).tokens endsName (.mk name (.angled turbofish arguments trailing)) := by
  have hsizes : ∀ a ∈ arguments, Token.sizes a.tokens < bound := by
    intro a ha
    have hle := sizes_le_commas trailing (List.mem_map_of_mem (f := Argument.tokens) ha)
    rw [angled_tokens _ _ hplain] at hsize
    simp only [sizes_append] at hsize
    have hangle : Token.sizes (Token.symbol "<") = 1 := rfl
    omega
  have hread : Takes Token.AllAgree (do pure (Segment.mk name (← angledArguments g)))
      (Arguments.angled turbofish arguments trailing).tokens endsName (.mk name (.angled turbofish arguments trailing)) :=
    (takes_angledArguments hg hplain hproper hsizes).bind_nil (takes_pure _)
  have htokens := angled_tokens turbofish trailing hplain
  cases turbofish with
  | false =>
    refine reads_seesBut true (fun hu _ => ?_) ?_
    · rw [htokens] at hu
      exact stands_angle hplain hproper.2 hu
    · exact reads_ignored (fun s => ⟨_, run_sees _ s⟩) fun _ => reads_ignored (fun s => ⟨_, run_seesThird _ s⟩) fun _ => hread
  | true =>
    have hshape : ∀ {us : List Token}, Token.AllAgree (Arguments.angled true arguments trailing).tokens us →
        ∃ pos joint next angle at_ rest,
          us = .punct ':' true pos :: .punct ':' joint next :: .punct '<' angle at_ :: rest := by
      intro us hu
      rw [htokens] at hu
      obtain ⟨pos, joint, next, vs, rfl, hvs⟩ := Token.AllAgree.of_symbol_pair hu ':' ':' rfl
      obtain ⟨angle, at_, rest, rfl, -⟩ := hvs.of_symbol '<' rfl
      exact ⟨pos, joint, next, angle, at_, rest, rfl⟩
    refine reads_seesBut false (fun hu _ => ?_) (reads_sees true (fun hu _ => ?_) (reads_seesThird true (fun hu _ => ?_) hread))
    all_goals
      obtain ⟨pos, joint, next, angle, at_, rest, rfl⟩ := hshape hu
      rfl

/-- Among expressions, only a name without arguments is one that is written as in a type. -/
theorem takes_segment (hg : Rereads g bound) {amongExpressions : Bool} {name : String} {arguments : Arguments}
    (hplain : arguments.areOfPlain = true) (hproper : Segment.AllProper [.mk name arguments])
    (hsize : Token.sizes arguments.tokens ≤ bound) (hnone : amongExpressions = true → arguments.isNone = true) :
    Takes Token.AllAgree (segment g amongExpressions) (Segment.mk name arguments).tokens endsName (.mk name arguments) := by
  obtain ⟨-, hpath, htakes, harguments, -⟩ := hproper
  by_cases hwords : name ∈ ["try", "self", "super", "crate"]
  · -- These words never have arguments.
    obtain rfl : arguments = .none := isNone_of_pathWord hwords htakes
    refine reads_seesAny true (fun hu _ => ?_) (takes_anyWord.bind_nil (takes_pure _))
    obtain ⟨v, vs, rfl, hv, -⟩ := Token.AllAgree.of_cons hu
    obtain ⟨pos, rfl⟩ := hv.of_ident
    exact List.any_eq_true.mpr ⟨.word name, List.mem_map_of_mem hwords, beq_self_eq_true name⟩
  · have hfree : takesArguments name = true := by
      rw [isPathName] at hpath
      rcases Bool.or_eq_true_iff.mp hpath with h | h
      · exact h
      · exact absurd (List.contains_iff_mem.mp h) hwords
    refine reads_seesAny false (fun hu _ => ?_) ?_
    · obtain ⟨v, vs, rfl, hv, -⟩ := Token.AllAgree.of_cons hu
      obtain ⟨pos, rfl⟩ := hv.of_ident
      refine Bool.eq_false_iff.mpr fun hs => hwords ?_
      exact mem_of_word_stands ["try", "self", "super", "crate"] hs
    have hsplit : (Segment.mk name arguments).tokens = [Token.word name] ++ arguments.tokens := rfl
    rw [hsplit]
    refine (takes_argumentsName hfree).bind ?_ fun _ _ => rfl
    cases arguments with
    | none =>
      refine reads_nil fun s hm => ⟨_, [], rfl, ?_⟩
      obtain ⟨hangle, hturbofish⟩ := Bool.and_eq_true_iff.mp hm
      rw [Bool.not_eq_true'] at hangle hturbofish
      simp only [run_bind, run_seesBut, run_sees, run_seesThird, run_ite, hangle, hturbofish, Bool.false_and, Bool.and_false]
      rfl
    | angled turbofish arguments trailing =>
      obtain rfl : amongExpressions = false := by
        cases amongExpressions with
        | false => rfl
        | true => cases hnone rfl
      exact takes_angledSegment hg hplain harguments hsize
    | called inputs trailing output => cases hplain

end Read

/-! ### Paths -/

theorem sizes_le_flatMap {α : Type} (tokens : α → List Token) {items : List α} {a : α} (h : a ∈ items) :
    Token.sizes (tokens a) ≤ Token.sizes (items.flatMap tokens) := by
  induction items with
  | nil => cases h
  | cons b rest ih =>
    rw [List.flatMap_cons, sizes_append]
    rcases List.mem_cons.mp h with rfl | h
    · omega
    · have := ih h
      omega

theorem Segment.areOfPlain_of_mem {segments : List Segment} (h : Segment.allOfPlain segments = true) {s : Segment}
    (hs : s ∈ segments) : s.arguments.areOfPlain = true := by
  induction segments with
  | nil => cases hs
  | cons first rest ih =>
    obtain ⟨name, arguments⟩ := first
    simp only [Segment.allOfPlain, Bool.and_eq_true] at h
    rcases List.mem_cons.mp hs with rfl | hs
    · exact h.1.2
    · exact ih h.2 hs

theorem PathExpr.tokens_cons (leading : Bool) (first : Segment) (others : List Segment) :
    (PathExpr.mk leading (first :: others)).tokens =
      (if leading then Token.symbol "::" else []) ++
        (first.tokens ++ others.flatMap fun s => Token.symbol "::" ++ s.tokens) := by
  rw [PathExpr.tokens, Segment.joined_eq]

/-- Whatever names follow, no arguments do. -/
theorem endsName_of_others {others : List Segment} {us more : List Token}
    (hu : Token.AllAgree (others.flatMap fun s => Token.symbol "::" ++ s.tokens) us) (hm : endsPath more = true) :
    endsName (us ++ more) = true := by
  cases others with
  | nil =>
    rw [hu.of_nil]
    exact endsName_of_endsPath hm
  | cons second rest =>
    obtain ⟨name, arguments⟩ := second
    rw [List.flatMap_cons, List.append_assoc] at hu
    obtain ⟨pos, joint, next, vs, rfl, hvs⟩ := hu.of_symbol_pair ':' ':' rfl
    obtain ⟨w, ws, rfl, hw, -⟩ := Token.AllAgree.of_cons (hvs : Token.AllAgree (Token.word name :: _) vs)
    obtain ⟨namePos, rfl⟩ := hw.of_ident
    rfl

/-- Another name of the path follows. -/
def continuesPath (ts : List Token) : Bool :=
  (Expected.mark "::").stands ts && !(Expected.group .parenthesis).stands (afterTree (afterTree ts))

namespace Read

variable {g : Grammar} {bound : Nat}

/-- The names after the first one. -/
theorem takes_others (hg : Rereads g bound) {test : Parser Bool} (seen : List Token → Bool)
    (htest : ∀ s, test s = .ok (seen s.rest, s)) (hend : ∀ {more}, endsPath more = true → seen more = false)
    (hseen : ∀ pos joint next name namePos rest,
      seen (.punct ':' true pos :: .punct ':' joint next :: .ident name namePos :: rest) = true)
    {amongExpressions : Bool} {others : List Segment} (hplain : ∀ s ∈ others, s.arguments.areOfPlain = true)
    (hproper : Segment.AllProper others) (hsize : ∀ s ∈ others, Token.sizes s.tokens ≤ bound)
    (hnone : amongExpressions = true → ∀ s ∈ others, s.arguments.isNone = true) :
    Takes Token.AllAgree (whileSeen test (do mark "::"; segment g amongExpressions))
      (others.flatMap fun s => Token.symbol "::" ++ s.tokens) endsPath others := by
  have hshape : ∀ {s : Segment} {us : List Token}, Token.AllAgree (Token.symbol "::" ++ s.tokens) us →
      ∃ pos joint next name namePos rest, us = .punct ':' true pos :: .punct ':' joint next :: .ident name namePos :: rest := by
    rintro ⟨name, arguments⟩ us hu
    obtain ⟨pos, joint, next, vs, rfl, hvs⟩ := hu.of_symbol_pair ':' ':' rfl
    obtain ⟨w, ws, rfl, hw, -⟩ := Token.AllAgree.of_cons (hvs : Token.AllAgree (Token.word name :: _) vs)
    obtain ⟨namePos, rfl⟩ := hw.of_ident
    exact ⟨pos, joint, next, name, namePos, ws, rfl⟩
  refine takes_whileSeen endsName htest (fun hm => ⟨hend hm, endsName_of_endsPath hm⟩) ?_ ?_ ?_
  · intro s _ us more hu
    obtain ⟨pos, joint, next, name, namePos, rest, rfl⟩ := hshape hu
    exact ⟨hseen pos joint next name namePos (rest ++ more), rfl⟩
  · rintro ⟨name, arguments⟩ hs
    refine (takes_mark "::" (by decide) : Takes Token.AllAgree _ _ (fun _ => true) ()).bind ?_ fun _ _ => rfl
    have hle := hsize _ hs
    rw [Segment.tokens, Token.sizes] at hle
    exact takes_segment hg (hplain _ hs) (Segment.allProper_iff.mp hproper _ hs) (by omega) fun h => hnone h _ hs
  · intro s _ h
    cases h

theorem takes_pathBody (hg : Rereads g bound) {amongExpressions : Bool} {path : PathExpr}
    (hplain : ∀ s ∈ path.segments, s.arguments.areOfPlain = true) (hproper : path.Proper)
    (hsize : Token.sizes path.tokens ≤ bound) (hnone : amongExpressions = true → path.isPlain = true) :
    Takes Token.AllAgree (pathBody g amongExpressions) path.tokens endsPath path := by
  obtain ⟨leading, segments⟩ := path
  cases segments with
  | nil => exact absurd rfl hproper.1
  | cons first others =>
    obtain ⟨name, arguments⟩ := first
    obtain ⟨hfirst, hothers⟩ := Segment.allProper_cons.mp hproper.2
    rw [PathExpr.tokens_cons] at hsize ⊢
    simp only [sizes_append, Segment.tokens, Token.sizes] at hsize
    have hsizes : ∀ s ∈ others, Token.sizes s.tokens ≤ bound := by
      intro s hs
      have hle := sizes_le_flatMap (fun s => Token.symbol "::" ++ s.tokens) hs
      simp only [sizes_append] at hle
      omega
    have hfirstPlain : arguments.areOfPlain = true := hplain _ List.mem_cons_self
    have hbare : amongExpressions = true → ∀ s ∈ Segment.mk name arguments :: others, s.arguments.isNone = true :=
      fun h => List.all_eq_true.mp (hnone h)
    have hseen : ∀ s, (do pure ((← sees (.mark "::")) && !(← seesThird (.group .parenthesis)))) s =
        .ok (continuesPath s.rest, s) := fun _ => rfl
    have hbody : ∀ b : Bool, Takes Token.AllAgree (do
        let first ← segment g amongExpressions
        let others ← whileSeen (do pure ((← sees (.mark "::")) && !(← seesThird (.group .parenthesis))))
          (do mark "::"; segment g amongExpressions)
        pure (PathExpr.mk b (first :: others)))
        ((Segment.mk name arguments).tokens ++ others.flatMap fun s => Token.symbol "::" ++ s.tokens) endsPath
        (.mk b (.mk name arguments :: others)) := by
      intro b
      refine (takes_segment hg hfirstPlain hfirst (by omega) fun h => hbare h _ List.mem_cons_self).bind ?_ fun {us more} hu hm => ?_
      · refine (takes_others hg continuesPath hseen (fun hm => ?_) (fun _ _ _ _ _ _ => rfl)
          (fun s hs => hplain s (List.mem_cons_of_mem _ hs)) hothers hsizes
          fun h s hs => hbare h s (List.mem_cons_of_mem _ hs)).bind_nil (takes_pure _)
        rw [continuesPath, (not_stands_of_endsPath hm).2]
        rfl
      · exact endsName_of_others hu hm
    cases leading with
    | true => exact makes_marked (by decide) (hbody true)
    | false =>
      refine reads_unmarked (fun hu _ => ?_) (hbody false)
      obtain ⟨v, vs, rfl, hv, -⟩ := Token.AllAgree.of_cons (hu : Token.AllAgree (Token.word name :: _) _)
      obtain ⟨pos, rfl⟩ := hv.of_ident
      rfl

theorem takes_path (hg : Rereads g bound) {path : PathExpr} (hplain : path.isOfPlain = true) (hproper : path.Proper)
    (hsize : Token.sizes path.tokens ≤ bound) : Takes Token.AllAgree (Read.path g false) path.tokens endsPath path := by
  obtain ⟨leading, segments⟩ := path
  have hsegments : ∀ s ∈ (PathExpr.mk leading segments).segments, s.arguments.areOfPlain = true :=
    fun s hs => Segment.areOfPlain_of_mem hplain hs
  exact (takes_pathBody hg hsegments hproper hsize fun (h : false = true) => absurd h Bool.false_ne_true).writtenBy

end Read

/-- A path starts with separators or with a name that may stand in one. -/
theorem exists_of_path {path : PathExpr} (hproper : path.Proper) {us : List Token} (hu : Token.AllAgree path.tokens us) :
    (∃ pos joint next rest, us = .punct ':' true pos :: .punct ':' joint next :: rest) ∨
      ∃ name pos rest, us = .ident name pos :: rest ∧ isPathName name = true := by
  obtain ⟨leading, segments⟩ := path
  obtain ⟨⟨name, arguments⟩, others, rfl⟩ := List.exists_cons_of_ne_nil hproper.1
  rw [PathExpr.tokens_cons] at hu
  cases leading with
  | true =>
    obtain ⟨pos, joint, next, rest, rfl, -⟩ := Token.AllAgree.of_symbol_pair hu ':' ':' rfl
    exact Or.inl ⟨pos, joint, next, rest, rfl⟩
  | false =>
    obtain ⟨v, rest, rfl, hv, -⟩ := Token.AllAgree.of_cons (hu : Token.AllAgree (Token.word name :: _) _)
    obtain ⟨pos, rfl⟩ := hv.of_ident
    exact Or.inr ⟨name, pos, rest, rfl, hproper.2.2.1⟩

end BuilderSynthesis.Syntax
