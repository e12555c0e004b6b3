/-
  BuilderSynthesis.Proofs.PlainTypes — types without expressions, bounds and functions in them.

  A plain type is made of paths, references, pointers, slices, tuples and arrays of a length that is a
  numeral (`TypeExpr.isPlain`). This says where such a type starts and what cannot stand there
  (`OpensType`), what may follow it (`endsType`), and how the lists in it are written.
-/

import BuilderSynthesis.Proofs.ReadTypes

namespace BuilderSynthesis.Syntax

open BuilderSynthesis.Syntax.Parser

/-! ## Plain types -/

/-- A number of plain digits and nothing else. -/
def isNumeral : List Token → Bool
  | [.literal text ⟨1, 1⟩] => !text.toList.isEmpty && text.toList.all Char.isDigit
  | _ => false

mutual

/-- The type is put together from paths, references, pointers, slices and tuples, and from arrays
whose length is a numeral. What is passed to a name in a path are lifetimes, and after them types,
numerals and types for names. -/
def TypeExpr.isPlain : TypeExpr → Bool
  | .array element length => element.isPlain && isNumeral length
  | .slice element => element.isPlain
  | .tuple elements _ => TypeExpr.allPlain elements
  | .paren inner => inner.isPlain
  | .pointer _ target => target.isPlain
  | .reference _ _ referent => referent.isPlain
  | .never => true
  | .inferred => true
  | .path path => path.isOfPlain
  | .qualified subject asTrait rest =>
    subject.isPlain && (match asTrait with | some path => path.isOfPlain | none => true) && Segment.allOfPlain rest
  | _ => false

def TypeExpr.allPlain : List TypeExpr → Bool
  | [] => true
  | type :: rest => type.isPlain && TypeExpr.allPlain rest

/-- All arguments in the path are plain. -/
def PathExpr.isOfPlain : PathExpr → Bool
  | .mk _ segments => Segment.allOfPlain segments

def Segment.allOfPlain : List Segment → Bool
  | [] => true
  | .mk name arguments :: rest => name != "try" && arguments.areOfPlain && Segment.allOfPlain rest

def Arguments.areOfPlain : Arguments → Bool
  | .none => true
  | .angled _ arguments _ => Argument.allPlain false arguments
  | .called .. => false

/-- After the first of another kind no lifetime comes any more. -/
def Argument.allPlain (begun : Bool) : List Argument → Bool
  | [] => true
  | .lifetime _ :: rest => !begun && Argument.allPlain begun rest
  | .type type :: rest => type.isPlain && Argument.allPlain true rest
  | .constant value :: rest => isNumeral value && Argument.allPlain true rest
  | .binding name generics value :: rest =>
    name != "try" && generics.areOfPlain && value.isPlain && Argument.allPlain true rest
  | _ :: _ => false

end

/-- A name in a path. -/
def IsPlainName (name : String) : Prop := IsIdentifier name ∧ isPathName name = true ∧ name ≠ "try"

/-! ## Before and after a type -/

/-- What would go on with a type. -/
def continuesType : List Expected := [.mark "<", .mark "::", .mark "!", .mark "+", .mark "#"]

/-- Nothing stands here that would go on with a type. -/
def endsType (ts : List Token) : Bool := !continuesType.any (·.stands ts)

theorem not_stands_of_endsType {e : Expected} (he : e ∈ continuesType) {ts : List Token} (h : endsType ts = true) :
    e.stands ts = false := by
  refine Bool.eq_false_iff.mpr fun hs => ?_
  rw [endsType, List.any_eq_true.mpr ⟨e, he, hs⟩] at h
  cases h

/-- The end of a generic argument. -/
def endsArgument (ts : List Token) : Bool := (Expected.mark ",").stands ts || (Expected.mark ">").stands ts

/-- The first token of a plain type. -/
def startsType : Token → Bool
  | .ident name _ => name == "_" || (isPathName name && name != "try")
  | .punct c _ _ => ['*', '&', '!', ':', '<'].contains c
  | .literal _ _ => false
  | .group delimiter _ _ _ => delimiter != .brace

theorem exists_punct_of_stands {operator : String} (c : Char) {ts : List Token} (hc : operator.toList = [c])
    (h : (Expected.mark operator).stands ts = true) : ∃ joint pos rest, ts = .punct c joint pos :: rest := by
  have hmarks : (afterMarks operator.toList ts).isSome = true := h
  rw [hc] at hmarks
  exact exists_punct_of_afterMarks hmarks

theorem endsType_of_endsArgument {ts : List Token} (h : endsArgument ts = true) : endsType ts = true := by
  rcases Bool.or_eq_true_iff.mp h with h | h
  · obtain ⟨joint, pos, rest, rfl⟩ := exists_punct_of_stands ',' rfl h
    rfl
  · obtain ⟨joint, pos, rest, rfl⟩ := exists_punct_of_stands '>' rfl h
    rfl

/-- What cannot stand where a plain type starts. -/
def neverStartType : List Expected :=
  [.lifetime, .literal, .group .brace, .mark ">", .mark ",", .mark "=", .mark "?", .word "mut", .word "const", .word "for", .mark "..."]

theorem not_stands_of_startsType {e : Expected} (he : e ∈ neverStartType) {t : Token} (ht : startsType t = true)
    (rest : List Token) : e.stands (t :: rest) = false := by
  cases t with
  | ident name pos =>
    have hne : ∀ word ∈ ["mut", "const", "for", "true", "false"], (name == word) = false := by
      intro word hw
      refine beq_eq_false_iff_ne.mpr fun hname => ?_
      rw [hname] at ht
      have hstarts : ∀ word ∈ ["mut", "const", "for", "true", "false"], startsType (.ident word pos) = false := by
        simp only [startsType]
        decide
      rw [hstarts word hw] at ht
      cases ht
    simp only [neverStartType, List.mem_cons, List.not_mem_nil, or_false] at he
    rcases he with rfl | rfl | rfl | rfl | rfl | rfl | rfl | rfl | rfl | rfl | rfl
    · rfl
    · exact Bool.or_eq_false_iff.mpr ⟨hne _ (by decide), hne _ (by decide)⟩
    · rfl
    · rfl
    · rfl
    · rfl
    · rfl
    · exact hne _ (by decide)
    · exact hne _ (by decide)
    · exact hne _ (by decide)
    · rfl
  | punct c joint pos =>
    have hc : c ∈ ['*', '&', '!', ':', '<'] := by simpa [startsType] using ht
    have hall : ∀ c ∈ ['*', '&', '!', ':', '<'], ∀ e ∈ neverStartType, e.stands (.punct c joint pos :: rest) = false := by
      simp [neverStartType, Expected.stands, afterMarks]
    exact hall c hc e he
  | literal text pos => cases ht
  | group delimiter content opensAt closesAt =>
    have hall : ∀ e ∈ neverStartType, e.stands (.group delimiter content opensAt closesAt :: rest) = false := by
      cases delimiter
      · simp [neverStartType, Expected.stands, afterMarks]
      · simp [neverStartType, Expected.stands, afterMarks]
      · cases ht
    exact hall e he

/-! ## Lists as they are written -/

theorem joinTokens_cons {separator : List Token} (part : List Token) (parts : List (List Token)) :
    joinTokens separator false (part :: parts) = part ++ parts.flatMap (separator ++ ·) := by
  induction parts generalizing part with
  | nil => rfl
  | cons next rest ih => rw [joinTokens, ih, List.flatMap_cons, List.append_assoc, List.append_assoc]

theorem TypeExpr.tokensOfAll_eq_map (ts : List TypeExpr) : TypeExpr.tokensOfAll ts = ts.map TypeExpr.tokens := by
  induction ts with
  | nil => rfl
  | cons t rest ih => rw [TypeExpr.tokensOfAll, ih, List.map_cons]

theorem Segment.tokensOfAll_eq_map (ss : List Segment) : Segment.tokensOfAll ss = ss.map Segment.tokens := by
  induction ss with
  | nil => rfl
  | cons s rest ih => rw [Segment.tokensOfAll, ih, List.map_cons]

/-- The names of a path one after the other. -/
theorem Segment.joined_eq (first : Segment) (others : List Segment) :
    joinTokens (Token.symbol "::") false (Segment.tokensOfAll (first :: others)) =
      first.tokens ++ others.flatMap fun s => Token.symbol "::" ++ s.tokens := by
  rw [Segment.tokensOfAll_eq_map, List.map_cons, joinTokens_cons, List.flatMap_map]

/-- Each part with its comma, one after the other. -/
theorem flatMap_withCommas (trailing : Bool) (parts : List (Bool × List Token)) :
    (lifetimesFirst.withCommas trailing parts).flatMap (·.2.2) = commas trailing (parts.map (·.2)) := by
  induction parts with
  | nil => rfl
  | cons part rest ih =>
    obtain ⟨isLifetime, tokens⟩ := part
    cases rest with
    | nil => exact List.append_nil _
    | cons next more =>
      have hcons : commas trailing (tokens :: (next :: more).map (·.2)) =
          tokens ++ (Token.symbol "," ++ commas trailing ((next :: more).map (·.2))) :=
        commas_cons fun h => absurd h (List.cons_ne_nil _ _)
      rw [lifetimesFirst.withCommas, List.flatMap_cons, ih]
      exact (List.append_assoc ..).trans hcons.symm

/-- Where lifetimes come first, so do they with their commas; one before another part has a comma. -/
theorem exists_withCommas (trailing : Bool) (lifetimes others : List (List Token)) :
    ∃ first second, lifetimesFirst.withCommas trailing (lifetimes.map (true, ·) ++ others.map (false, ·)) = first ++ second ∧
      (∀ part ∈ first, part.1 = true ∧ (second ≠ [] → part.2.1 = true)) ∧ ∀ part ∈ second, part.1 = false := by
  induction lifetimes with
  | nil =>
    refine ⟨[], _, rfl, nofun, ?_⟩
    induction others with
    | nil => exact fun part hp => by cases hp
    | cons part rest ih =>
      cases rest with
      | nil =>
        intro found hf
        rw [List.mem_singleton.mp hf]
      | cons next more =>
        intro found hf
        rcases List.mem_cons.mp hf with rfl | hf
        · rfl
        · exact ih found hf
  | cons part rest ih =>
    obtain ⟨first, second, he, hfirst, hsecond⟩ := ih
    cases hmore : rest.map (true, ·) ++ others.map (false, ·) with
    | nil =>
      refine ⟨[(true, trailing, part ++ (if trailing then Token.symbol "," else []))], [], ?_, ?_, ?_⟩
      · rw [List.map_cons, List.cons_append, hmore]
        rfl
      · intro found hf
        rw [List.mem_singleton.mp hf]
        exact ⟨rfl, fun h => absurd rfl h⟩
      · exact fun found hf => by cases hf
    | cons next more =>
      refine ⟨(true, true, part ++ Token.symbol ",") :: first, second, ?_, ?_, hsecond⟩
      · rw [List.map_cons, List.cons_append, List.cons_append, ← he, hmore, lifetimesFirst.withCommas]
      · intro found hf
        rcases List.mem_cons.mp hf with rfl | hf
        · exact ⟨rfl, fun _ => rfl⟩
        · exact hfirst found hf

/-- Where lifetimes come first already, parts are written in their order. -/
theorem lifetimesFirst_append (trailing : Bool) (lifetimes others : List (List Token)) :
    lifetimesFirst trailing (lifetimes.map (true, ·) ++ others.map (false, ·)) = commas trailing (lifetimes ++ others) := by
  obtain ⟨first, second, he, hfirst, hsecond⟩ := exists_withCommas trailing lifetimes others
  have hwritten := flatMap_withCommas trailing (lifetimes.map (true, ·) ++ others.map (false, ·))
  rw [he, List.flatMap_append, List.map_append, List.map_map, List.map_map] at hwritten
  have hleft : (first ++ second).filter (·.1) = first := by
    rw [List.filter_append, List.filter_eq_self.mpr fun part hp => (hfirst part hp).1,
      List.filter_eq_nil_iff.mpr fun part hp => by rw [hsecond part hp]; decide, List.append_nil]
  have hright : (first ++ second).filter (!·.1) = second := by
    rw [List.filter_append, List.filter_eq_nil_iff.mpr fun part hp => by rw [(hfirst part hp).1]; decide,
      List.filter_eq_self.mpr fun part hp => by rw [hsecond part hp]; rfl, List.nil_append]
  have hjoined : commaBetween (first.flatMap (·.2.2)) ((first.getLast?.map (·.2.1)).getD true) (second.flatMap (·.2.2)) =
      first.flatMap (·.2.2) ++ second.flatMap (·.2.2) := by
    unfold commaBetween
    split
    · rename_i hempty
      rw [List.isEmpty_iff.mp hempty, List.append_nil]
    · rename_i hne
      rw [if_pos]
      have hsecond : second ≠ [] := fun h => hne (by rw [h]; rfl)
      cases hlast : first.getLast? with
      | none => exact Bool.or_true _
      | some last => rw [Option.map_some, (hfirst last (List.mem_of_getLast? hlast)).2 hsecond]; exact Bool.or_true _
  unfold lifetimesFirst
  simp only [he, hleft, hright]
  rw [hjoined, hwritten]
  exact congrArg (commas trailing) (congrArg₂ (· ++ ·) (List.map_id _) (List.map_id _))

/-! ## Where types start -/

/-- The tokens start as a plain type does; behind an angle bracket another one starts. -/
structure OpensType (ts : List Token) : Prop where
  first : ∃ t rest, ts = t :: rest ∧ startsType t = true
  second : ∀ joint pos rest, ts = .punct '<' joint pos :: rest → ∃ t more, rest = t :: more ∧ startsType t = true

theorem opensType_cons {t : Token} (rest : List Token) (ht : startsType t = true)
    (hne : ∀ joint pos, t ≠ .punct '<' joint pos) : OpensType (t :: rest) where
  first := ⟨t, rest, rfl, ht⟩
  second joint pos _ h := absurd (List.cons.inj h).1 (hne joint pos)

theorem startsType_of_agrees {t u : Token} (h : t.Agrees u) (ht : startsType t = true) : startsType u = true := by
  cases t with
  | ident name pos =>
    obtain ⟨found, rfl⟩ := h.of_ident
    exact ht
  | punct c joint pos =>
    obtain ⟨jointly, found, rfl, -⟩ := h.of_punct
    exact ht
  | literal text pos => cases ht
  | group delimiter content opensAt closesAt =>
    obtain ⟨inner, opens, closes, rfl, -⟩ := h.of_group
    exact ht

theorem opensType_angle {ts : List Token} (h : OpensType ts) : OpensType (Token.symbol "<" ++ ts) where
  first := ⟨_, _, rfl, rfl⟩
  second joint pos rest hr := by
    rw [← (List.cons.inj hr).2]
    exact h.first

namespace OpensType

variable {ts us : List Token}

theorem append (h : OpensType ts) (us : List Token) : OpensType (ts ++ us) := by
  obtain ⟨⟨t, rest, rfl, ht⟩, hsecond⟩ := h
  refine ⟨⟨t, rest ++ us, rfl, ht⟩, fun joint pos more hm => ?_⟩
  obtain ⟨rfl, rfl⟩ := List.cons.inj hm
  obtain ⟨u, more, rfl, hu⟩ := hsecond joint pos rest rfl
  exact ⟨u, more ++ us, rfl, hu⟩

theorem of_allAgree (h : OpensType ts) (hu : Token.AllAgree ts us) : OpensType us := by
  obtain ⟨⟨t, rest, rfl, ht⟩, hsecond⟩ := h
  obtain ⟨v, vs, rfl, hv, hvs⟩ := hu.of_cons
  refine ⟨⟨v, vs, rfl, startsType_of_agrees hv ht⟩, fun joint pos more hm => ?_⟩
  obtain ⟨rfl, rfl⟩ := List.cons.inj hm
  cases t with
  | punct c joint pos =>
    obtain ⟨rfl, -⟩ := hv
    obtain ⟨u, others, rfl, hstarts⟩ := hsecond joint pos rest rfl
    obtain ⟨w, ws, rfl, hw, -⟩ := hvs.of_cons
    exact ⟨w, ws, rfl, startsType_of_agrees hw hstarts⟩
  | _ => exact hv.elim

theorem not_stands (h : OpensType ts) {e : Expected} (he : e ∈ neverStartType) {more : List Token}
    (hu : Token.AllAgree ts us) : e.stands (us ++ more) = false := by
  obtain ⟨t, rest, hr, ht⟩ := ((h.of_allAgree hu).append more).first
  rw [hr]
  exact not_stands_of_startsType he ht rest

/-- No comparison stands where a type starts. -/
theorem not_atMost (h : OpensType ts) {more : List Token} (hu : Token.AllAgree ts us) :
    (Expected.mark "<=").stands (us ++ more) = false := by
  obtain ⟨⟨t, rest, hr, ht⟩, hsecond⟩ := (h.of_allAgree hu).append more
  rw [hr] at hsecond ⊢
  by_cases hangle : ∃ joint pos, t = .punct '<' joint pos
  · obtain ⟨joint, pos, rfl⟩ := hangle
    obtain ⟨u, others, rfl, hstarts⟩ := hsecond joint pos rest rfl
    have hequals : (Expected.mark "=").stands (u :: others) = false := not_stands_of_startsType (by decide) hstarts others
    cases joint
    · rfl
    · exact hequals
  · cases t with
    | punct c joint pos =>
      have hc : (c == '<') = false := beq_eq_false_iff_ne.mpr fun h => hangle ⟨joint, pos, by rw [h]⟩
      show (if (c == '<' && joint) = true then afterMarks ['='] rest else none).isSome = false
      rw [hc]
      rfl
    | _ => rfl

end OpensType

theorem opensType_segments {first : Segment} {others : List Segment}
    (hplain : Segment.allOfPlain (first :: others) = true) (hproper : Segment.AllProper (first :: others)) :
    OpensType (joinTokens (Token.symbol "::") false (Segment.tokensOfAll (first :: others))) := by
  obtain ⟨name, arguments⟩ := first
  rw [Segment.joined_eq]
  obtain ⟨⟨htry, -⟩, -⟩ : (name != "try" ∧ arguments.areOfPlain = true) ∧ Segment.allOfPlain others = true := by
    simpa [Segment.allOfPlain] using hplain
  refine OpensType.append (opensType_cons (t := Token.word name) _ ?_ nofun) _
  rw [Token.word, startsType, hproper.2.1, htry]
  exact Bool.or_true _

theorem TypeExpr.isPlain_qualified {subject : TypeExpr} {asTrait : Option PathExpr} {rest : List Segment} :
    (TypeExpr.qualified subject asTrait rest).isPlain =
      (subject.isPlain && asTrait.all PathExpr.isOfPlain && Segment.allOfPlain rest) := by
  cases asTrait <;> rfl

theorem TypeExpr.tokens_qualified {subject : TypeExpr} {asTrait : Option PathExpr} {rest : List Segment} :
    (TypeExpr.qualified subject asTrait rest).tokens =
      Token.symbol "<" ++ subject.tokens ++ (asTrait.map fun path => Token.word "as" :: path.tokens).getD [] ++
        Token.symbol ">" ++ Token.symbol "::" ++ joinTokens (Token.symbol "::") false (Segment.tokensOfAll rest) := by
  cases asTrait <;> rfl

theorem opensType_tokens {t : TypeExpr} (hplain : t.isPlain = true) (hproper : t.Proper) : OpensType t.tokens := by
  cases t with
  | array element length => exact TypeExpr.tokens.eq_1 .. ▸ opensType_cons _ rfl nofun
  | slice element => exact TypeExpr.tokens.eq_2 .. ▸ opensType_cons _ rfl nofun
  | tuple elements trailing => exact TypeExpr.tokens.eq_3 .. ▸ opensType_cons _ rfl nofun
  | paren inner => exact TypeExpr.tokens.eq_4 .. ▸ opensType_cons _ rfl nofun
  | pointer mutable target =>
    rw [TypeExpr.tokens]
    exact opensType_cons _ rfl nofun
  | reference lifetime mutable referent =>
    rw [TypeExpr.tokens]
    exact (((opensType_cons (t := .punct '&' false .start) [] rfl nofun).append _).append _).append _
  | never =>
    rw [TypeExpr.tokens]
    exact opensType_cons _ rfl nofun
  | inferred =>
    rw [TypeExpr.tokens]
    exact opensType_cons _ rfl nofun
  | path path =>
    obtain ⟨leading, segments⟩ := path
    rw [TypeExpr.tokens, PathExpr.tokens]
    cases leading with
    | true => exact opensType_cons (t := .punct ':' true .start) _ rfl nofun
    | false =>
      cases segments with
      | nil => exact absurd rfl hproper.1
      | cons first others => exact opensType_segments hplain hproper.2
  | qualified subject asTrait rest =>
    rw [TypeExpr.isPlain_qualified, Bool.and_eq_true, Bool.and_eq_true] at hplain
    have hsubject := opensType_tokens hplain.1.1 (TypeExpr.proper_qualified.mp hproper).1
    rw [TypeExpr.tokens_qualified]
    exact ((((opensType_angle hsubject).append _).append _).append _).append _
  | _ => cases hplain

end BuilderSynthesis.Syntax
