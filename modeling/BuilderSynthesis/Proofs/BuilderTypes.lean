/-
  BuilderSynthesis.Proofs.BuilderTypes — the types that builders are written with.

  The built struct and its builder are named with the parameters of the struct as arguments, which makes
  them plain types (`TypeName.IsPlain.passed_parameters`). The marker of a generic builder is typed by a function
  that returns the struct. This is no plain type, and it is read as a type in its own right
  (`makes_markerType`).
-/

import BuilderSynthesis.Builder.Code
import BuilderSynthesis.Proofs.BuilderFunctions

namespace BuilderSynthesis

namespace Syntax

open BuilderSynthesis.Syntax.Parser

/-! ## Parameters as arguments -/

/-- A path that is a single name. -/
def PathExpr.ofName (name : String) : PathExpr := .mk false [.mk name .none]

/-- The parameter as an argument of the type that declares it. -/
def GenericParameter.argument (p : GenericParameter) : Argument :=
  if p.isLifetime then .lifetime p.name else .type (.path (.ofName p.name))

/-- The parameters as arguments. -/
def Generics.arguments (g : Generics) : Arguments :=
  if g.parameters.isEmpty then .none else .angled false (g.parameters.map GenericParameter.argument) g.trailing

theorem tokensOfAll_arguments (parameters : List GenericParameter) :
    Argument.tokensOfAll (parameters.map GenericParameter.argument) = parameters.map fun p => (p.isLifetime, p.reference) := by
  induction parameters with
  | nil => rfl
  | cons p rest ih =>
    rw [List.map_cons, List.map_cons, ← ih, GenericParameter.argument, GenericParameter.reference]
    cases p.isLifetime <;> rfl

theorem Generics.argumentTokens_eq (g : Generics) : g.argumentTokens = g.arguments.tokens := by
  unfold argumentTokens angled arguments
  split
  · rfl
  · rw [Arguments.tokens, tokensOfAll_arguments]
    rfl

theorem allPlain_arguments {parameters : List GenericParameter} (h : ∀ p ∈ parameters, p.IsPlain) {begun : Bool}
    (hfirst : if begun then parameters.all (!·.isLifetime) = true
      else (parameters.dropWhile (·.isLifetime)).all (!·.isLifetime) = true) :
    Argument.allPlain begun (parameters.map GenericParameter.argument) = true := by
  induction parameters generalizing begun with
  | nil => rfl
  | cons p rest ih =>
    have hrest := fun q hq => h q (List.mem_cons_of_mem _ hq)
    have hname : p.isLifetime = false → isReserved p.name = false := by
      intro hp
      cases h p List.mem_cons_self with
      | lifetime => cases hp
      | type named free => exact free
      | constant named free => exact free
    rw [List.map_cons, GenericParameter.argument]
    cases hp : p.isLifetime with
    | true =>
      cases begun with
      | true => simp [hp] at hfirst
      | false =>
        simp only [Bool.false_eq_true, if_false, List.dropWhile_cons, hp, if_true] at hfirst
        exact ih hrest (by simpa using hfirst)
    | false =>
      have htry : p.name ≠ "try" := ne_of_not_isReserved (hname hp) (by decide)
      have hothers : rest.all (!·.isLifetime) = true := by
        cases begun with
        | true => simpa [hp] using hfirst
        | false => simpa [List.dropWhile_cons, hp] using hfirst
      show ((p.name != "try" && true) && true && Argument.allPlain true (rest.map GenericParameter.argument)) = true
      rw [ih hrest (by simpa using hothers), bne_iff_ne.mpr htry]
      rfl

theorem GenericParameter.IsPlain.proper_argument {p : GenericParameter} (h : p.IsPlain) : Argument.AllProper [p.argument] := by
  have hname : ∀ {name : String}, IsIdentifier name → isReserved name = false → Argument.AllProper [.type (.path (.ofName name))] := by
    intro name hname hfree
    refine ⟨⟨nofun, hname, ?_, nofun, trivial, trivial⟩, trivial⟩
    rw [isPathName, takesArguments, hfree]
    rfl
  cases h with
  | lifetime named => exact ⟨named, trivial⟩
  | type named free => exact hname named free
  | constant named free => exact hname named free

namespace Generics.IsPlain

variable {g : Generics} (h : g.IsPlain)

include h

theorem areOfPlain_arguments : g.arguments.areOfPlain = true := by
  unfold Generics.arguments
  split
  · rfl
  · exact allPlain_arguments h.parameters (by simpa using h.lifetimesFirst)

theorem proper_arguments : g.arguments.Proper := by
  unfold Generics.arguments
  split
  · trivial
  · refine ⟨fun hnone => h.ended (List.map_eq_nil_iff.mp hnone), Argument.allProper_iff.mpr ?_⟩
    exact List.forall_mem_map.mpr fun p hp => (h.parameters p hp).proper_argument

end Generics.IsPlain

end Syntax

open Syntax

/-! ## Types that are named -/

theorem tokens_pathOf (leading : Bool) (names : List String) (last : String) (arguments : Arguments) :
    (pathOf leading names last arguments).tokens = (pathOf leading names last .none).tokens ++ arguments.tokens := by
  have hlast : ∀ arguments : Arguments, (pathOf leading names last arguments).tokens =
      (if leading then Token.symbol "::" else []) ++ ((Segment.tokensOfAll (names.map (Segment.mk · .none))).flatMap (· ++ Token.symbol "::") ++
        (Token.word last :: arguments.tokens)) := by
    intro arguments
    rw [pathOf, PathExpr.tokens, Segment.tokensOfAll_eq_map, List.map_append, List.map_singleton, joinTokens_concat,
      Segment.tokensOfAll_eq_map]
    rfl
  rw [hlast arguments, hlast .none, Arguments.tokens]
  simp only [List.append_assoc, List.cons_append, List.nil_append]

/-- The names of a type that may have parameters. -/
structure TypeName where
  leading : Bool
  names : List String
  last : String

namespace TypeName

/-- The type with the given arguments. -/
def passed (t : TypeName) (arguments : Arguments) : PathExpr := pathOf t.leading t.names t.last arguments

structure IsPlain (t : TypeName) : Prop where
  names : ∀ name ∈ t.names, IsPlainName name
  last : IsPlainName t.last
  takes : takesArguments t.last = true

variable {t : TypeName}

theorem passed_none (t : TypeName) : t.passed .none = .ofNames t.leading (t.names ++ [t.last]) := by
  rw [passed, pathOf, PathExpr.ofNames, List.map_append, List.map_singleton]

theorem IsPlain.isBare (h : t.IsPlain) : (t.passed .none).IsBare := by
  refine ⟨t.leading, t.names ++ [t.last], by simp, fun name hn => ?_, t.passed_none⟩
  rcases List.mem_append.mp hn with hn | hn
  · exact h.names name hn
  · rw [List.mem_singleton.mp hn]
    exact h.last

/-- A type whose arguments are its own parameters is plain. -/
theorem IsPlain.passed_parameters (h : t.IsPlain) {g : Generics} (hg : g.IsPlain) :
    (t.passed g.arguments).isOfPlain = true ∧ (t.passed g.arguments).Proper := by
  refine ⟨isOfPlain_pathOf.mpr ⟨fun name hn => (h.names name hn).2.2, h.last.2.2, hg.areOfPlain_arguments⟩, ?_⟩
  refine proper_pathOf.mpr ⟨fun name hn => ⟨(h.names name hn).1, (h.names name hn).2.1⟩, ?_, hg.proper_arguments⟩
  exact ⟨h.last.1, h.last.2.1, fun _ => h.takes⟩

theorem tokens_passed_parameters (t : TypeName) (g : Generics) :
    (t.passed g.arguments).tokens = (t.passed .none).tokens ++ g.argumentTokens := by
  rw [g.argumentTokens_eq]
  exact tokens_pathOf _ _ _ _

end TypeName

theorem globalPath_eq (names : List String) (hne : names ≠ []) : Fragment.globalPath names = (PathExpr.ofNames true names).tokens := by
  obtain ⟨first, others, rfl⟩ := List.exists_cons_of_ne_nil hne
  rw [PathExpr.ofNames, List.map_cons, PathExpr.tokens_cons, Fragment.globalPath, List.flatMap_cons, List.flatMap_map]
  rfl

/-- The type of a result that may be a build error. -/
def resultType (value : TypeExpr) : TypeExpr :=
  .path (pathOf true ["core", "result"] "Result"
    (.angled false [.type value, .type (.path (.ofNames true ["buildergen", "BuildError"]))] false))

theorem isPlain_resultType {value : TypeExpr} (hplain : value.isPlain = true) (hproper : value.Proper) :
    (resultType value).isPlain = true ∧ (resultType value).Proper := by
  have harguments : Argument.allPlain false [.type value, .type (.path (.ofNames true ["buildergen", "BuildError"]))] = true := by
    show (value.isPlain && _) = true
    rw [hplain]
    decide
  have hbuildError : (PathExpr.ofNames true ["buildergen", "BuildError"]).IsBare := ⟨true, _, List.cons_ne_nil _ _, by decide, rfl⟩
  refine ⟨isOfPlain_pathOf.mpr ⟨by decide, by decide, harguments⟩, proper_pathOf.mpr ⟨by decide, ?_, nofun, hproper, ?_, trivial⟩⟩
  · exact ⟨by decide, by decide, fun _ => by decide⟩
  · exact hbuildError.proper

theorem tokens_resultType {value : TypeExpr} (hplain : value.isPlain = true) :
    (resultType value).tokens = Fragment.resultOf value.tokens := by
  have harguments : Argument.allPlain false [.type value, .type (.path (.ofNames true ["buildergen", "BuildError"]))] = true := by
    show (value.isPlain && _) = true
    rw [hplain]
    decide
  show (pathOf true ["core", "result"] "Result" _).tokens = _
  rw [tokens_pathOf, angled_tokens _ _ harguments]
  rfl

/-! ## The marker -/

namespace Syntax

open BuilderSynthesis.Syntax.Parser

namespace Read

/-- A function without parameters that returns something, as a type. -/
def returning (ts : List Token) : List Token :=
  Token.word "fn" :: .enclosed .parenthesis [] :: (Token.symbol "->" ++ ts)

theorem exists_of_returning {ts us : List Token} (hu : Token.AllAgree (returning ts) us) :
    ∃ pos opensAt closesAt rest, us = .ident "fn" pos :: .group .parenthesis [] opensAt closesAt :: rest := by
  obtain ⟨v, vs, rfl, hv, hvs⟩ := Token.AllAgree.of_cons hu
  obtain ⟨pos, rfl⟩ := hv.of_ident
  obtain ⟨w, ws, rfl, hw, -⟩ := hvs.of_cons
  obtain ⟨inner, opensAt, closesAt, rfl, hinner⟩ := hw.of_group
  obtain rfl := hinner.of_nil
  exact ⟨pos, opensAt, closesAt, ws, rfl⟩

def isFunction : TypeExpr → Bool
  | .function .. => true
  | _ => false

section

variable {g : Grammar} {ts : List Token} {next : List Token → Bool}

/-- The type of a function that returns what a deeper grammar reads. -/
theorem makes_functionType (h : Makes Token.AllAgree (g.type false) ts next fun _ => True) :
    Makes Token.AllAgree (functionType g []) (returning ts) next (isFunction · = true) := by
  have hwords : Makes Token.AllAgree (tokensOf (do
      discard (word? "unsafe")
      abi?
      word "fn")) [Token.word "fn"] (fun _ => true) fun _ => True := by
    intro us more s hu _ hs
    obtain ⟨pos, rfl⟩ := exists_of_word hu
    obtain ⟨_, closesAt, within, leftover, written⟩ := s
    obtain rfl := hs
    exact ⟨_, _, trivial, rfl⟩
  refine Makes.bind hwords (fun introduction _ => ?_) fun _ _ => rfl
  have hinputs : Makes Token.AllAgree (functionTypeInputs g) [] List.isEmpty fun _ => True := by
    intro us more s hu hm hs
    obtain ⟨_, closesAt, within, leftover, written⟩ := s
    rw [hu.of_nil, List.isEmpty_iff.mp hm] at hs
    obtain rfl := hs
    exact ⟨_, [], trivial, by rw [List.isEmpty_iff.mp hm]; rfl⟩
  refine Makes.bind (Makes.inside hinputs : Makes _ _ [_] (fun _ => true) _) (fun inputs _ => ?_) fun _ _ => rfl
  have hreturn : Makes Token.AllAgree (returnType g false) (Token.symbol "->" ++ ts) next fun _ => True :=
    makes_marked (by decide) (Makes.bind_nil h fun _ _ => reads_pure trivial)
  exact Makes.bind_nil hreturn fun output _ => reads_pure rfl

theorem makes_typeOfFunction (allowPlus : Bool) (h : Makes Token.AllAgree (g.type false) ts next fun _ => True) :
    Makes Token.AllAgree (type g allowPlus) (returning ts) next (isFunction · = true) := by
  have hbody : Makes Token.AllAgree (typeBody g allowPlus) (returning ts) next (isFunction · = true) := by
    refine (makes_functionType h).congr fun hu _ hs => ?_
    obtain ⟨pos, opensAt, closesAt, rest, rfl⟩ := exists_of_returning hu
    rw [run_typeBody g allowPlus (by rw [hs]; rfl), hs]
    rfl
  exact (Reads.writtenBy hbody).imp fun ⟨⟨_, h⟩, _⟩ => h

/-- The type of a function as an argument. -/
theorem makes_functionArgument (h : Makes Token.AllAgree (g.type true) (returning ts) next (isFunction · = true)) :
    Makes Token.AllAgree (genericArgument g) (returning ts) next fun _ => True := by
  refine reads_sees false (fun hu _ => ?_) (reads_ignored (fun s => ⟨_, run_seesSecond _ s⟩) fun summed =>
    reads_seesAny false (fun hu _ => ?_) ?_)
  · obtain ⟨pos, opensAt, closesAt, rest, rfl⟩ := exists_of_returning hu
    rfl
  · obtain ⟨pos, opensAt, closesAt, rest, rfl⟩ := exists_of_returning hu
    rfl
  refine Makes.bind_nil h fun type ht => ?_
  cases type with
  | function => exact reads_pure trivial
  | _ => cases ht

/-- The type of a function in angle brackets. -/
def passing (ts : List Token) : List Token := Token.symbol "<" ++ (returning ts ++ Token.symbol ">")

theorem exists_of_passing {us : List Token} (hu : Token.AllAgree (passing ts) us) :
    ∃ joint pos fnAt rest, us = .punct '<' joint pos :: .ident "fn" fnAt :: rest := by
  obtain ⟨joint, pos, vs, rfl, hvs⟩ := Token.AllAgree.of_symbol hu '<' rfl
  obtain ⟨ws, xs, rfl, hw, -⟩ := hvs.of_append
  obtain ⟨fnAt, opensAt, closesAt, rest, rfl⟩ := exists_of_returning hw
  exact ⟨joint, pos, fnAt, _, rfl⟩

theorem makes_functionArguments (h : Makes Token.AllAgree (genericArgument g) (returning ts) endsArgument fun _ => True) :
    Makes Token.AllAgree (angledArguments g) (passing ts) next fun _ => True := by
  refine reads_unmarked (fun hu _ => ?_) ?_
  · obtain ⟨joint, pos, fnAt, rest, rfl⟩ := exists_of_passing hu
    rfl
  refine Makes.bind (copies_mark "<" (by decide) : Copies _ _ _ (fun _ => true) _).makes (fun _ _ => ?_) fun _ _ => rfl
  have hstart : ∀ t ∈ [ts], ∀ {us more : List Token}, Token.AllAgree (returning t) us → (Expected.mark ">").stands (us ++ more) = false := by
    refine List.forall_mem_singleton.mpr fun hu => ?_
    obtain ⟨fnAt, opensAt, closesAt, rest, rfl⟩ := exists_of_returning hu
    rfl
  have hlist : Makes Token.AllAgree (separatedUntil (sees (.mark ">")) (mark ",") (genericArgument g)) (commas false [returning ts])
      (Expected.mark ">").stands fun read => List.Forall₂ (fun _ _ => True) [ts] read.1 ∧ read.2 = false :=
    makes_separatedUntil (run_sees _) (fun hm => hm) rfl hstart (List.forall_mem_singleton.mpr h) nofun
  rw [show commas false [returning ts] = returning ts from List.append_nil _] at hlist
  refine Makes.bind hlist (fun arguments _ => ?_) fun hu _ => stands_symbol (by decide) hu _
  exact Makes.bind_nil (copies_mark ">" (by decide)).makes fun _ _ => reads_pure trivial

/-- A name with the type of a function in angle brackets. -/
theorem makes_functionSegment {name : String} (hname : isReserved name = false)
    (h : Makes Token.AllAgree (genericArgument g) (returning ts) endsArgument fun _ => True) :
    Makes Token.AllAgree (segment g false) (Token.word name :: passing ts) next fun _ => True := by
  have hwords : ∀ word ∈ ["try", "self", "super", "crate", "Self"], (name == word) = false := fun word hw =>
    beq_eq_false_iff_ne.mpr (ne_of_not_isReserved hname ((by decide : ∀ word ∈ ["try", "self", "super", "crate", "Self"],
      isReserved word = true) word hw))
  refine reads_seesAny false (fun hu _ => ?_) ?_
  · obtain ⟨v, vs, rfl, hv, -⟩ := Token.AllAgree.of_cons hu
    obtain ⟨pos, rfl⟩ := hv.of_ident
    exact Bool.eq_false_iff.mpr fun hs => by
      have hmem := mem_of_word_stands ["try", "self", "super", "crate"] hs
      exact absurd (beq_iff_eq.mpr rfl) (Bool.eq_false_iff.mp (hwords name (List.mem_append_left ["Self"] hmem)))
  have hidentifier : Makes Token.AllAgree (do if ← sees (.word "Self") then anyWord else identifier) [Token.word name] (fun _ => true)
      (· = name) := by
    refine reads_sees false (fun hu _ => ?_) (takes_identifier hname)
    obtain ⟨pos, rfl⟩ := exists_of_word hu
    exact hwords "Self" (by decide)
  refine Makes.bind hidentifier (fun found hfound => ?_) fun _ _ => rfl
  subst hfound
  refine reads_seesBut true (fun hu _ => ?_) ?_
  · obtain ⟨joint, pos, fnAt, rest, rfl⟩ := exists_of_passing hu
    cases joint <;> rfl
  refine reads_ignored (fun s => ⟨_, run_sees _ s⟩) fun _ => reads_ignored (fun s => ⟨_, run_seesThird _ s⟩) fun _ => ?_
  exact Makes.bind_nil (makes_functionArguments h) fun _ _ => reads_pure trivial

theorem makes_nameSegment {name : String} (hname : IsPlainName name) :
    Makes Token.AllAgree (segment g false) [Token.word name] endsName fun _ => True := by
  have hg : Rereads g 0 := fun _ _ _ _ hsize => absurd hsize (Nat.not_lt_zero _)
  have hread : Takes Token.AllAgree (segment g false) [Token.word name] endsName (.mk name .none) :=
    takes_segment hg (rfl : Arguments.none.areOfPlain = true) ⟨hname.1, hname.2.1, nofun, trivial, trivial⟩ (Nat.zero_le _) nofun
  exact hread.imp fun _ => trivial

/-- Below names from the root, a name with the type of a function in angle brackets. -/
def markerTokens (first : String) (names : List String) (last : String) (ts : List Token) : List Token :=
  Token.symbol "::" ++ ([Token.word first] ++
    (names.map ([Token.word ·]) ++ [Token.word last :: passing ts]).flatMap (Token.symbol "::" ++ ·))

theorem makes_markerPath {first : String} {names : List String} {last : String} (hfirst : IsPlainName first)
    (hnames : ∀ name ∈ names, IsPlainName name) (hlast : isReserved last = false)
    (h : Makes Token.AllAgree (genericArgument g) (returning ts) endsArgument fun _ => True) :
    Makes Token.AllAgree (pathBody g false) (markerTokens first names last ts) endsPath fun _ => True := by
  have hsegment : ∀ part ∈ names.map ([Token.word ·]) ++ [Token.word last :: passing ts],
      (∃ name others, part = Token.word name :: others) ∧ Makes Token.AllAgree (segment g false) part endsName fun _ => True := by
    intro part hp
    rcases List.mem_append.mp hp with hp | hp
    · obtain ⟨name, hn, rfl⟩ := List.mem_map.mp hp
      exact ⟨⟨name, [], rfl⟩, makes_nameSegment (hnames name hn)⟩
    · rw [List.mem_singleton.mp hp]
      exact ⟨⟨last, _, rfl⟩, makes_functionSegment hlast h⟩
  have hshape : ∀ part ∈ names.map ([Token.word ·]) ++ [Token.word last :: passing ts], ∀ {us : List Token},
      Token.AllAgree (Token.symbol "::" ++ part) us →
        ∃ pos joint next name namePos rest, us = .punct ':' true pos :: .punct ':' joint next :: .ident name namePos :: rest := by
    intro part hp us hu
    obtain ⟨⟨name, others, rfl⟩, -⟩ := hsegment part hp
    obtain ⟨pos, joint, next, vs, rfl, hvs⟩ := hu.of_symbol_pair ':' ':' rfl
    obtain ⟨w, ws, rfl, hw, -⟩ := Token.AllAgree.of_cons hvs
    obtain ⟨namePos, rfl⟩ := hw.of_ident
    exact ⟨pos, joint, next, name, namePos, ws, rfl⟩
  have hseen : ∀ s, (do pure ((← sees (.mark "::")) && !(← seesThird (.group .parenthesis)))) s =
      .ok (continuesPath s.rest, s) := fun _ => rfl
  have hothers : Makes Token.AllAgree
      (whileSeen (do pure ((← sees (.mark "::")) && !(← seesThird (.group .parenthesis)))) (do mark "::"; segment g false))
      ((names.map ([Token.word ·]) ++ [Token.word last :: passing ts]).flatMap (Token.symbol "::" ++ ·)) endsPath fun _ => True := by
    refine (reads_whileSeen endsName hseen (fun hm => ⟨?_, endsName_of_endsPath hm⟩) (fun part hp us more hu => ?_)
      (fun part hp => (?_ : Makes _ _ _ _ fun _ => True)) fun part hp => ?_).imp fun _ => trivial
    · rw [continuesPath, (not_stands_of_endsPath hm).2]
      rfl
    · obtain ⟨pos, joint, next, name, namePos, rest, rfl⟩ := hshape part hp hu
      exact ⟨rfl, rfl⟩
    · exact Makes.bind (copies_mark "::" (by decide) : Copies _ _ _ (fun _ => true) _).makes (fun _ _ => (hsegment part hp).2)
        fun _ _ => rfl
    · exact List.cons_ne_nil _ _
  refine makes_marked (by decide) (Makes.bind (makes_nameSegment hfirst) (fun _ _ => ?_) fun hu hm => ?_)
  · exact Makes.bind_nil hothers fun _ _ => reads_pure trivial
  · cases hparts : names.map ([Token.word ·]) ++ [Token.word last :: passing ts] with
    | nil => simp at hparts
    | cons part rest =>
      rw [hparts, List.flatMap_cons] at hu
      obtain ⟨vs, ws, rfl, hv, -⟩ := hu.of_append
      obtain ⟨pos, joint, next, name, namePos, others, rfl⟩ := hshape part (hparts ▸ List.mem_cons_self) hv
      rfl

/-- Below names from the root, a name with the type of a function as its argument is a type. -/
theorem makes_markerType {first : String} {names : List String} {last : String} (hfirst : IsPlainName first)
    (hnames : ∀ name ∈ names, IsPlainName name) (hlast : isReserved last = false)
    (h : Makes Token.AllAgree (genericArgument g) (returning ts) endsArgument fun _ => True) :
    Makes Token.AllAgree (type g true) (markerTokens first names last ts) endsType fun _ => True := by
  have hstart : ∀ {us : List Token}, Token.AllAgree (markerTokens first names last ts) us →
      ∃ pos joint next rest, us = .punct ':' true pos :: .punct ':' joint next :: rest := by
    intro us hu
    obtain ⟨pos, joint, next, rest, rfl, -⟩ := Token.AllAgree.of_symbol_pair hu ':' ':' rfl
    exact ⟨pos, joint, next, rest, rfl⟩
  have hqualified : Makes Token.AllAgree (qualifiedPath g false) (markerTokens first names last ts) endsType
      fun t => ∃ path, t = .path path := by
    have hbody : Makes Token.AllAgree (TypeExpr.path <$> pathBody g false) (markerTokens first names last ts) endsType
        fun t => ∃ path, t = .path path :=
      Makes.map _ ((makes_markerPath hfirst hnames hlast h).mono fun _ => endsPath_of_endsType) fun path _ => ⟨path, rfl⟩
    refine (Reads.writtenBy (reads_sees false (fun hu _ => ?_) hbody)).imp fun ⟨⟨_, h⟩, _⟩ => h
    obtain ⟨pos, joint, next, rest, rfl⟩ := hstart hu
    rfl
  have hpath : Makes Token.AllAgree (pathType g true []) (markerTokens first names last ts) endsType fun _ => True := by
    refine Makes.bind_nil hqualified fun t ht => ?_
    obtain ⟨path, rfl⟩ := ht
    refine reads_seesBut false (fun hu hm => ?_) ?_
    · rw [hu.of_nil, List.nil_append, not_stands_of_endsType (by decide) hm]
      rfl
    rw [Bool.false_and, if_neg Bool.false_ne_true]
    refine reads_sees false (fun hu hm => ?_) (reads_pure trivial)
    rw [hu.of_nil, List.nil_append, not_stands_of_endsType (by decide) hm]
  have hbody : Makes Token.AllAgree (typeBody g true) (markerTokens first names last ts) endsType fun _ => True := by
    refine hpath.congr fun hu _ hs => ?_
    obtain ⟨pos, joint, next, rest, rfl⟩ := hstart hu
    refine typeBody_of_path (by rw [hs]; rfl) (fun e he => ?_) (by rw [hs]; rfl)
    rw [hs]
    simp only [List.mem_cons, List.not_mem_nil, or_false] at he
    rcases he with rfl | rfl | rfl | rfl | rfl <;> rfl
  exact (Reads.writtenBy hbody).imp fun _ => trivial

end

end Read

end Syntax

open BuilderSynthesis.Syntax.Parser

/-- The type of the marker of a builder: nothing of a function that returns the built struct. -/
def markerType (type : List Token) : List Token :=
  Pieces.phantom ++ Fragment.angled (Fragment.words ["fn"] ++ Fragment.parens [] ++ Token.symbol "->" ++ type)

theorem markerType_eq (type : List Token) : markerType type = Read.markerTokens "core" ["marker"] "PhantomData" type := by
  simp [markerType, Pieces.phantom, Fragment.globalPath, Fragment.angled, Fragment.words, Fragment.parens, Read.markerTokens,
    Read.passing, Read.returning]

theorem makes_markerType {type : TypeExpr} (hplain : type.isPlain = true) (hproper : type.Proper) {depth : Nat}
    (hsize : Token.sizes type.tokens < depth) :
    Makes Token.AllMatch ((grammar (depth + 3)).type true) (markerType type.tokens) endsType fun _ => True := by
  have hreturned : Makes Token.AllAgree ((grammar (depth + 1)).type false) type.tokens endsType fun _ => True :=
    Reads.imp (rereads_grammar depth false type hplain hproper hsize) fun _ => trivial
  have hfunction : Makes Token.AllAgree (Read.genericArgument (grammar (depth + 2))) (Read.returning type.tokens) endsArgument fun _ => True :=
    (Read.makes_functionArgument (Read.makes_typeOfFunction true hreturned)).mono fun _ => endsType_of_endsArgument
  rw [markerType_eq]
  exact Reads.of_agree (Read.makes_markerType (by decide) (by decide) (by decide) hfunction)

end BuilderSynthesis
