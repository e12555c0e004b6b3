/-
  BuilderSynthesis.Proofs.ReadTypes — what is true of every type that is read.

  The names in it are names of paths, lifetimes have an identifier behind their mark, a tuple of one
  ends in a comma and an empty list never does (`TypeExpr.Proper`). Types are read by one layer of the
  grammar over another, so one layer keeps this (`gives_properTypeBody`) and an induction on the depth
  gives it for all of them (`proper_of_readType`).
-/

import BuilderSynthesis.Proofs.Rereading
import BuilderSynthesis.Syntax.Text

namespace BuilderSynthesis.Syntax

open BuilderSynthesis.Syntax.Parser

/-- The name may be followed by arguments. -/
def takesArguments (name : String) : Bool := !isReserved name || name == "Self"

def isPathName (name : String) : Bool := takesArguments name || ["try", "self", "super", "crate"].contains name

def IsLifetime (name : String) : Prop := ∃ rest, name = "'" ++ rest ∧ IsIdentifier rest

mutual

/-- What holds of every type that has been read: its names are names of paths, and a comma ends a
tuple of one. -/
def TypeExpr.Proper : TypeExpr → Prop
  | .array element _ => element.Proper
  | .slice element => element.Proper
  | .tuple elements trailing =>
    (elements = [] → trailing = false) ∧ (elements.length = 1 → trailing = true) ∧ TypeExpr.AllProper elements
  | .paren inner => inner.Proper
  | .pointer _ target => target.Proper
  | .reference lifetime _ referent => (∀ name ∈ lifetime, IsLifetime name) ∧ referent.Proper
  | .path path => path.Proper
  | .qualified subject asTrait rest =>
    subject.Proper ∧ (match asTrait with | some path => path.Proper | none => True) ∧ rest ≠ [] ∧ Segment.AllProper rest
  | _ => True

def TypeExpr.AllProper : List TypeExpr → Prop
  | [] => True
  | type :: rest => type.Proper ∧ TypeExpr.AllProper rest

def PathExpr.Proper : PathExpr → Prop
  | .mk _ segments => segments ≠ [] ∧ Segment.AllProper segments

def Segment.AllProper : List Segment → Prop
  | [] => True
  | .mk name arguments :: rest =>
    IsIdentifier name ∧ isPathName name = true ∧ (arguments.isNone = false → takesArguments name = true) ∧
      arguments.Proper ∧ Segment.AllProper rest

def Arguments.Proper : Arguments → Prop
  | .angled _ arguments trailing => (arguments = [] → trailing = false) ∧ Argument.AllProper arguments
  | _ => True

def Argument.AllProper : List Argument → Prop
  | [] => True
  | .lifetime name :: rest => IsLifetime name ∧ Argument.AllProper rest
  | .type type :: rest => type.Proper ∧ Argument.AllProper rest
  | .binding name generics value :: rest =>
    (IsIdentifier name ∧ isPathName name = true ∧ (generics.isNone = false → takesArguments name = true) ∧
      generics.Proper) ∧ value.Proper ∧ Argument.AllProper rest
  | _ :: rest => Argument.AllProper rest

end

theorem TypeExpr.proper_qualified {subject : TypeExpr} {asTrait : Option PathExpr} {rest : List Segment} :
    (TypeExpr.qualified subject asTrait rest).Proper ↔
      subject.Proper ∧ (∀ path ∈ asTrait, path.Proper) ∧ rest ≠ [] ∧ Segment.AllProper rest := by
  cases asTrait <;> simp [TypeExpr.Proper]

theorem Argument.allProper_cons {a : Argument} {rest : List Argument} :
    Argument.AllProper (a :: rest) ↔ Argument.AllProper [a] ∧ Argument.AllProper rest := by
  cases a <;> simp [Argument.AllProper, and_assoc]

theorem Segment.allProper_cons {s : Segment} {rest : List Segment} :
    Segment.AllProper (s :: rest) ↔ Segment.AllProper [s] ∧ Segment.AllProper rest := by
  obtain ⟨name, arguments⟩ := s
  simp [Segment.AllProper, and_assoc]

theorem Argument.allProper_iff {as : List Argument} : Argument.AllProper as ↔ ∀ a ∈ as, Argument.AllProper [a] := by
  induction as with
  | nil => simp [Argument.AllProper]
  | cons a rest ih => rw [Argument.allProper_cons, ih, List.forall_mem_cons]

theorem Segment.allProper_iff {ss : List Segment} : Segment.AllProper ss ↔ ∀ s ∈ ss, Segment.AllProper [s] := by
  induction ss with
  | nil => simp [Segment.AllProper]
  | cons s rest ih => rw [Segment.allProper_cons, ih, List.forall_mem_cons]

theorem TypeExpr.allProper_iff {ts : List TypeExpr} : TypeExpr.AllProper ts ↔ ∀ t ∈ ts, t.Proper := by
  induction ts with
  | nil => simp [TypeExpr.AllProper]
  | cons t rest ih => rw [TypeExpr.AllProper, ih, List.forall_mem_cons]

namespace Parser

variable {α : Type} {valid : String → Prop}

/-- Items that are read until a test holds; without items there is no separator at their end. -/
theorem GivesOf.separatedUntil {stop : Parser Bool} {separator : Parser Unit} {p : Parser α} {holds : α → Prop}
    (hp : GivesOf valid p holds) :
    GivesOf valid (separatedUntil stop separator p) fun read => (read.1 = [] → read.2 = false) ∧ ∀ a ∈ read.1, holds a := by
  have hstep : ∀ read : List α × Bool, ((read.1 = [] → read.2 = false) ∧ ∀ a ∈ read.1, holds a) →
      GivesOf valid (separatedStep stop separator p read)
        (TurnHolds (fun read : List α × Bool => (read.1 = [] → read.2 = false) ∧ ∀ a ∈ read.1, holds a)
          fun read : List α × Bool => (read.1 = [] → read.2 = false) ∧ ∀ a ∈ read.1, holds a) := by
    rintro ⟨read, before⟩ ⟨hempty, hall⟩
    have hmore : ∀ a, holds a → ∀ b ∈ a :: read, holds b := by
      intro a ha b hb
      rcases List.mem_cons.mp hb with rfl | hb
      · exact ha
      · exact hall b hb
    refine gives_bind fun ended => gives_ite (gives_pure ⟨?_, ?_⟩) (hp.bind fun a ha => gives_bind fun last => ?_)
    · exact fun he => hempty (List.reverse_eq_nil_iff.mp he)
    · exact fun b hb => hall b (List.mem_reverse.mp hb)
    · refine gives_ite (gives_pure ⟨fun _ => rfl, fun b hb => hmore a ha b (List.mem_reverse.mp hb)⟩) ?_
      exact gives_bind fun _ => gives_pure ⟨fun he => absurd he (List.cons_ne_nil _ _), hmore a ha⟩
  exact gives_loop hstep ⟨fun _ => rfl, fun a ha => by cases ha⟩

theorem GivesOf.map {β : Type} {p : Parser α} {f : α → β} {first : α → Prop} {holds : β → Prop}
    (hp : GivesOf valid p first) (h : ∀ a, first a → holds (f a)) : GivesOf valid (f <$> p) holds :=
  hp.bind fun a ha => gives_pure (h a ha)

theorem GivesOf.and {p : Parser α} {first second : α → Prop} (hf : GivesOf valid p first) (hs : GivesOf valid p second) :
    GivesOf valid p fun a => first a ∧ second a := fun _ _ _ hv h => ⟨hf hv h, hs hv h⟩

theorem gives_lifetime : GivesOf IsIdentifier lifetime IsLifetime := by
  intro s name after hs h
  unfold lifetime inspect at h
  simp only at h
  split at h
  · rename_i pos found namePos rest hr
    cases h
    rw [hr] at hs
    exact ⟨found, rfl, hs.2.1⟩
  · exact absurd h fail_ne_ok

/-- What is read as an identifier is not reserved. -/
theorem gives_unreserved : GivesOf valid identifier fun name => isReserved name = false := by
  intro s name after _ h
  obtain ⟨pos, -, -, hfree⟩ := identifier_eq_ok h
  exact hfree

end Parser

namespace Read

variable (g : Grammar)

/-- The types of a grammar are proper. -/
def Proper : Prop := ∀ allowPlus, GivesOf IsIdentifier (g.type allowPlus) TypeExpr.Proper

variable {g}

theorem gives_properNamed (hg : Proper g) {name : String} {arguments : Arguments}
    (h : Segment.AllProper [.mk name arguments]) :
    GivesOf IsIdentifier (namedArgument g name arguments) fun a => ∀ found ∈ a, Argument.AllProper [found] := by
  have hfound : ∀ {a : Argument}, Argument.AllProper [a] →
      GivesOf IsIdentifier (pure (some a)) fun a : Option Argument => ∀ found ∈ a, Argument.AllProper [found] :=
    fun ha => gives_pure fun found hf => Option.mem_some.mp hf ▸ ha
  obtain ⟨hname, hpath, htakes, harguments, -⟩ := h
  refine gives_bind fun equals => gives_ite (gives_bind fun constant => gives_ite ?_ ?_) (gives_bind fun colon => ?_)
  · exact gives_bind fun value => hfound trivial
  · exact (hg true).bind fun value hv => hfound ⟨⟨hname, hpath, htakes, harguments⟩, hv, trivial⟩
  · refine gives_ite (gives_bind fun ⟨list, trailing⟩ => hfound trivial) (gives_pure fun found hf => ?_)
    cases hf

theorem gives_properArgument (hg : Proper g) : GivesOf IsIdentifier (genericArgument g) fun a => Argument.AllProper [a] := by
  have htype : ∀ {t : TypeExpr}, t.Proper → GivesOf IsIdentifier (pure (.type t)) fun a => Argument.AllProper [a] :=
    fun ht => gives_pure ⟨ht, trivial⟩
  refine gives_bind fun isLifetime => gives_bind fun summed => gives_ite ?_ (gives_bind fun constant => gives_ite ?_ ?_)
  · exact gives_lifetime.map fun name hn => ⟨hn, trivial⟩
  · exact (gives_true _).map fun value _ => trivial
  · refine (hg true).bind fun type ht => ?_
    split
    · split
      · exact htype ht
      · refine (gives_properNamed hg ht.2).bind fun found hf => gives_pure ?_
        cases found with
        | none => exact ⟨ht, trivial⟩
        | some a => exact hf a rfl
    · exact htype ht

theorem gives_properAngled (hg : Proper g) : GivesOf IsIdentifier (angledArguments g) Arguments.Proper := by
  refine gives_bind fun turbofish => gives_bind fun _ => (gives_properArgument hg).separatedUntil.bind ?_
  rintro ⟨arguments, trailing⟩ ⟨hempty, hall⟩
  exact gives_bind fun _ => gives_pure ⟨hempty, Argument.allProper_iff.mpr hall⟩

/-- A word that stands at the front of what is read. -/
theorem mem_of_word_stands (words : List String) {name : String} {pos : Position} {rest : List Token}
    (h : (words.map Expected.word).any (·.stands (.ident name pos :: rest)) = true) : name ∈ words := by
  obtain ⟨e, he, hs⟩ := List.any_eq_true.mp h
  obtain ⟨word, hw, rfl⟩ := List.mem_map.mp he
  exact beq_iff_eq.mp (show (name == word) = true from hs) ▸ hw

theorem gives_anyWord_of_words (words : List String) (holds : String → Prop) (h : ∀ name ∈ words, holds name)
    {s : Stream} (hs : (words.map Expected.word).any (·.stands s.rest) = true) {name : String} {after : Stream}
    (hname : anyWord s = .ok (name, after)) : holds name := by
  obtain ⟨pos, hr, -⟩ := anyWord_eq_ok hname
  rw [hr] at hs
  exact h name (mem_of_word_stands words hs)

theorem gives_properSegment (hg : Proper g) (amongExpressions : Bool) :
    GivesOf IsIdentifier (segment g amongExpressions) fun s => Segment.AllProper [s] := by
  have hplain : GivesOf IsIdentifier (do if ← sees (.word "Self") then anyWord else identifier)
      fun name => IsIdentifier name ∧ takesArguments name = true := by
    refine .and (gives_bind fun self => gives_ite gives_anyWord gives_identifier) fun s name after hs h => ?_
    obtain ⟨self, _, hlook, h⟩ := bind_eq_ok h
    cases hlook
    split at h
    · rename_i hself
      exact gives_anyWord_of_words ["Self"] (fun name => takesArguments name = true) (by decide) (by simpa using hself) h
    · rw [takesArguments, gives_unreserved hs h]
      rfl
  intro s found after hs h
  obtain ⟨isWord, _, hlook, h⟩ := bind_eq_ok h
  cases hlook
  split at h
  · rename_i hword
    obtain ⟨name, middle, hname, h⟩ := bind_eq_ok h
    cases h
    have hpath : isPathName name = true :=
      gives_anyWord_of_words ["try", "self", "super", "crate"] (fun name => isPathName name = true) (by decide) hword hname
    exact ⟨gives_anyWord hs hname, hpath, fun hnone => absurd hnone (by decide), trivial, trivial⟩
  · refine (hplain.bind fun name hn => ?_ : GivesOf IsIdentifier _ fun s => Segment.AllProper [s]) hs h
    have hsegment : ∀ {arguments : Arguments}, arguments.Proper → Segment.AllProper [.mk name arguments] := fun ha =>
      ⟨hn.1, by rw [isPathName, hn.2]; rfl, fun _ => hn.2, ha, trivial⟩
    refine gives_bind fun angled => gives_bind fun separated => gives_bind fun opened => gives_ite ?_ ?_
    · exact (gives_properAngled hg).bind fun arguments ha => gives_pure (hsegment ha)
    · exact gives_pure (hsegment trivial)

theorem gives_properPathBody (hg : Proper g) (amongExpressions : Bool) :
    GivesOf IsIdentifier (pathBody g amongExpressions) PathExpr.Proper := by
  refine gives_bind fun leading => (gives_properSegment hg amongExpressions).bind fun first hfirst => ?_
  have hother : GivesOf IsIdentifier (do mark "::"; segment g amongExpressions) fun s => Segment.AllProper [s] :=
    gives_bind fun _ => gives_properSegment hg amongExpressions
  refine hother.whileSeen.bind fun others hothers => gives_pure ⟨List.cons_ne_nil _ _, ?_⟩
  exact Segment.allProper_iff.mpr (List.forall_mem_cons.mpr ⟨hfirst, hothers⟩)

theorem GivesOf.writtenBy {α : Type} {tokens : α → List Token} {p : Parser α} {holds : α → Prop} {valid : String → Prop}
    (hp : GivesOf valid p holds) : GivesOf valid (writtenBy tokens p) holds :=
  hp.captured.bind fun _ hread => gives_bind fun _ => gives_pure hread

theorem gives_properPath (hg : Proper g) (amongExpressions : Bool) :
    GivesOf IsIdentifier (path g amongExpressions) PathExpr.Proper :=
  GivesOf.writtenBy (gives_properPathBody hg amongExpressions)

theorem gives_properQualified (hg : Proper g) (amongExpressions : Bool) :
    GivesOf IsIdentifier (qualifiedPath g amongExpressions) TypeExpr.Proper := by
  have hasTrait : GivesOf IsIdentifier (do if ← word? "as" then some <$> path g false else pure none)
      fun asTrait => ∀ path ∈ asTrait, path.Proper := by
    refine gives_bind fun seen => gives_ite ((gives_properPath hg false).map fun path hp => ?_) (gives_pure ?_)
    · exact fun found hf => Option.mem_some.mp hf ▸ hp
    · exact fun found hf => by cases hf
  have hother : GivesOf IsIdentifier (do mark "::"; segment g amongExpressions) fun s => Segment.AllProper [s] :=
    gives_bind fun _ => gives_properSegment hg amongExpressions
  refine GivesOf.writtenBy (gives_bind fun below => gives_ite ?_ ?_)
  · refine gives_bind fun _ => (hg true).bind fun subject hsubject => hasTrait.bind fun asTrait ha => ?_
    refine gives_bind fun _ => gives_bind fun _ => (gives_properSegment hg amongExpressions).bind fun first hfirst => ?_
    refine hother.whileSeen.bind fun others hothers => gives_pure (TypeExpr.proper_qualified.mpr ?_)
    have hrest : Segment.AllProper (first :: others) :=
      Segment.allProper_iff.mpr (List.forall_mem_cons.mpr ⟨hfirst, hothers⟩)
    exact ⟨hsubject, ha, List.cons_ne_nil _ _, hrest⟩
  · exact (gives_properPathBody hg amongExpressions).map fun path hp => hp

/-- Whatever is read after a path is no plain type any more. -/
theorem gives_properPathType (hg : Proper g) (allowPlus : Bool) (bound : List Token) :
    GivesOf IsIdentifier (pathType g allowPlus bound) TypeExpr.Proper := by
  refine (gives_properQualified hg false).bind fun type ht => ?_
  split
  · refine gives_bind fun called => gives_ite ?_ (gives_bind fun summed => gives_ite ?_ (gives_pure ht))
    · exact gives_bind fun tokens => gives_pure trivial
    · exact gives_bind fun ⟨list, trailing⟩ => gives_pure trivial
  · exact gives_pure ht

theorem gives_properParenthesized (hg : Proper g) (allowPlus : Bool) :
    GivesOf IsIdentifier (parenthesized g allowPlus) TypeExpr.Proper := by
  refine @GivesOf.bind _ _ IsIdentifier _ _ (fun read : TypeExpr × Bool => read.1.Proper) _ (GivesOf.inside ?_) ?_
  · refine gives_bind fun empty => gives_ite (gives_pure ?_) (gives_bind fun lifetime => gives_ite ?_ ?_)
    · exact ⟨fun _ => rfl, nofun, trivial⟩
    · exact gives_bind fun position => gives_bind fun ⟨list, trailing⟩ => gives_pure trivial
    · refine gives_bind fun maybe => gives_ite (gives_bind fun bound => ?_) ((hg true).bind fun first hfirst => ?_)
      · split
        · exact gives_pure trivial
        · exact gives_failNoneOf
      · refine gives_bind fun comma => gives_ite (gives_bind fun _ => ?_) (gives_pure hfirst)
        refine (GivesOf.separatedUntil (hg true)).bind ?_
        rintro ⟨others, trailing⟩ ⟨-, hothers⟩
        refine gives_pure ⟨nofun, fun h => ?_, hfirst, TypeExpr.allProper_iff.mpr hothers⟩
        rw [List.length_eq_zero_iff.mp (Nat.succ.inj h)]
        rfl
  · rintro ⟨type, isOpen⟩ ht
    dsimp only
    split
    · exact gives_bind fun more => gives_pure trivial
    · refine gives_bind fun summed => gives_ite ?_ (gives_pure ht)
      split
      · exact gives_bind fun more => gives_pure trivial
      · exact gives_bind fun more => gives_pure trivial
      · exact gives_bind fun more => gives_pure trivial
      · exact gives_pure ht
    · exact gives_pure ht

theorem gives_properBracketed (hg : Proper g) : GivesOf IsIdentifier (bracketed g) TypeExpr.Proper := by
  refine GivesOf.inside ((hg true).bind fun element he => gives_bind fun semicolon => gives_ite ?_ (gives_pure he))
  exact gives_bind fun length => gives_pure he

theorem gives_properPointer (hg : Proper g) : GivesOf IsIdentifier (pointer g) TypeExpr.Proper := by
  refine gives_bind fun _ => gives_bind fun constant => gives_ite ?_ (gives_bind fun mutable => gives_ite ?_ gives_failNoneOf)
  · exact (hg false).bind fun target ht => gives_pure ht
  · exact (hg false).bind fun target ht => gives_pure ht

theorem gives_properReference (hg : Proper g) : GivesOf IsIdentifier (reference g) TypeExpr.Proper := by
  have hlifetime : GivesOf IsIdentifier lifetime? fun name => ∀ found ∈ name, IsLifetime found := by
    refine gives_bind fun stands => gives_ite (gives_lifetime.map fun name hn => ?_) (gives_pure ?_)
    · exact fun found hf => Option.mem_some.mp hf ▸ hn
    · exact fun found hf => by cases hf
  refine gives_bind fun _ => hlifetime.bind fun name hn => gives_bind fun mutable => ?_
  exact (hg false).bind fun referent hr => gives_pure ⟨hn, hr⟩

theorem gives_properTypeBody (hg : Proper g) (allowPlus : Bool) :
    GivesOf IsIdentifier (typeBody g allowPlus) TypeExpr.Proper := by
  refine gives_bind fun before => gives_bind fun bound => gives_bind fun misplaced => gives_optional fun _ => ?_
  refine gives_bind fun _ => gives_ite (gives_properParenthesized hg allowPlus) ?_
  refine gives_bind fun _ => gives_ite ?_ (gives_bind fun _ => gives_ite ?_ ?_)
  · exact gives_bind fun introduction => gives_bind fun ⟨inputs, trailing, variadic⟩ =>
      gives_bind fun output => gives_pure trivial
  · exact gives_bind fun _ => gives_bind fun rest => gives_pure trivial
  refine gives_bind fun _ => gives_ite (gives_properPathType hg allowPlus bound) ?_
  refine gives_bind fun _ => gives_ite ?_ (gives_bind fun _ => gives_ite (gives_properBracketed hg) ?_)
  · refine gives_bind fun position => gives_bind fun ⟨⟨starred, list, trailing⟩, source⟩ => ?_
    cases starred
    · exact gives_pure trivial
    · exact gives_pure trivial
  refine gives_bind fun _ => gives_ite (gives_properPointer hg) ?_
  refine gives_bind fun _ => gives_ite (gives_properReference hg) ?_
  refine gives_bind fun _ => gives_ite (gives_bind fun _ => gives_pure trivial) ?_
  refine gives_bind fun _ => gives_ite ?_ (gives_bind fun _ => gives_ite (gives_pure trivial) ?_)
  · refine gives_bind fun position => gives_bind fun _ => gives_bind fun ⟨list, trailing⟩ => ?_
    exact gives_ite (gives_bind fun _ => gives_pure trivial) (gives_pure trivial)
  refine gives_bind fun _ => gives_ite ?_ gives_failNoneOf
  exact gives_bind fun position => gives_bind fun ⟨list, trailing⟩ => gives_pure trivial

end Read

/-- Whatever the depth, what is read as a type is proper. -/
theorem proper_grammar (depth : Nat) : Read.Proper (grammar depth) := by
  induction depth with
  | zero => exact fun _ => Parser.gives_fail
  | succ depth ih => exact fun allowPlus => Read.GivesOf.writtenBy (Read.gives_properTypeBody ih allowPlus)

/-- What a reader makes of a whole text. -/
theorem holds_of_readText {α : Type} (reader : Grammar → Parser α) {holds : α → Prop} {text : String} {a : α}
    {written : List Token} (hreader : ∀ depth, GivesOf IsIdentifier (reader (grammar depth)) holds)
    (h : readText reader text = .ok (a, written)) : holds a := by
  unfold readText readChars at h
  split at h
  · cases h
  · rename_i found ht
    obtain ⟨after, hr, -⟩ := onTokens_eq_ok h
    exact hreader _ (identified_tokensOf ht) hr

theorem proper_of_readType {text : String} {type : TypeExpr} (h : readType text = .ok type) : type.Proper := by
  unfold readType at h
  cases hread : readText (fun g => Read.type g true) text with
  | error problem =>
    rw [hread] at h
    cases h
  | ok read =>
    rw [hread] at h
    cases h
    exact holds_of_readText (fun g => Read.type g true)
      (fun depth => Read.GivesOf.writtenBy (Read.gives_properTypeBody (proper_grammar depth) true)) hread

end BuilderSynthesis.Syntax
