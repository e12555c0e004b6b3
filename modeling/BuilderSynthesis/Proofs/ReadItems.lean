/-
  BuilderSynthesis.Proofs.ReadItems — what holds of every item that has been read.

  The names of structs, fields, functions and parameters are identifiers, and what stands in an attribute is
  made of lexed tokens. A restricted visibility is kept as it is written: behind the word `pub` stands a
  bracket with a word for a module or with a path (`VisibilityExpr.Proper`). To see that, readers are
  followed together with what they write (`WritesOf`).
-/

import BuilderSynthesis.Proofs.PlainTypes
import BuilderSynthesis.Proofs.Structs

namespace BuilderSynthesis.Syntax

/-! ## What readers write -/

namespace Parser

variable {α β σ : Type} {valid : String → Prop}

/-- What a reader makes of tokens with valid identifiers has a property together with what it writes. -/
def WritesOf (valid : String → Prop) (p : Parser α) (holds : α → List Token → Prop) : Prop :=
  ∀ ⦃s : Stream⦄ ⦃a : α⦄ ⦃after : Stream⦄, Token.AllHold valid s.rest → p s = .ok (a, after) →
    ∃ ws, after.written = ws.reverse ++ s.written ∧ holds a ws

theorem writes_pure {holds : α → List Token → Prop} {a : α} (h : holds a []) : WritesOf valid (pure a) holds := by
  intro s b after _ hp
  obtain ⟨rfl, rfl⟩ := pure_eq_ok hp
  exact ⟨[], rfl, h⟩

theorem WritesOf.bind {p : Parser α} {f : α → Parser β} {first : α → List Token → Prop} {holds : β → List Token → Prop}
    (hp : WritesOf valid p first) (hf : ∀ a ws, first a ws → WritesOf valid (f a) fun b vs => holds b (ws ++ vs)) :
    WritesOf valid (p >>= f) holds := by
  intro s b after hs h
  obtain ⟨a, middle, ha, hb⟩ := bind_eq_ok h
  obtain ⟨ws, hw, hfirst⟩ := hp hs ha
  obtain ⟨vs, hv, hholds⟩ := hf a ws hfirst (hs.of_suffix (p.shrinks ha)) hb
  exact ⟨ws ++ vs, by rw [hv, hw, List.reverse_append, List.append_assoc], hholds⟩

theorem writes_ite {test : Bool} {p q : Parser α} {holds : α → List Token → Prop} (hp : WritesOf valid p holds)
    (hq : WritesOf valid q holds) : WritesOf valid (if test then p else q) holds := by
  cases test
  · exact hq
  · exact hp

/-- Looking writes nothing. -/
theorem writes_looks {p : Parser α} {f : α → Parser β} {holds : β → List Token → Prop} (hp : Read.Looks p)
    (hf : ∀ a, WritesOf valid (f a) holds) : WritesOf valid (p >>= f) holds := by
  intro s b after hs h
  obtain ⟨a, middle, ha, hb⟩ := bind_eq_ok h
  obtain rfl := hp ha
  exact hf a hs hb

theorem writes_inspect {choose : Stream → Parser α} {holds : α → List Token → Prop} (h : ∀ s, WritesOf valid (choose s) holds) :
    WritesOf valid (inspect choose) holds := fun s _ _ hs hp => h s hs hp

theorem writes_anyWord : WritesOf valid anyWord fun name ws => valid name ∧ ws = [Token.word name] := by
  intro s name after hs h
  obtain ⟨pos, -, -, hw⟩ := anyWord_eq_ok h
  exact ⟨[Token.word name], hw, gives_anyWord hs h, rfl⟩

theorem writes_word {name : String} : WritesOf valid (word name) fun _ ws => ws = [Token.word name] := by
  intro s u after _ h
  obtain ⟨pos, -, hw⟩ := word_eq_ok h
  exact ⟨[Token.word name], hw, rfl⟩

theorem writes_mark {operator : String} : WritesOf valid (mark operator) fun _ ws => ws = Token.symbol operator := by
  intro s u after _ h
  obtain ⟨-, -, hw⟩ := mark_eq_ok h
  exact ⟨Token.symbol operator, hw, rfl⟩

theorem looks_sees {e : Expected} : Read.Looks (sees e) := fun _ _ _ h => (sees_eq_ok h).2

theorem writes_mark? {operator : String} :
    WritesOf valid (mark? operator) fun stands ws => ws = if stands then Token.symbol operator else [] := by
  refine writes_looks looks_sees fun stands => writes_ite (writes_mark.bind fun _ ws hw => ?_) (writes_pure rfl)
  exact writes_pure (by rw [List.append_nil]; exact hw)

/-- A step preserves what holds of the state and of what has been written. -/
def TurnWrites (invariant : σ → List Token → Prop) (holds : β → List Token → Prop) : Turn σ β → List Token → Prop
  | .again state, ws => invariant state ws
  | .done value, ws => holds value ws

theorem writes_loop {step : σ → Parser (Turn σ β)} {state : σ} {invariant : σ → List Token → Prop}
    {holds : β → List Token → Prop}
    (hstep : ∀ state ws, invariant state ws →
      WritesOf valid (step state) fun turn vs => TurnWrites invariant holds turn (ws ++ vs))
    (h : invariant state []) : WritesOf valid (loop step state) holds := by
  have hturns : ∀ n state ws, invariant state ws → WritesOf valid (turns step n state) fun b vs => holds b (ws ++ vs) := by
    intro n
    induction n with
    | zero => exact fun _ _ _ _ _ _ _ hp => absurd hp fail_ne_ok
    | succ n ih =>
      intro state ws hi
      refine (hstep state ws hi).bind fun turn vs ht => ?_
      cases turn with
      | again next =>
        have hnext := ih next (ws ++ vs) ht
        simp only [List.append_assoc] at hnext
        exact hnext
      | done value => exact writes_pure (by rw [List.append_nil]; exact ht)
  exact writes_inspect fun s => hturns _ state [] h

/-- A bracket is written with what its content is written as. -/
theorem WritesOf.inside {delimiter : Delimiter} {p : Parser α} {holds : α → List Token → Prop} (hp : WritesOf valid p holds) :
    WritesOf valid (inside delimiter p) fun a ws =>
      ∃ inner opensAt closesAt, ws = [.group delimiter inner opensAt closesAt] ∧ holds a inner := by
  intro s a after hs h
  obtain ⟨content, opensAt, closesAt, rest, inner, hr, hinner, rfl⟩ := inside_eq_ok h
  rw [hr] at hs
  obtain ⟨ws, hw, hholds⟩ := hp (s := ⟨content, closesAt, some delimiter, s.leftover, []⟩) hs.1 hinner
  rw [List.append_nil] at hw
  exact ⟨[.group delimiter ws opensAt closesAt], by rw [hw, List.reverse_reverse]; rfl, ws, opensAt, closesAt, rfl, hholds⟩

end Parser

/-! ## Plain paths -/

def PathExpr.ofNames (leading : Bool) (names : List String) : PathExpr := .mk leading (names.map (.mk · .none))

/-- A path of names without arguments. -/
def PathExpr.IsBare (path : PathExpr) : Prop :=
  ∃ leading names, names ≠ [] ∧ (∀ name ∈ names, IsPlainName name) ∧ path = .ofNames leading names

theorem joinTokens_concat {separator : List Token} (parts : List (List Token)) (last : List Token) :
    joinTokens separator false (parts ++ [last]) = parts.flatMap (· ++ separator) ++ last := by
  induction parts with
  | nil => exact List.append_nil _
  | cons part rest ih =>
    have hcons : joinTokens separator false (part :: (rest ++ [last])) =
        part ++ (separator ++ joinTokens separator false (rest ++ [last])) :=
      Parser.joinTokens_cons_of_ne fun h => absurd h (by simp)
    rw [List.cons_append, hcons, ih, List.flatMap_cons, List.append_assoc, List.append_assoc]

namespace Read

open BuilderSynthesis.Syntax.Parser

variable {s after : Stream}

theorem isPathName_of_stands {name : String} {pos : Position} {rest : List Token}
    (h : (Expected.identifier :: .word "Self" :: pathWords).any (·.stands (.ident name pos :: rest)) = true) :
    isPathName name = true ∧ name ≠ "try" := by
  rw [List.any_cons, Bool.or_eq_true] at h
  rcases h with hfree | hword
  · have hunreserved : (!isReserved name) = true := hfree
    refine ⟨by rw [isPathName, takesArguments, hunreserved]; rfl, ?_⟩
    rintro rfl
    rw [show isReserved "try" = true by decide] at hunreserved
    cases hunreserved
  · exact (by decide : ∀ name ∈ ["Self", "self", "super", "crate"], isPathName name = true ∧ name ≠ "try") name
      (mem_of_word_stands ["Self", "self", "super", "crate"] hword)

/-- A step over the names of a plain path. -/
def namesStep (read : List String) : Parser (Turn (List String) (List String × Bool)) := do
  if ← seesAny (.identifier :: .word "Self" :: pathWords) then
    let name ← anyWord
    if ← mark? "::" then pure (.again (name :: read))
    else pure (.done ((name :: read).reverse, false))
  else pure (.done (read.reverse, !read.isEmpty))

/-- Names with their separators. -/
def separated (names : List String) : List Token := (names.map fun name => [Token.word name]).flatMap (· ++ Token.symbol "::")

/-- A path of names that ends in one is written as it is. -/
def WritesNames (read : List String × Bool) (ws : List Token) : Prop :=
  (∀ name ∈ read.1, IsPlainName name) ∧
    (read.2 = false → ws = joinTokens (Token.symbol "::") false (read.1.map fun name => [Token.word name]))

theorem writes_namesStep (read : List String) (ws : List Token) (hread : (∀ name ∈ read, IsPlainName name) ∧ ws = separated read.reverse) :
    WritesOf IsIdentifier (namesStep read) fun turn vs =>
      TurnWrites (fun read ws => (∀ name ∈ read, IsPlainName name) ∧ ws = separated read.reverse) WritesNames turn (ws ++ vs) := by
  obtain ⟨hnames, rfl⟩ := hread
  intro s turn after hs h
  obtain ⟨seen, _, hlook, h⟩ := bind_eq_ok h
  cases hlook
  split at h
  · rename_i hseen
    obtain ⟨name, middle, hname, h⟩ := bind_eq_ok h
    obtain ⟨pos, hr, -⟩ := anyWord_eq_ok hname
    obtain ⟨_, hmiddle, hvalid, rfl⟩ := writes_anyWord hs hname
    have hstep : IsPlainName name := ⟨hvalid, isPathName_of_stands (hr ▸ hseen)⟩
    have hall : ∀ n ∈ name :: read, IsPlainName n := List.forall_mem_cons.mpr ⟨hstep, hnames⟩
    obtain ⟨goesOn, last, hmark, h⟩ := bind_eq_ok h
    obtain ⟨ws, hlast, hws⟩ := writes_mark? (hs.of_suffix (anyWord.shrinks hname)) hmark
    refine ⟨Token.word name :: ws, ?_, ?_⟩
    · cases goesOn
      · cases h
        rw [hlast, hmiddle]
        simp
      · cases h
        rw [hlast, hmiddle]
        simp
    · cases goesOn
      · cases h
        refine ⟨fun n hn => hall n (List.mem_reverse.mp hn), fun _ => ?_⟩
        obtain rfl : ws = [] := hws
        rw [List.reverse_cons, List.map_append, List.map_singleton, joinTokens_concat]
        rfl
      · cases h
        refine ⟨hall, ?_⟩
        obtain rfl : ws = Token.symbol "::" := hws
        rw [List.reverse_cons, separated, separated, List.map_append, List.flatMap_append]
        rfl
  · cases h
    refine ⟨[], rfl, fun n hn => hnames n (List.mem_reverse.mp hn), fun hended => ?_⟩
    obtain rfl : read = [] := by simpa using hended
    rfl

theorem writes_plainNames : WritesOf IsIdentifier plainNames WritesNames :=
  writes_loop writes_namesStep ⟨nofun, rfl⟩

/-- Where names have begun, there are some. -/
theorem gives_begunNames (n : Nat) {read : List String} (h : read ≠ []) :
    GivesOf IsIdentifier (turns namesStep n read) fun names => names.1 ≠ [] := by
  induction n generalizing read with
  | zero => exact gives_fail
  | succ n ih =>
    have hstep : GivesOf IsIdentifier (namesStep read) (TurnHolds (· ≠ []) fun names : List String × Bool => names.1 ≠ []) := by
      refine gives_bind fun seen => gives_ite (gives_bind fun name => gives_bind fun goesOn => gives_ite ?_ ?_) ?_
      · exact gives_pure (List.cons_ne_nil _ _)
      · exact gives_pure fun he => List.cons_ne_nil _ _ (List.reverse_eq_nil_iff.mp he)
      · exact gives_pure fun he => h (List.reverse_eq_nil_iff.mp he)
    refine hstep.bind fun turn ht => ?_
    cases turn with
    | again read => exact ih ht
    | done names => exact gives_pure ht

/-- Without names no identifier stands there. -/
theorem identifier_ne_ok_of_plainNames {trailing : Bool} (hs : Token.AllHold IsIdentifier s.rest)
    (h : plainNames s = .ok (([], trailing), after)) {r : String × Stream} : identifier after ≠ .ok r := by
  have hturns : turns namesStep (s.rest.length + 1) [] s = .ok (([], trailing), after) := h
  obtain ⟨turn, middle, hstep, hrest⟩ := bind_eq_ok hturns
  obtain ⟨seen, _, hlook, hstep⟩ := bind_eq_ok hstep
  cases hlook
  split at hstep
  · obtain ⟨name, next, hname, hstep⟩ := bind_eq_ok hstep
    obtain ⟨goesOn, last, hmark, hstep⟩ := bind_eq_ok hstep
    split at hstep
    · cases hstep
      have hbegun := gives_begunNames s.rest.length (List.cons_ne_nil name [])
        ((hs.of_suffix (anyWord.shrinks hname)).of_suffix ((mark? "::").shrinks hmark)) hrest
      exact absurd rfl hbegun
    · cases hstep
      cases hrest
  · rename_i hseen
    cases hstep
    cases hrest
    intro hfound
    obtain ⟨pos, hr, -⟩ := identifier_eq_ok hfound
    have hfree : isReserved _ = false := gives_unreserved hs hfound
    refine hseen (List.any_eq_true.mpr ⟨.identifier, List.mem_cons_self, ?_⟩)
    rw [hr]
    exact (Bool.not_eq_true' _).mpr hfree

theorem writes_plainPath : WritesOf IsIdentifier plainPath fun read ws => read.1.IsBare ∧ ws = read.1.tokens := by
  intro s read after hs h
  obtain ⟨leading, first, hleading, h⟩ := bind_eq_ok h
  obtain ⟨position, _, hhere, h⟩ := bind_eq_ok h
  cases hhere
  obtain ⟨⟨names, trailing⟩, second, hnames, h⟩ := bind_eq_ok h
  have hfirst := hs.of_suffix ((mark? "::").shrinks hleading)
  obtain ⟨ws, hw, rfl⟩ := writes_mark? hs hleading
  obtain ⟨vs, hv, hsteps, hvs⟩ := writes_plainNames hfirst hnames
  dsimp only at h hsteps hvs
  split at h
  · rename_i hempty
    obtain rfl : names = [] := List.isEmpty_iff.mp hempty
    obtain ⟨_, third, hdiscard, -⟩ := bind_eq_ok h
    obtain ⟨name, hname⟩ := discard_eq_ok hdiscard
    exact absurd hname (identifier_ne_ok_of_plainNames hfirst hnames)
  · rename_i hempty
    split at h
    · obtain ⟨_, third, hfail, -⟩ := bind_eq_ok h
      exact absurd hfail fail_ne_ok
    · rename_i hended
      cases h
      refine ⟨(if leading then Token.symbol "::" else []) ++ vs, ?_, ⟨leading, names, ?_, hsteps, rfl⟩, ?_⟩
      · rw [hv, hw, List.reverse_append, List.append_assoc]
      · exact fun he => hempty (List.isEmpty_iff.mpr he)
      · rw [hvs (Bool.eq_false_iff.mpr hended), PathExpr.tokens, Segment.tokensOfAll_eq_map, List.map_map]
        rfl

end Read

/-! ## Items -/

/-- A restriction is written in a bracket behind the word `pub`: as a word for a module, or as a path. -/
def VisibilityExpr.Proper : VisibilityExpr → Prop
  | .restricted tokens => ∃ inner opensAt closesAt, tokens = [Token.word "pub", .group .parenthesis inner opensAt closesAt] ∧
      ((∃ name ∈ ["crate", "self", "super"], inner = [Token.word name]) ∨
        ∃ path : PathExpr, path.IsBare ∧ inner = Token.word "in" :: path.tokens)
  | _ => True

namespace Read

open BuilderSynthesis.Syntax.Parser

/-- What a restriction is written as, if there is one. -/
def WritesRestriction (restricted : Bool) (ws : List Token) : Prop :=
  if restricted then
    ∃ inner opensAt closesAt, ws = [.group .parenthesis inner opensAt closesAt] ∧
      ((∃ name ∈ ["crate", "self", "super"], inner = [Token.word name]) ∨
        ∃ path : PathExpr, path.IsBare ∧ inner = Token.word "in" :: path.tokens)
  else ws = []

theorem WritesOf.discard {α : Type} {valid : String → Prop} {p : Parser α} {holds : α → List Token → Prop}
    (hp : WritesOf valid p holds) : WritesOf valid (discard p) fun _ ws => ∃ a, holds a ws := by
  refine hp.bind fun a ws ha => writes_pure ?_
  rw [List.append_nil]
  exact ⟨a, ha⟩

theorem writes_pathRestriction :
    WritesOf IsIdentifier (do discard (inside .parenthesis (do word "in"; plainPath)); pure true) WritesRestriction := by
  have hcontent : WritesOf IsIdentifier (do word "in"; plainPath) fun read ws =>
      read.1.IsBare ∧ ws = Token.word "in" :: read.1.tokens := by
    refine writes_word.bind fun _ ws hw => ?_
    intro s read after hs h
    obtain ⟨vs, hv, hbare, rfl⟩ := writes_plainPath hs h
    exact ⟨_, hv, hbare, by rw [hw]; rfl⟩
  refine (WritesOf.discard hcontent.inside).bind fun _ ws hw => writes_pure ?_
  obtain ⟨read, inner, opensAt, closesAt, rfl, hbare, hinner⟩ := hw
  exact ⟨inner, opensAt, closesAt, List.append_nil _, Or.inr ⟨read.1, hbare, hinner⟩⟩

theorem writes_restriction : WritesOf IsIdentifier restriction WritesRestriction := by
  intro s restricted after hs h
  obtain ⟨rest, _, hremaining, h⟩ := bind_eq_ok h
  cases hremaining
  split at h
  · rename_i name namePos opensAt closesAt more hrest
    split at h
    · rename_i hname
      obtain ⟨found, closes, within, leftover, written⟩ := s
      obtain rfl : found = .group .parenthesis [.ident name namePos] opensAt closesAt :: more := hrest
      cases h
      refine ⟨[.group .parenthesis [Token.word name] opensAt closesAt], rfl, _, opensAt, closesAt, rfl, Or.inl ⟨name, ?_, rfl⟩⟩
      simpa [or_assoc] using hname
    · split at h
      · exact writes_pathRestriction hs h
      · cases h
        exact ⟨[], rfl, rfl⟩
  · exact writes_pathRestriction hs h
  · cases h
    exact ⟨[], rfl, rfl⟩

theorem gives_properVisibility : GivesOf IsIdentifier visibility VisibilityExpr.Proper := by
  intro s v after hs h
  obtain ⟨stands, _, hsees, h⟩ := bind_eq_ok h
  cases hsees
  split at h
  · cases h
    trivial
  · obtain ⟨⟨restricted, tokens⟩, middle, hcaptured, h⟩ := bind_eq_ok h
    obtain ⟨_, last, hwrite, h⟩ := bind_eq_ok h
    cases h
    cases restricted with
    | false => trivial
    | true =>
      have hboth : WritesOf IsIdentifier (do word "pub"; restriction) fun restricted ws =>
          ∃ vs, ws = Token.word "pub" :: vs ∧ WritesRestriction restricted vs := by
        refine writes_word.bind fun _ ws hw => ?_
        intro s restricted after hs h
        obtain ⟨vs, hv, hrestriction⟩ := writes_restriction hs h
        exact ⟨vs, hv, vs, by rw [hw]; rfl, hrestriction⟩
      unfold captured at hcaptured
      simp only at hcaptured
      split at hcaptured
      · rename_i made inner hread
        cases hcaptured
        obtain ⟨ws, hw, vs, rfl, inside, opensAt, closesAt, rfl, hinside⟩ := hboth (s := { s with written := [] }) hs hread
        refine ⟨inside, opensAt, closesAt, ?_, hinside⟩
        rw [hw, List.append_nil, List.reverse_reverse]
      · cases hcaptured

end Read

/-- The tokens that an attribute lists are lexed. -/
def Attribute.Proper (a : Attribute) : Prop := Token.AllHold IsIdentifier a.listed

/-- The name is an identifier that is not reserved. -/
def IsFree (name : String) : Prop := IsIdentifier name ∧ isReserved name = false

structure StructItem.Proper (s : StructItem) : Prop where
  attributes : ∀ a ∈ s.attributes, a.Proper
  visibility : s.visibility.Proper
  name : IsFree s.name
  fields : ∀ fields trailing, s.fields = .named fields trailing → ∀ f ∈ fields, ∀ named ∈ f.name, IsIdentifier named.1

/-- The name that a pattern binds is an identifier. -/
def PatternShape.Proper : PatternShape → Prop
  | .binding name _ _ _ => IsIdentifier name
  | _ => True

def FunctionInput.Proper : FunctionInput → Prop
  | .typed _ pattern _ _ => pattern.Proper
  | _ => True

structure FunctionItem.Proper (f : FunctionItem) : Prop where
  attributes : ∀ a ∈ f.attributes ++ f.innerAttributes, a.Proper
  visibility : f.visibility.Proper
  name : IsFree f.signature.name
  inputs : ∀ input ∈ f.signature.inputs, input.Proper

namespace Parser

variable {valid : String → Prop}

theorem gives_anyGroup : GivesOf valid anyGroup fun read => Token.AllHold valid read.2.1 := by
  intro s read after hs h
  unfold anyGroup inspect at h
  simp only at h
  split at h
  · rename_i delimiter content opensAt closesAt rest hr
    cases h
    rw [hr] at hs
    exact hs.1
  · exact absurd h fail_ne_ok

theorem gives_free : GivesOf IsIdentifier identifier IsFree := gives_identifier.and gives_unreserved

theorem GivesOf.orAsItStands {α : Type} {p : Parser (α × Bool)} {holds : α → Prop}
    (hp : GivesOf valid p fun read => holds read.1) : GivesOf valid (Read.orAsItStands p) holds := by
  intro s a after hs h
  obtain ⟨canonical, inner, hr⟩ := Read.orAsItStands_eq_ok h
  exact hp (s := { s with written := [] }) hs hr

end Parser

namespace Read

open BuilderSynthesis.Syntax.Parser

variable {g : Grammar}

theorem gives_properForm : GivesOf IsIdentifier (attributeForm g) fun form => match form with
    | .list content _ => Token.AllHold IsIdentifier content
    | _ => True := by
  refine gives_bind fun listed => gives_ite (gives_anyGroup.bind fun read hread => gives_pure hread) ?_
  exact gives_bind fun valued => gives_ite (gives_bind fun _ => gives_bind fun _ => gives_bind fun _ => gives_pure trivial)
    (gives_pure trivial)

theorem gives_properAttribute (inner : Bool) : GivesOf IsIdentifier (singleAttribute g inner) Attribute.Proper := by
  have hcontent : GivesOf IsIdentifier (attributeContent g) fun read => match read.2.2 with
      | .list content _ => Token.AllHold IsIdentifier content
      | _ => True := gives_bind fun path => gives_properForm.bind fun form hform => gives_pure hform
  refine gives_bind fun position => gives_bind fun _ => gives_optional fun _ => GivesOf.inside ?_
  refine hcontent.captured.bind fun ⟨⟨path, pathAt, form⟩, content⟩ hform => gives_bind fun _ => gives_pure ?_
  unfold Attribute.Proper Attribute.listed
  cases form with
  | list content closesAt => exact hform
  | path => trivial
  | value equalsAt => trivial

theorem gives_properAttributes : GivesOf IsIdentifier (outerAttributes g) fun attrs => ∀ a ∈ attrs, a.Proper :=
  (gives_properAttribute false).whileSeen

theorem gives_properInner : GivesOf IsIdentifier (innerAttributes g) fun attrs => ∀ a ∈ attrs, a.Proper :=
  (gives_properAttribute true).whileSeen

/-! ### Structs -/

theorem gives_namedField : GivesOf IsIdentifier (namedField g) fun f => ∀ named ∈ f.name, IsIdentifier named.1 := by
  refine gives_bind fun attributes => gives_bind fun v => gives_bind fun position => gives_bind fun unnamed => ?_
  have hword : GivesOf IsIdentifier (if unnamed then anyWord else identifier) IsIdentifier :=
    gives_ite gives_anyWord gives_identifier
  refine hword.bind fun name hname => gives_bind fun _ => gives_bind fun type => gives_pure fun named hnamed => ?_
  rw [← Option.some.inj hnamed]
  exact hname

theorem gives_structBody : GivesOf IsIdentifier (structBody g) fun read =>
    ∀ fields trailing, read.2 = .named fields trailing → ∀ f ∈ fields, ∀ named ∈ f.name, IsIdentifier named.1 := by
  refine gives_bind fun clause => gives_bind fun parenthesized => gives_ite ?_ ?_
  · refine gives_bind fun ⟨fields, trailing⟩ => gives_bind fun clause => gives_bind fun ended => gives_ite ?_ gives_failNoneOf
    exact gives_pure fun fields trailing h => by cases h
  refine gives_bind fun braced => gives_ite ?_ ?_
  · refine (GivesOf.inside gives_namedField.separatedUntil).bind fun ⟨fields, trailing⟩ hfields => gives_pure ?_
    intro found comma h
    cases h
    exact hfields.2
  · refine gives_bind fun ended => gives_ite (gives_pure fun fields trailing h => by cases h) gives_failNoneOf

theorem gives_properStruct {attributes : List Attribute} {v : VisibilityExpr} (ha : ∀ a ∈ attributes, a.Proper)
    (hv : v.Proper) : GivesOf IsIdentifier (structItem g attributes v) StructItem.Proper := by
  refine gives_bind fun _ => gives_bind fun nameAt => gives_free.bind fun name hname => gives_bind fun generics => ?_
  exact gives_structBody.bind fun ⟨clause, fields⟩ hfields => gives_pure ⟨ha, hv, hname, hfields⟩

/-! ### Functions -/

theorem gives_rangeAfterStart : GivesOf IsIdentifier (rangeAfterStart g) PatternShape.Proper := by
  refine gives_bind fun position => gives_bind fun closed => gives_bind fun ended => gives_optional fun _ => ?_
  cases ended <;> exact gives_pure trivial

theorem gives_rangeFromStart : GivesOf IsIdentifier (rangeFromStart g) PatternShape.Proper := by
  refine gives_bind fun position => gives_bind fun closed => gives_bind fun ended => ?_
  exact gives_ite (gives_pure trivial) (gives_ite gives_fail (gives_pure trivial))

theorem gives_afterPath : GivesOf IsIdentifier (afterPath g) PatternShape.Proper := by
  refine gives_bind fun path => gives_bind fun marked => gives_ite (gives_bind fun _ => gives_bind fun _ => gives_pure trivial) ?_
  refine gives_bind fun braced => gives_ite (gives_bind fun _ => gives_pure trivial) ?_
  refine gives_bind fun called => gives_ite (gives_bind fun _ => gives_pure trivial) ?_
  exact gives_bind fun ranged => gives_ite gives_rangeAfterStart (gives_pure trivial)

theorem gives_bindingPattern : GivesOf IsIdentifier (bindingPattern g) PatternShape.Proper := by
  have hname : GivesOf IsIdentifier (do if ← sees (.word "self") then anyWord else identifier) IsIdentifier :=
    gives_bind fun isSelf => gives_ite gives_anyWord gives_identifier
  refine gives_bind fun byRef => gives_bind fun _ => gives_bind fun position => hname.bind fun name hname => ?_
  exact gives_bind fun sub => gives_pure hname

theorem gives_properPattern : GivesOf IsIdentifier (pattern g) PatternShape.Proper := by
  refine gives_bind fun ofPath => gives_ite gives_afterPath ?_
  refine gives_bind fun wild => gives_ite (gives_pure trivial) ?_
  refine gives_bind fun boxed => gives_ite (gives_bind fun _ => gives_pure trivial) ?_
  refine gives_bind fun valued => gives_ite ?_ ?_
  · exact gives_bind fun _ => gives_bind fun ranged => gives_ite gives_rangeAfterStart (gives_pure trivial)
  refine gives_bind fun binding => gives_ite gives_bindingPattern ?_
  refine gives_bind fun referred => gives_ite (gives_bind fun _ => gives_bind fun _ => gives_pure trivial) ?_
  refine gives_bind fun tuple => gives_ite (gives_bind fun _ => gives_pure trivial) ?_
  refine gives_bind fun slice => gives_ite (gives_bind fun _ => gives_pure trivial) ?_
  exact gives_bind fun ranged => gives_ite gives_rangeFromStart gives_failNoneOf

/-- A parameter has a proper pattern. -/
def ParameterRead.Proper : ParameterRead → Prop
  | .receiver input _ => input.Proper
  | .typed input => input.Proper
  | .variadic _ => True

theorem gives_properInput (hg : GivesOf IsIdentifier g.pattern PatternShape.Proper) :
    GivesOf IsIdentifier (functionInput g) ParameterRead.Proper := by
  refine gives_bind fun attributes => gives_bind fun dotted => gives_ite (gives_bind fun tokens => gives_pure trivial) ?_
  refine gives_bind fun received => gives_ite ?_ ?_
  · exact gives_bind fun ⟨⟨reference, isMut, position⟩, tokens⟩ => gives_bind fun _ => gives_pure trivial
  refine gives_bind fun named => gives_bind fun angled => gives_ite ?_ ?_
  · exact gives_bind fun _ => gives_bind fun type => gives_pure trivial
  refine hg.captured.bind fun ⟨shape, pattern⟩ hshape => gives_bind fun _ => gives_bind fun _ => gives_bind fun dots => ?_
  exact gives_ite (gives_pure trivial) (gives_bind fun type => gives_pure hshape)

/-- The parameters read so far are proper. -/
def InputsRead.Proper (read : InputsRead) : Prop := ∀ input ∈ read.inputs, input.Proper

theorem gives_properInputs (hg : GivesOf IsIdentifier g.pattern PatternShape.Proper) :
    GivesOf IsIdentifier (functionInputs g) InputsRead.Proper := by
  have hnext : ∀ read : InputsRead, read.Proper →
      GivesOf IsIdentifier (functionInputs.next read) (TurnHolds InputsRead.Proper InputsRead.Proper) := by
    intro read hread
    exact gives_bind fun ended => gives_ite (gives_pure hread) (gives_bind fun _ => gives_pure hread)
  have hmore : ∀ {read : InputsRead} {input : FunctionInput}, read.Proper → input.Proper →
      ∀ found ∈ read.inputs ++ [input], found.Proper := by
    intro read input hread hinput found hf
    rcases List.mem_append.mp hf with hf | hf
    · exact hread found hf
    · rw [List.mem_singleton.mp hf]
      exact hinput
  refine @gives_loop _ _ IsIdentifier _ _ InputsRead.Proper InputsRead.Proper (fun read hread => ?_) fun input hi => by cases hi
  refine gives_bind fun ended => gives_ite (gives_pure hread) ((gives_properInput hg).bind fun parameter hparameter => ?_)
  cases parameter with
  | «variadic» tokens =>
    exact gives_bind fun last => gives_ite (gives_pure hread) (gives_bind fun _ => gives_pure hread)
  | receiver input selfAt =>
    refine gives_ite (fun _ _ _ _ h => by cases h) (gives_ite (fun _ _ _ _ h => by cases h) (hnext _ (hmore hread hparameter)))
  | typed input => exact hnext _ (hmore hread hparameter)

/-- A signature has a free name and proper parameters. -/
def SignatureProper (s : Signature) : Prop := IsFree s.name ∧ ∀ input ∈ s.inputs, input.Proper

theorem gives_properSignature (hg : GivesOf IsIdentifier g.pattern PatternShape.Proper) :
    GivesOf IsIdentifier (signature g) SignatureProper := by
  have has : GivesOf IsIdentifier (signatureAs g false) fun read => SignatureProper read.1 := by
    refine gives_bind fun ⟨⟨isAsync, isUnsafe, isSafe⟩, qualifiers⟩ => gives_bind fun _ => gives_bind fun _ => ?_
    refine gives_bind fun nameAt => gives_free.bind fun name hname => gives_bind fun generics => ?_
    refine (gives_properInputs hg).inside.bind fun read hread => gives_bind fun output => gives_bind fun clause => ?_
    exact gives_pure ⟨hname, hread⟩
  exact has.bind fun read hread => gives_pure hread

theorem gives_properFunction {attributes : List Attribute} {v : VisibilityExpr} {isDefault : Bool} {signature : Signature}
    (ha : ∀ a ∈ attributes, a.Proper) (hv : v.Proper) (hs : SignatureProper signature) :
    GivesOf IsIdentifier (functionAfter g attributes v isDefault signature) FunctionItem.Proper := by
  have hbody : GivesOf IsIdentifier (functionBody g) fun read => ∀ a ∈ read.1, a.Proper := by
    refine GivesOf.inside (gives_properInner.bind fun inner hinner => ?_)
    exact gives_bind fun _ => gives_bind fun _ => gives_pure hinner
  refine hbody.bind fun ⟨inner, body⟩ hinner => gives_pure ⟨fun a h => ?_, hv, hs.1, hs.2⟩
  rcases List.mem_append.mp h with h | h
  · exact ha a h
  · exact hinner a h

theorem gives_properBlockItem (hg : GivesOf IsIdentifier g.pattern PatternShape.Proper) :
    GivesOf IsIdentifier (blockItem g) fun read => ∀ f ∈ read, f.Proper := by
  refine GivesOf.orAsItStands ?_
  refine gives_properAttributes.bind fun attributes ha => gives_properVisibility.bind fun v hv => gives_bind fun isDefault => ?_
  refine gives_optional fun _ => gives_bind fun signed => gives_ite ?_ ?_
  · refine (gives_properSignature hg).bind fun signature hs => gives_bind fun ended => gives_ite (gives_pure nofun) ?_
    refine (gives_properFunction ha hv hs).bind fun f hf => gives_pure fun found h => ?_
    rw [← Option.some.inj h]
    exact hf
  refine gives_bind fun ofConst => gives_ite (gives_bind fun constant => gives_pure nofun) ?_
  refine gives_bind fun ofType => gives_ite (gives_bind fun type => gives_pure nofun) ?_
  refine gives_bind fun invoked => gives_ite (gives_bind fun _ => gives_pure nofun) gives_failNoneOf

end Read

end BuilderSynthesis.Syntax
