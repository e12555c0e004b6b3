/-
  BuilderSynthesis.Proofs.Reading — what readers make of lexed tokens.

  A reader leaves the end of what it was given, so what holds of every token of a stream holds again
  wherever the reader goes on. `Gives` says what a reader makes of streams of lexed tokens: it is
  proved once for every way to put readers together, and from there on for the readers themselves.

  The result that is used elsewhere is that a path which has been read has a last name, and that all
  its names are names (`gives_path`).
-/

import BuilderSynthesis.Proofs.Names

namespace BuilderSynthesis.Syntax

namespace Parser

variable {α β σ : Type}

/-! ## Runs -/

theorem pure_eq_ok {a b : α} {s after : Stream} (h : (pure a : Parser α) s = .ok (b, after)) : b = a ∧ after = s := by
  cases h
  exact ⟨rfl, rfl⟩

theorem bind_eq_ok {p : Parser α} {f : α → Parser β} {s after : Stream} {b : β} (h : (p >>= f) s = .ok (b, after)) :
    ∃ a middle, p s = .ok (a, middle) ∧ f a middle = .ok (b, after) := by
  simp only [bind] at h
  split at h
  · rename_i a middle hp
    exact ⟨a, middle, hp, h⟩
  · cases h

theorem fail_ne_ok {complaint : Complaint} {s : Stream} {r : α × Stream} : fail complaint s ≠ .ok r := by
  intro h
  unfold fail inspect at h
  simp only at h
  split at h
  · cases h
  · cases h

theorem captured_eq_ok {p : Parser α} {s after : Stream} {a : α} {tokens : List Token}
    (h : captured p s = .ok ((a, tokens), after)) :
    ∃ inner, p { s with written := [] } = .ok (a, inner) ∧ after = { inner with written := s.written } := by
  unfold captured at h
  simp only at h
  split at h
  · rename_i found inner hp
    cases h
    exact ⟨inner, hp, rfl⟩
  · cases h

/-- A bracket stands at the front, and its content was read. -/
theorem inside_eq_ok {delimiter : Delimiter} {p : Parser α} {s after : Stream} {a : α}
    (h : inside delimiter p s = .ok (a, after)) :
    ∃ content opensAt closesAt rest inner, s.rest = .group delimiter content opensAt closesAt :: rest ∧
      p ⟨content, closesAt, some delimiter, s.leftover, []⟩ = .ok (a, inner) ∧
      after = { s with
        rest := rest
        leftover := noteLeftover inner
        written := .group delimiter inner.written.reverse opensAt closesAt :: s.written } := by
  unfold inside inspect at h
  simp only at h
  split at h
  · rename_i found content opensAt closesAt rest hr
    split at h
    · rename_i hf
      obtain rfl := beq_iff_eq.mp hf
      obtain ⟨b, middle, he, h⟩ := bind_eq_ok h
      obtain ⟨_, last, hskip, hb⟩ := bind_eq_ok h
      unfold enter at he
      simp only at he
      split at he
      · cases he
      · rename_i found inner hp
        cases he
        cases hskip
        cases hb
        exact ⟨content, opensAt, closesAt, rest, inner, hr, hp, by simp only [hr]; rfl⟩
    · exact absurd h fail_ne_ok
  · exact absurd h fail_ne_ok

/-- A word stands at the front, and is written. -/
theorem anyWord_eq_ok {s after : Stream} {name : String} (h : anyWord s = .ok (name, after)) :
    ∃ pos, s.rest = .ident name pos :: after.rest ∧ after.leftover = s.leftover ∧
      after.written = Token.word name :: s.written := by
  unfold anyWord inspect at h
  simp only at h
  split at h
  · rename_i found pos rest hr
    cases h
    exact ⟨pos, by rw [hr]; rfl, rfl, rfl⟩
  · exact absurd h fail_ne_ok

/-- An identifier that is not reserved stands at the front. -/
theorem identifier_eq_ok {s after : Stream} {name : String} (h : identifier s = .ok (name, after)) :
    ∃ pos, s.rest = .ident name pos :: after.rest ∧ after.leftover = s.leftover ∧ isReserved name = false := by
  unfold identifier inspect at h
  simp only at h
  split at h
  · rename_i found pos rest hr
    split at h
    · exact absurd h fail_ne_ok
    · rename_i hfree
      obtain ⟨namePos, hs, hleftover, -⟩ := anyWord_eq_ok h
      cases hr.symm.trans hs
      exact ⟨pos, hs, hleftover, Bool.eq_false_iff.mpr hfree⟩
  · exact absurd h fail_ne_ok

theorem exists_punct_of_afterMarks {c : Char} {ts : List Token} (h : (afterMarks [c] ts).isSome = true) :
    ∃ joint pos rest, ts = .punct c joint pos :: rest := by
  match ts, h with
  | .punct mark joint pos :: rest, h =>
    rw [afterMarks] at h
    split at h
    · rename_i hm
      obtain ⟨hm, -⟩ := Bool.and_eq_true_iff.mp hm
      exact ⟨joint, pos, rest, by rw [beq_iff_eq.mp hm]⟩
    · cases h

/-! ## What readers give -/

/-- What a reader makes of tokens with valid identifiers has a property. -/
def GivesOf (valid : String → Prop) (p : Parser α) (holds : α → Prop) : Prop :=
  ∀ ⦃s : Stream⦄ ⦃a : α⦄ ⦃after : Stream⦄, Token.AllHold valid s.rest → p s = .ok (a, after) → holds a

/-- What a reader makes of lexed tokens has a property. -/
abbrev Gives (p : Parser α) (holds : α → Prop) : Prop := GivesOf IsName p holds

variable {valid : String → Prop}

theorem gives_true (p : Parser α) : GivesOf valid p fun _ => True := fun _ _ _ _ _ => trivial

theorem gives_pure {holds : α → Prop} {a : α} (h : holds a) : GivesOf valid (pure a) holds := by
  intro s b after _ hp
  rw [(pure_eq_ok hp).1]
  exact h

theorem GivesOf.bind {p : Parser α} {f : α → Parser β} {first : α → Prop} {holds : β → Prop} (hp : GivesOf valid p first)
    (hf : ∀ a, first a → GivesOf valid (f a) holds) : GivesOf valid (p >>= f) holds := by
  intro s b after hs h
  obtain ⟨a, middle, ha, hb⟩ := bind_eq_ok h
  exact hf a (hp hs ha) (hs.of_suffix (p.shrinks ha)) hb

/-- What is read first does not matter. -/
theorem gives_bind {p : Parser α} {f : α → Parser β} {holds : β → Prop} (hf : ∀ a, GivesOf valid (f a) holds) :
    GivesOf valid (p >>= f) holds :=
  (gives_true p).bind fun a _ => hf a

theorem gives_inspect {choose : Stream → Parser α} {holds : α → Prop} (h : ∀ s, GivesOf valid (choose s) holds) :
    GivesOf valid (inspect choose) holds := fun s _ _ hs hp => h s hs hp

theorem gives_ite {test : Bool} {p q : Parser α} {holds : α → Prop} (hp : GivesOf valid p holds) (hq : GivesOf valid q holds) :
    GivesOf valid (if test then p else q) holds := by
  cases test
  · exact hq
  · exact hp

/-- Something may be read before the rest. -/
theorem gives_optional {test : Bool} {p : Parser Unit} {next : Unit → Parser α} {holds : α → Prop}
    (h : ∀ u, GivesOf valid (next u) holds) : GivesOf valid (if test then p >>= next else next ()) holds :=
  gives_ite (gives_bind h) (h ())

theorem gives_fail {complaint : Complaint} {holds : α → Prop} : GivesOf valid (fail complaint) holds :=
  fun _ _ _ _ h => absurd h fail_ne_ok

theorem gives_failNoneOf {wanted : List Expected} {holds : α → Prop} : GivesOf valid (failNoneOf wanted) holds :=
  gives_inspect fun _ => gives_fail

theorem GivesOf.captured {p : Parser α} {holds : α → Prop} (hp : GivesOf valid p holds) :
    GivesOf valid (captured p) fun r => holds r.1 := by
  rintro s ⟨a, tokens⟩ after hs h
  obtain ⟨inner, ha, -⟩ := captured_eq_ok h
  exact hp (s := { s with written := [] }) hs ha

/-- A step preserves what holds of the state, and ends with what holds of the value. -/
def TurnHolds (invariant : σ → Prop) (holds : β → Prop) : Turn σ β → Prop
  | .again state => invariant state
  | .done value => holds value

theorem gives_loop {step : σ → Parser (Turn σ β)} {state : σ} {invariant : σ → Prop} {holds : β → Prop}
    (hstep : ∀ state, invariant state → GivesOf valid (step state) (TurnHolds invariant holds)) (h : invariant state) :
    GivesOf valid (loop step state) holds := by
  have hturns : ∀ n state, invariant state → GivesOf valid (turns step n state) holds := by
    intro n
    induction n with
    | zero =>
      intro state _ s b after _ hp
      exact absurd hp fail_ne_ok
    | succ n ih =>
      intro state hi
      refine (hstep state hi).bind fun turn ht => ?_
      cases turn with
      | again next => exact ih next ht
      | done value => exact gives_pure ht
  exact gives_inspect fun s => hturns _ state h

/-- One turn over items that a test sees. -/
def whileStep (test : Parser Bool) (p : Parser α) (read : List α) : Parser (Turn (List α) (List α)) := do
  if ← test then pure (.again ((← p) :: read)) else pure (.done read.reverse)

theorem GivesOf.whileSeen {test : Parser Bool} {p : Parser α} {holds : α → Prop} (hp : GivesOf valid p holds) :
    GivesOf valid (whileSeen test p) fun read => ∀ a ∈ read, holds a := by
  have hstep : ∀ read : List α, (∀ a ∈ read, holds a) →
      GivesOf valid (whileStep test p read)
        (TurnHolds (fun read : List α => ∀ a ∈ read, holds a) fun read : List α => ∀ a ∈ read, holds a) := by
    intro read hr
    refine gives_bind fun seen => gives_ite (hp.bind fun a ha => gives_pure ?_) (gives_pure ?_)
    · intro b hb
      rcases List.mem_cons.mp hb with rfl | hb
      · exact ha
      · exact hr b hb
    · intro b hb
      exact hr b (List.mem_reverse.mp hb)
  refine gives_loop hstep ?_
  intro a ha
  cases ha

/-- The identifiers in a bracket are valid too. -/
theorem GivesOf.inside {delimiter : Delimiter} {p : Parser α} {holds : α → Prop} (hp : GivesOf valid p holds) :
    GivesOf valid (inside delimiter p) holds := by
  intro s a after hs h
  obtain ⟨content, opensAt, closesAt, rest, inner, hr, hinner, rfl⟩ := inside_eq_ok h
  rw [hr] at hs
  exact hp (s := ⟨content, closesAt, some delimiter, s.leftover, []⟩) hs.1 hinner

/-! ## Names -/

theorem gives_identifier : GivesOf valid identifier valid := by
  intro s name after hs h
  obtain ⟨pos, hr, -⟩ := identifier_eq_ok h
  rw [hr] at hs
  exact hs.1

theorem gives_anyWord : GivesOf valid anyWord valid := by
  intro s name after hs h
  obtain ⟨pos, hr, -⟩ := anyWord_eq_ok h
  rw [hr] at hs
  exact hs.1

end Parser

/-! ## Paths -/

namespace Read

open BuilderSynthesis.Syntax.Parser

variable (g : Grammar)

theorem gives_segment (amongExpressions : Bool) : Gives (segment g amongExpressions) fun s => IsName s.name := by
  refine gives_bind fun pathWord => gives_ite (gives_anyWord.bind fun name hn => gives_pure hn) ?_
  have hname : Gives (do if ← sees (.word "Self") then anyWord else identifier) IsName :=
    gives_bind fun self => gives_ite gives_anyWord gives_identifier
  refine hname.bind fun name hn => ?_
  refine gives_bind fun angled => gives_bind fun separated => gives_bind fun opened => ?_
  exact gives_ite (gives_bind fun arguments => gives_pure hn) (gives_pure hn)

end Read

/-- There is a last name, and every name is one. -/
structure PathExpr.Named (path : PathExpr) : Prop where
  nonempty : path.names ≠ []
  names : ∀ name ∈ path.names, IsName name

namespace Read

open BuilderSynthesis.Syntax.Parser

theorem gives_pathBody (g : Grammar) (amongExpressions : Bool) : Gives (pathBody g amongExpressions) PathExpr.Named := by
  refine gives_bind fun leading => (gives_segment g amongExpressions).bind fun first hfirst => ?_
  have hother : Gives (do mark "::"; segment g amongExpressions) fun s => IsName s.name :=
    gives_bind fun _ => gives_segment g amongExpressions
  refine hother.whileSeen.bind fun others hothers => gives_pure ⟨?_, ?_⟩
  · exact List.cons_ne_nil _ _
  · intro name hname
    obtain ⟨s, hs, rfl⟩ := List.mem_map.mp hname
    rcases List.mem_cons.mp hs with rfl | hs
    · exact hfirst
    · exact hothers s hs

/-- A path has a last name, and all its names are names. -/
theorem gives_path (g : Grammar) (amongExpressions : Bool) : Gives (path g amongExpressions) PathExpr.Named := by
  refine (gives_pathBody g amongExpressions).captured.bind fun read hread => ?_
  exact gives_bind fun _ => gives_pure hread

end Read

/-! ## Whole texts -/

open BuilderSynthesis.Syntax.Parser

theorem rest_eq_nil_of_noteLeftover {s : Stream} (h : noteLeftover s = none) : s.rest = [] := by
  unfold noteLeftover at h
  split at h
  · cases h
  · assumption
  · cases h

/-- What is read to its end leaves nothing. -/
theorem onTokens_eq_ok {α : Type} {p : Parser α} {ts written : List Token} {closesAt : Position} {a : α}
    (h : onTokens ts closesAt p = .ok (a, written)) :
    ∃ after, p ⟨ts, closesAt, none, none, []⟩ = .ok (a, after) ∧ after.rest = [] := by
  unfold onTokens at h
  split at h
  · cases h
  · rename_i found after hp
    split at h
    · cases h
    · rename_i hn
      cases h
      exact ⟨after, hp, rest_eq_nil_of_noteLeftover hn⟩

/-- A text that reads as an identifier has no other token. -/
theorem tokens_of_readIdentifier {text name : String} (h : readIdentifier text = .ok name) :
    ∃ pos, tokens text = .ok [.ident name pos] := by
  unfold readIdentifier readText readChars at h
  cases ht : tokensOf text.toList with
  | error position =>
    rw [ht] at h
    cases h
  | ok ts =>
    rw [ht] at h
    cases ho : readTokens (fun _ => identifier) ts .start with
    | error problem =>
      simp only [ho] at h
      cases h
    | ok read =>
      simp only [ho] at h
      cases h
      obtain ⟨after, hi, hrest⟩ := onTokens_eq_ok ho
      obtain ⟨pos, hr, -⟩ := identifier_eq_ok hi
      rw [hrest] at hr
      exact ⟨pos, ht.trans (congrArg Except.ok hr)⟩

theorem isName_of_readIdentifier {text name : String} (h : readIdentifier text = .ok name) : IsName name := by
  obtain ⟨pos, ht⟩ := tokens_of_readIdentifier h
  exact (allLexed_tokens ht).1

/-- A text that starts like a name and reads as an identifier is that identifier exactly when nothing
in it separates tokens or starts a comment. -/
theorem eq_identifier_iff {text name : String} (h : readIdentifier text = .ok name)
    (hhead : ∀ c ∈ text.toList.head?, isNameChar c = true) :
    text = name ↔ text.toList.all staysTogether = true := by
  obtain ⟨pos, ht⟩ := tokens_of_readIdentifier h
  obtain ⟨after, hcut, hb⟩ := append_of_tokens ht hhead
  constructor
  · rintro rfl
    exact (isName_of_readIdentifier h).staysTogether
  · intro hall
    cases after with
    | nil =>
      rw [List.append_nil] at hcut
      exact String.toList_inj.mp hcut
    | cons c rest =>
      have hrest := not_all_staysTogether_of_blanks hb (List.cons_ne_nil _ _)
      rw [hcut, List.all_append, hrest, Bool.and_false] at hall
      cases hall

end BuilderSynthesis.Syntax
