/-
  BuilderSynthesis.Proofs.Rereading — readers on tokens that are known.

  `Reads` says what a reader makes of tokens like given ones, and what it writes, when something follows
  that lets it stop. It holds of readers that are put together if it holds of their parts, each on its
  share of the tokens: one after the other (`Reads.bind`), behind a look at what stands there
  (`reads_look`), in a bracket (`Reads.inside`), and again and again (`reads_whileSeen`,
  `makes_separatedUntil`, `makes_joinedBy`).

  Most readers are known for less. A reader takes tokens as a value (`Takes`), or makes something of them
  that has a property (`Makes`), whatever it writes; or it writes again what it reads (`Copies`).
-/

import Mathlib.Data.List.Forall2
import BuilderSynthesis.Proofs.Reading
import BuilderSynthesis.Proofs.Spelling

namespace BuilderSynthesis.Syntax

/-! ## Tokens that agree -/

namespace Token

theorem AllAgree.of_cons {t : Token} {ts us : List Token} (h : AllAgree (t :: ts) us) :
    ∃ v vs, us = v :: vs ∧ t.Agrees v ∧ AllAgree ts vs := by
  cases us with
  | nil => exact h.elim
  | cons v vs => exact ⟨v, vs, rfl, h⟩

theorem AllAgree.of_nil {us : List Token} (h : AllAgree [] us) : us = [] := by
  cases us with
  | nil => rfl
  | cons u us => exact h.elim

theorem Agrees.of_ident {name : String} {pos : Position} {u : Token} (h : Agrees (.ident name pos) u) :
    ∃ found, u = .ident name found := by
  cases u with
  | ident found p =>
    obtain rfl : name = found := h
    exact ⟨p, rfl⟩
  | _ => exact h.elim

theorem Agrees.of_punct {c : Char} {joint : Bool} {pos : Position} {u : Token} (h : Agrees (.punct c joint pos) u) :
    ∃ jointly found, u = .punct c jointly found ∧ (joint = true → jointly = true) := by
  cases u with
  | punct d jointly p =>
    obtain ⟨rfl, hj⟩ : c = d ∧ (joint = true → jointly = true) := h
    exact ⟨jointly, p, rfl, hj⟩
  | _ => exact h.elim

/-- An operator of one mark. -/
theorem AllAgree.of_symbol {operator : String} {ts us : List Token} (h : AllAgree (symbol operator ++ ts) us) (c : Char)
    (hc : operator.toList = [c]) : ∃ joint pos vs, us = .punct c joint pos :: vs ∧ AllAgree ts vs := by
  unfold symbol at h
  rw [hc] at h
  obtain ⟨v, vs, rfl, hv, hvs⟩ := AllAgree.of_cons (h : AllAgree (.punct c false .start :: ts) us)
  obtain ⟨joint, pos, rfl, -⟩ := hv.of_punct
  exact ⟨joint, pos, vs, rfl, hvs⟩

theorem AllAgree.of_symbol_alone {operator : String} {us : List Token} (h : AllAgree (symbol operator) us) (c : Char)
    (hc : operator.toList = [c]) : ∃ joint pos, us = [.punct c joint pos] := by
  rw [← List.append_nil (symbol operator)] at h
  obtain ⟨joint, pos, vs, rfl, hvs⟩ := h.of_symbol c hc
  exact ⟨joint, pos, by rw [hvs.of_nil]⟩

/-- An operator of two marks. -/
theorem AllAgree.of_symbol_pair {operator : String} {ts us : List Token} (h : AllAgree (symbol operator ++ ts) us)
    (c d : Char) (hc : operator.toList = [c, d]) :
    ∃ pos joint next vs, us = .punct c true pos :: .punct d joint next :: vs ∧ AllAgree ts vs := by
  unfold symbol at h
  rw [hc] at h
  obtain ⟨v, vs, rfl, hv, hvs⟩ :=
    AllAgree.of_cons (h : AllAgree (.punct c true .start :: .punct d false .start :: ts) us)
  obtain ⟨jointly, pos, rfl, hj⟩ := hv.of_punct
  obtain ⟨w, ws, rfl, hw, hws⟩ := hvs.of_cons
  obtain ⟨joint, next, rfl, -⟩ := hw.of_punct
  rw [hj rfl]
  exact ⟨pos, joint, next, ws, rfl, hws⟩

theorem Agrees.of_literal {text : String} {pos : Position} {u : Token} (h : Agrees (.literal text pos) u) :
    ∃ found, u = .literal text found := by
  cases u with
  | literal found p =>
    obtain rfl : text = found := h
    exact ⟨p, rfl⟩
  | _ => exact h.elim

theorem Agrees.of_group {delimiter : Delimiter} {content : List Token} {opensAt closesAt : Position} {u : Token}
    (h : Agrees (.group delimiter content opensAt closesAt) u) :
    ∃ inner opens closes, u = .group delimiter inner opens closes ∧ AllAgree content inner := by
  cases u with
  | group found inner p q =>
    obtain ⟨rfl, hi⟩ : delimiter = found ∧ AllAgree content inner := h
    exact ⟨inner, p, q, rfl, hi⟩
  | _ => exact h.elim

end Token

namespace Parser

variable {α β ι : Type}

/-! ## Runs -/

theorem run_bind (p : Parser α) (f : α → Parser β) (s : Stream) :
    (p >>= f) s = match p s with
      | .ok (a, after) => f a after
      | .error e => .error e := rfl

theorem run_pure (a : α) (s : Stream) : (pure a : Parser α) s = .ok (a, s) := rfl

theorem run_ite (c : Bool) (p q : Parser α) (s : Stream) :
    (if c = true then p else q) s = if c = true then p s else q s := by
  cases c <;> rfl

theorem run_remaining (s : Stream) : remaining s = .ok (s.rest, s) := rfl

theorem run_atEnd (s : Stream) : atEnd s = .ok (s.rest.isEmpty, s) := rfl

theorem run_sees (e : Expected) (s : Stream) : sees e s = .ok (e.stands s.rest, s) := rfl

theorem run_seesAny (es : List Expected) (s : Stream) : seesAny es s = .ok (es.any (·.stands s.rest), s) := rfl

theorem run_seesSecond (e : Expected) (s : Stream) : seesSecond e s = .ok (e.stands (afterTree s.rest), s) := rfl

theorem run_seesThird (e : Expected) (s : Stream) : seesThird e s = .ok (e.stands (afterTree (afterTree s.rest)), s) :=
  rfl

theorem run_seesBut (e : Expected) (es : List Expected) (s : Stream) :
    seesBut e es s = .ok (e.stands s.rest && !es.any (·.stands s.rest), s) := rfl

/-! ## Reading known tokens -/

/-- Where tokens like the given ones stand, with something after them that lets the reader stop, it takes
these tokens, and the value it makes of them and the tokens it writes have a property. -/
def Reads (like : List Token → List Token → Prop) (p : Parser α) (ts : List Token) (next : List Token → Bool)
    (holds : α → List Token → Prop) : Prop :=
  ∀ ⦃us more : List Token⦄ ⦃s : Stream⦄, like ts us → next more = true → s.rest = us ++ more →
    ∃ a ws, holds a ws ∧ p s = .ok (a, { s with rest := more, written := ws.reverse ++ s.written })

/-- What the reader makes of the tokens has a property. -/
abbrev Makes (like : List Token → List Token → Prop) (p : Parser α) (ts : List Token) (next : List Token → Bool)
    (holds : α → Prop) : Prop := Reads like p ts next fun a _ => holds a

/-- The reader makes the given value of the tokens. -/
abbrev Takes (like : List Token → List Token → Prop) (p : Parser α) (ts : List Token) (next : List Token → Bool)
    (a : α) : Prop := Makes like p ts next (· = a)

/-- The reader writes again what it reads. -/
abbrev Copies (like : List Token → List Token → Prop) (p : Parser α) (ts : List Token) (next : List Token → Bool)
    (holds : α → Prop) : Prop := Reads like p ts next fun a ws => holds a ∧ like ts ws

section

variable {like : List Token → List Token → Prop} {next after : List Token → Bool} {holds : α → List Token → Prop}

theorem Reads.imp {p : Parser α} {ts : List Token} {holds' : α → List Token → Prop} (hp : Reads like p ts next holds)
    (h : ∀ {a ws}, holds a ws → holds' a ws) : Reads like p ts next holds' := by
  intro us more s hu hm hs
  obtain ⟨a, ws, ha, hrun⟩ := hp hu hm hs
  exact ⟨a, ws, h ha, hrun⟩

theorem Reads.mono {p : Parser α} {ts : List Token} (hp : Reads like p ts next holds)
    (h : ∀ more, after more = true → next more = true) : Reads like p ts after holds :=
  fun _ _ _ hu hm hs => hp hu (h _ hm) hs

theorem Copies.makes {p : Parser α} {ts : List Token} {holds : α → Prop} (hp : Copies like p ts next holds) :
    Makes like p ts next holds := hp.imp fun h => h.1

/-- Another reader may do the same here. -/
theorem Reads.congr {p q : Parser α} {ts : List Token} (hq : Reads like q ts next holds)
    (h : ∀ {us more} {s : Stream}, like ts us → next more = true → s.rest = us ++ more → p s = q s) :
    Reads like p ts next holds := by
  intro us more s hu hm hs
  rw [h hu hm hs]
  exact hq hu hm hs

/-! ### Looking -/

/-- A reader that takes nothing here. -/
theorem reads_idle {p : Parser β} {f : β → Parser α} {ts : List Token} (b : β)
    (hp : ∀ {us more} {s : Stream}, like ts us → next more = true → s.rest = us ++ more → p s = .ok (b, s))
    (hf : Reads like (f b) ts next holds) : Reads like (p >>= f) ts next holds := by
  intro us more s hu hm hs
  obtain ⟨a, ws, ha, hrun⟩ := hf hu hm hs
  exact ⟨a, ws, ha, by rw [run_bind, hp hu hm hs]; exact hrun⟩

/-- What is only looked at. -/
theorem reads_look (value : List Token → β) {look : Parser β} {f : β → Parser α} {ts : List Token} (b : β)
    (hlook : ∀ s, look s = .ok (value s.rest, s))
    (hvalue : ∀ {us more}, like ts us → next more = true → value (us ++ more) = b)
    (hf : Reads like (f b) ts next holds) : Reads like (look >>= f) ts next holds :=
  reads_idle b (fun hu hm hs => by rw [hlook, hs, hvalue hu hm]) hf

/-- What does not matter may be looked at. -/
theorem reads_ignored {look : Parser β} {f : β → Parser α} {ts : List Token} (hlook : ∀ s, ∃ b, look s = .ok (b, s))
    (hf : ∀ b, Reads like (f b) ts next holds) : Reads like (look >>= f) ts next holds := by
  intro us more s hu hm hs
  obtain ⟨b, hb⟩ := hlook s
  obtain ⟨a, ws, ha, hrun⟩ := hf b hu hm hs
  exact ⟨a, ws, ha, by rw [run_bind, hb]; exact hrun⟩

section Looks

variable {f : Bool → Parser α} {ts : List Token} (b : Bool)

theorem reads_sees {e : Expected}
    (h : ∀ {us more}, like ts us → next more = true → e.stands (us ++ more) = b) (hf : Reads like (f b) ts next holds) :
    Reads like (sees e >>= f) ts next holds := reads_look e.stands b (run_sees e) h hf

theorem reads_seesAny {es : List Expected}
    (h : ∀ {us more}, like ts us → next more = true → es.any (·.stands (us ++ more)) = b)
    (hf : Reads like (f b) ts next holds) : Reads like (seesAny es >>= f) ts next holds :=
  reads_look (fun ts => es.any (·.stands ts)) b (run_seesAny es) h hf

theorem reads_seesBut {e : Expected} {es : List Expected}
    (h : ∀ {us more}, like ts us → next more = true →
      (e.stands (us ++ more) && !es.any (·.stands (us ++ more))) = b)
    (hf : Reads like (f b) ts next holds) : Reads like (seesBut e es >>= f) ts next holds :=
  reads_look (fun ts => e.stands ts && !es.any (·.stands ts)) b (run_seesBut e es) h hf

theorem reads_seesSecond {e : Expected}
    (h : ∀ {us more}, like ts us → next more = true → e.stands (afterTree (us ++ more)) = b)
    (hf : Reads like (f b) ts next holds) : Reads like (seesSecond e >>= f) ts next holds :=
  reads_look (fun ts => e.stands (afterTree ts)) b (run_seesSecond e) h hf

theorem reads_seesThird {e : Expected}
    (h : ∀ {us more}, like ts us → next more = true → e.stands (afterTree (afterTree (us ++ more))) = b)
    (hf : Reads like (f b) ts next holds) : Reads like (seesThird e >>= f) ts next holds :=
  reads_look (fun ts => e.stands (afterTree (afterTree ts))) b (run_seesThird e) h hf

theorem reads_atEnd (h : ∀ {us more}, like ts us → next more = true → (us ++ more).isEmpty = b)
    (hf : Reads like (f b) ts next holds) : Reads like (atEnd >>= f) ts next holds :=
  reads_look List.isEmpty b run_atEnd h hf

end Looks

theorem reads_unmarked {operator : String} {f : Bool → Parser α} {ts : List Token}
    (hne : ∀ {us more}, like ts us → next more = true → (Expected.mark operator).stands (us ++ more) = false)
    (hf : Reads like (f false) ts next holds) : Reads like (mark? operator >>= f) ts next holds := by
  refine reads_idle false (fun hu hm hs => ?_) hf
  unfold mark?
  rw [run_bind, run_sees, hs, hne hu hm]
  rfl

theorem reads_unworded {name : String} {f : Bool → Parser α} {ts : List Token}
    (hne : ∀ {us more}, like ts us → next more = true → (Expected.word name).stands (us ++ more) = false)
    (hf : Reads like (f false) ts next holds) : Reads like (word? name >>= f) ts next holds := by
  refine reads_idle false (fun hu hm hs => ?_) hf
  unfold word?
  rw [run_bind, run_sees, hs, hne hu hm]
  rfl

/-- What a reader writes is kept apart. -/
theorem Reads.captured {p : Parser α} {ts : List Token} (hp : Reads like p ts next holds) :
    Reads like (captured p) ts next fun read ws => holds read.1 read.2 ∧ ws = [] := by
  intro us more s hu hm hs
  obtain ⟨a, ws, ha, hrun⟩ := hp hu hm (s := { s with written := [] }) hs
  refine ⟨(a, ws), [], ⟨ha, rfl⟩, ?_⟩
  unfold Parser.captured
  simp only [hrun, List.append_nil, List.reverse_reverse]
  rfl

/-- What is read may be written in a form of its own. -/
theorem Reads.writtenBy {tokens : α → List Token} {p : Parser α} {ts : List Token} (hp : Reads like p ts next holds) :
    Reads like (Read.writtenBy tokens p) ts next fun a ws => (∃ vs, holds a vs) ∧ ws = tokens a := by
  intro us more s hu hm hs
  obtain ⟨⟨a, vs⟩, _, ⟨ha, rfl⟩, hw⟩ := hp.captured hu hm hs
  refine ⟨a, tokens a, ⟨⟨vs, ha⟩, rfl⟩, ?_⟩
  unfold Read.writtenBy
  rw [run_bind, hw]
  rfl

theorem Takes.writtenBy {tokens : α → List Token} {p : Parser α} {ts : List Token} {a : α} (hp : Takes like p ts next a) :
    Takes like (Read.writtenBy tokens p) ts next a := (Reads.writtenBy hp).imp fun ⟨⟨_, h⟩, _⟩ => h

/-- The source of what is read are the tokens that are taken. -/
theorem Reads.sourceOf {p : Parser α} {ts : List Token} (hp : Reads like p ts next holds) :
    Reads like (sourceOf p) ts next fun read ws => (∃ vs, holds read.1 vs) ∧ like ts read.2 ∧ ws = [] := by
  intro us more s hu hm hs
  obtain ⟨a, vs, ha, hrun⟩ := hp hu hm hs
  refine ⟨(a, us), [], ⟨⟨vs, ha⟩, hu, rfl⟩, ?_⟩
  unfold Parser.sourceOf
  simp only [hrun, hs, List.length_append, Nat.add_sub_cancel, List.take_left]
  rfl

theorem Copies.apart {p : Parser α} {ts : List Token} {holds : α → Prop}
    (hp : Copies like p ts next holds) : Reads like (apart p) ts next fun us ws => like ts us ∧ ws = [] := by
  intro us more s hu hm hs
  obtain ⟨⟨a, vs⟩, ws, ⟨⟨-, hlike⟩, rfl⟩, hrun⟩ := Reads.captured hp hu hm hs
  refine ⟨vs, [], ⟨hlike, rfl⟩, ?_⟩
  unfold Parser.apart
  rw [run_bind, hrun]
  rfl

/-- Tokens that are read to their end. -/
theorem Reads.onTokens {p : Parser α} {ts us : List Token} (hp : Reads like p ts next holds) (hu : like ts us)
    (hnext : next [] = true) (closesAt : Position) : ∃ a ws, holds a ws ∧ onTokens us closesAt p = .ok (a, ws) := by
  obtain ⟨a, ws, ha, hw⟩ := hp hu hnext (s := ⟨us, closesAt, none, none, []⟩) (List.append_nil _).symm
  refine ⟨a, ws, ha, ?_⟩
  unfold Parser.onTokens
  simp only [hw, List.append_nil, List.reverse_reverse]
  rfl

variable [Token.Likeness like]

theorem eq_nil_of_like {us : List Token} (h : like [] us) : us = [] := (Token.Likeness.agree h).of_nil

theorem isEmpty_of_like {ts us more : List Token} (hne : ts ≠ []) (hu : like ts us) : (us ++ more).isEmpty = false := by
  cases us with
  | cons u rest => rfl
  | nil => exact absurd (List.length_eq_zero_iff.mp (Token.length_of_allAgree (Token.Likeness.agree hu)).symm) hne

/-- What is read of tokens that agree is read of tokens that are alike in a narrower way. -/
theorem Reads.of_agree {p : Parser α} {ts : List Token} (hp : Reads Token.AllAgree p ts next holds) :
    Reads like p ts next holds := fun _ _ _ hu hm hs => hp (Token.Likeness.agree hu) hm hs

/-! ### One after the other -/

theorem reads_pure {a : α} (h : holds a []) : Reads like (pure a) [] next holds := by
  intro us more s hu _ hs
  rw [eq_nil_of_like hu, List.nil_append] at hs
  exact ⟨a, [], h, by rw [run_pure, ← hs]; rfl⟩

theorem reads_nil {p : Parser α}
    (h : ∀ s, next s.rest = true → ∃ a ws, holds a ws ∧ p s = .ok (a, { s with written := ws.reverse ++ s.written })) :
    Reads like p [] next holds := by
  intro us more s hu hm hs
  rw [eq_nil_of_like hu, List.nil_append] at hs
  obtain ⟨a, ws, ha, hw⟩ := h s (hs ▸ hm)
  exact ⟨a, ws, ha, by rw [hw, ← hs]⟩

theorem takes_pure (a : α) : Takes like (pure a) [] next a := reads_pure rfl

theorem Reads.bind {p : Parser α} {f : α → Parser β} {ts us : List Token} {holds' : β → List Token → Prop}
    (hp : Reads like p ts next holds)
    (hf : ∀ a vs, holds a vs → Reads like (f a) us after fun b ws => holds' b (vs ++ ws))
    (hnext : ∀ {vs more}, like us vs → after more = true → next (vs ++ more) = true) :
    Reads like (p >>= f) (ts ++ us) after holds' := by
  intro vs more s hv hm hs
  obtain ⟨ws, xs, rfl, hw, hx⟩ := Token.Likeness.of_append hv
  rw [List.append_assoc] at hs
  obtain ⟨a, v, ha, hpv⟩ := hp hw (hnext hx hm) hs
  obtain ⟨b, w, hb, hfw⟩ := hf a v ha hx hm (s := { s with rest := xs ++ more, written := v.reverse ++ s.written }) rfl
  exact ⟨b, v ++ w, hb, by rw [run_bind, hpv, List.reverse_append, List.append_assoc]; exact hfw⟩

theorem Makes.bind {p : Parser α} {f : α → Parser β} {ts us : List Token} {holds : α → Prop} {holds' : β → Prop}
    (hp : Makes like p ts next holds) (hf : ∀ a, holds a → Makes like (f a) us after holds')
    (hnext : ∀ {vs more}, like us vs → after more = true → next (vs ++ more) = true) :
    Makes like (p >>= f) (ts ++ us) after holds' := Reads.bind hp (fun a _ ha => hf a ha) hnext

theorem Takes.bind {p : Parser α} {f : α → Parser β} {ts us : List Token} {a : α} {holds' : β → Prop}
    (hp : Takes like p ts next a) (hf : Makes like (f a) us after holds')
    (hnext : ∀ {vs more}, like us vs → after more = true → next (vs ++ more) = true) :
    Makes like (p >>= f) (ts ++ us) after holds' := Makes.bind hp (fun _ h => h ▸ hf) hnext

theorem Copies.bind {p : Parser α} {f : α → Parser β} {ts us : List Token} {holds : α → Prop} {holds' : β → Prop}
    (hp : Copies like p ts next holds) (hf : ∀ a, holds a → Copies like (f a) us after holds')
    (hnext : ∀ {vs more}, like us vs → after more = true → next (vs ++ more) = true) :
    Copies like (p >>= f) (ts ++ us) after holds' :=
  Reads.bind hp (fun a _ ha => (hf a ha.1).imp fun hb => ⟨hb.1, Token.Likeness.append ha.2 hb.2⟩) hnext

theorem Reads.bind_nil {p : Parser α} {f : α → Parser β} {ts : List Token} {holds' : β → List Token → Prop}
    (hp : Reads like p ts after holds) (hf : ∀ a vs, holds a vs → Reads like (f a) [] after fun b ws => holds' b (vs ++ ws)) :
    Reads like (p >>= f) ts after holds' := by
  have hbind := Reads.bind hp hf fun hu hm => by rwa [eq_nil_of_like hu, List.nil_append]
  rwa [List.append_nil] at hbind

theorem Makes.bind_nil {p : Parser α} {f : α → Parser β} {ts : List Token} {holds : α → Prop} {holds' : β → Prop}
    (hp : Makes like p ts after holds) (hf : ∀ a, holds a → Makes like (f a) [] after holds') :
    Makes like (p >>= f) ts after holds' := Reads.bind_nil hp fun a _ ha => hf a ha

theorem Takes.bind_nil {p : Parser α} {f : α → Parser β} {ts : List Token} {a : α} {holds' : β → Prop}
    (hp : Takes like p ts after a) (hf : Makes like (f a) [] after holds') : Makes like (p >>= f) ts after holds' :=
  Makes.bind_nil hp fun _ h => h ▸ hf

theorem Copies.bind_nil {p : Parser α} {f : α → Parser β} {ts : List Token} {holds : α → Prop} {holds' : β → Prop}
    (hp : Copies like p ts after holds) (hf : ∀ a, holds a → Copies like (f a) [] after holds') :
    Copies like (p >>= f) ts after holds' := by
  have hbind := Copies.bind hp hf fun hu hm => by rwa [eq_nil_of_like hu, List.nil_append]
  rwa [List.append_nil] at hbind

theorem Makes.map {p : Parser α} {ts : List Token} {holds : α → Prop} {holds' : β → Prop} (f : α → β)
    (hp : Makes like p ts next holds) (h : ∀ a, holds a → holds' (f a)) : Makes like (f <$> p) ts next holds' :=
  Makes.bind_nil hp fun a ha => reads_pure (h a ha)

theorem Takes.map {p : Parser α} {ts : List Token} {a : α} (f : α → β) (hp : Takes like p ts next a) :
    Takes like (f <$> p) ts next (f a) := Makes.map f hp fun _ h => congrArg f h

/-! ### Single tokens -/

theorem afterMarks_marks {cs : List Char} {us : List Token} (hq : '\'' ∉ cs)
    (hu : Token.AllAgree (Token.marks cs) us) (more : List Token) : afterMarks cs (us ++ more) = some more := by
  induction cs generalizing us with
  | nil =>
    rw [hu.of_nil]
    rfl
  | cons c cs ih =>
    obtain ⟨hc, hcs⟩ : '\'' ≠ c ∧ '\'' ∉ cs := by simpa using hq
    cases cs with
    | nil =>
      obtain ⟨v, vs, rfl, hv, hvs⟩ := Token.AllAgree.of_cons (hu : Token.AllAgree [.punct c false .start] us)
      obtain ⟨joint, pos, rfl, -⟩ := hv.of_punct
      rw [hvs.of_nil]
      show (if c == c && c != '\'' then some more else none) = some more
      rw [if_pos]
      simp [Ne.symm hc]
    | cons d ds =>
      obtain ⟨v, vs, rfl, hv, hvs⟩ := Token.AllAgree.of_cons (hu : Token.AllAgree (.punct c true .start :: Token.marks (d :: ds)) us)
      obtain ⟨joint, pos, rfl, hj⟩ := hv.of_punct
      rw [List.cons_append, afterMarks, hj rfl, beq_self_eq_true]
      · exact ih hcs hvs
      · exact List.cons_ne_nil _ _

theorem stands_symbol {operator : String} {us : List Token} (hq : '\'' ∉ operator.toList)
    (hu : Token.AllAgree (Token.symbol operator) us) (more : List Token) :
    (Expected.mark operator).stands (us ++ more) = true := by
  show (afterMarks operator.toList (us ++ more)).isSome = true
  rw [afterMarks_marks hq hu]
  rfl

theorem length_marks (cs : List Char) : (Token.marks cs).length = cs.length := by
  induction cs with
  | nil => rfl
  | cons c cs ih =>
    cases cs with
    | nil => rfl
    | cons d ds => exact congrArg (· + 1) ih

theorem copies_mark (operator : String) (hq : '\'' ∉ operator.toList) :
    Copies like (mark operator) (Token.symbol operator) next fun _ => True := by
  intro us more s hu _ hs
  have hagree := Token.Likeness.agree hu
  have hlength : us.length = operator.toList.length := (Token.length_of_allAgree hagree).trans (length_marks _)
  have hafter := afterMarks_marks hq hagree more
  refine ⟨(), Token.symbol operator, ⟨trivial, Token.Likeness.refl _⟩, ?_⟩
  unfold mark inspect
  simp only [hs, hafter]
  show Except.ok ((), { s with rest := s.rest.drop operator.toList.length, written := _ }) = _
  rw [hs, ← hlength, List.drop_left]

theorem takes_mark (operator : String) (hq : '\'' ∉ operator.toList) :
    Takes like (mark operator) (Token.symbol operator) next () := (copies_mark operator hq).makes.imp fun _ => rfl

theorem exists_of_word {name : String} {pos : Position} {us : List Token} (hu : like [.ident name pos] us) :
    ∃ found, us = [.ident name found] := by
  obtain ⟨v, vs, rfl, hv, hvs⟩ := (Token.Likeness.agree hu).of_cons
  obtain ⟨found, rfl⟩ := hv.of_ident
  rw [hvs.of_nil]
  exact ⟨found, rfl⟩

theorem exists_of_group {delimiter : Delimiter} {content us : List Token} {opensAt closesAt : Position}
    (hu : like [.group delimiter content opensAt closesAt] us) :
    ∃ inner opens closes, us = [.group delimiter inner opens closes] ∧ like content inner := by
  obtain ⟨v, vs, rfl, hv, hvs⟩ := (Token.Likeness.agree hu).of_cons
  obtain ⟨inner, opens, closes, rfl, -⟩ := hv.of_group
  obtain rfl := hvs.of_nil
  exact ⟨inner, opens, closes, rfl, Token.Likeness.of_group hu⟩

theorem copies_word {name : String} : Copies like (word name) [Token.word name] next fun _ => True := by
  intro us more s hu _ hs
  obtain ⟨found, rfl⟩ := exists_of_word hu
  refine ⟨(), [Token.word name], ⟨trivial, Token.Likeness.refl _⟩, ?_⟩
  unfold word inspect
  simp only [hs, List.cons_append, List.nil_append, beq_self_eq_true, if_true]
  show Except.ok ((), { s with rest := s.rest.drop 1, written := _ }) = _
  rw [hs]
  rfl

theorem takes_word {name : String} : Takes like (word name) [Token.word name] next () := copies_word.makes.imp fun _ => rfl

theorem copies_anyWord {name : String} : Copies like anyWord [Token.word name] next (· = name) := by
  intro us more s hu _ hs
  obtain ⟨found, rfl⟩ := exists_of_word hu
  refine ⟨name, [Token.word name], ⟨rfl, Token.Likeness.refl _⟩, ?_⟩
  unfold anyWord inspect
  simp only [hs, List.cons_append, List.nil_append]
  show Except.ok (name, { s with rest := s.rest.drop 1, written := _ }) = _
  rw [hs]
  rfl

theorem takes_anyWord {name : String} : Takes like anyWord [Token.word name] next name := copies_anyWord.makes

theorem copies_identifier {name : String} (h : isReserved name = false) :
    Copies like identifier [Token.word name] next (· = name) := by
  refine copies_anyWord.congr fun hu _ hs => ?_
  obtain ⟨found, rfl⟩ := exists_of_word hu
  unfold identifier inspect
  simp only [hs, List.cons_append, h, Bool.false_eq_true, if_false]

theorem takes_identifier {name : String} (h : isReserved name = false) :
    Takes like identifier [Token.word name] next name := (copies_identifier h).makes

theorem lifetime_tokens (name : String) :
    Token.lifetime ("'" ++ name) = [.punct '\'' true .start, .ident name .start] := by
  unfold Token.lifetime Token.word
  rw [String.toList_append, show "'".toList = ['\''] from rfl, List.singleton_append, List.drop_succ_cons, List.drop_zero,
    String.ofList_toList]

theorem exists_of_lifetime {name : String} {us : List Token} (hu : Token.AllAgree (Token.lifetime ("'" ++ name)) us) :
    ∃ pos namePos, us = [.punct '\'' true pos, .ident name namePos] := by
  rw [lifetime_tokens] at hu
  obtain ⟨v, vs, rfl, hv, hvs⟩ := hu.of_cons
  obtain ⟨joint, pos, rfl, hj⟩ := hv.of_punct
  obtain ⟨w, ws, rfl, hw, hws⟩ := hvs.of_cons
  obtain ⟨namePos, rfl⟩ := hw.of_ident
  rw [hws.of_nil, hj rfl]
  exact ⟨pos, namePos, rfl⟩

theorem copies_lifetime {name : String} :
    Copies like lifetime (Token.lifetime ("'" ++ name)) next (· = "'" ++ name) := by
  intro us more s hu _ hs
  obtain ⟨pos, namePos, rfl⟩ := exists_of_lifetime (Token.Likeness.agree hu)
  refine ⟨"'" ++ name, Token.lifetime ("'" ++ name), ⟨rfl, Token.Likeness.refl _⟩, ?_⟩
  unfold lifetime inspect
  simp only [hs, List.cons_append, List.nil_append]
  show Except.ok ("'" ++ name, { s with rest := s.rest.drop 2, written := _ }) = _
  rw [hs]
  rfl

theorem takes_lifetime {name : String} : Takes like lifetime (Token.lifetime ("'" ++ name)) next ("'" ++ name) :=
  copies_lifetime.makes

/-! ### What may stand or not -/

theorem copies_mark? (operator : String) (hq : '\'' ∉ operator.toList) :
    Copies like (mark? operator) (Token.symbol operator) next (· = true) :=
  reads_sees true (fun hu _ => stands_symbol hq (Token.Likeness.agree hu) _)
    ((copies_mark operator hq).bind_nil fun _ _ => reads_pure ⟨rfl, Token.Likeness.refl _⟩)

theorem makes_marked {operator : String} {f : Bool → Parser α} {ts : List Token} {holds : α → Prop}
    (hq : '\'' ∉ operator.toList) (hf : Makes like (f true) ts next holds) :
    Makes like (mark? operator >>= f) (Token.symbol operator ++ ts) next holds :=
  Takes.bind ((copies_mark? operator hq).makes : Makes like _ _ (fun _ => true) _) hf fun _ _ => rfl

section Words

variable {name : String} {f : Bool → Parser α} {ts : List Token}

theorem copies_word? : Copies like (word? name) [Token.word name] next (· = true) := by
  refine reads_sees true (fun hu _ => ?_) (copies_word.bind_nil fun _ _ => reads_pure ⟨rfl, Token.Likeness.refl _⟩)
  obtain ⟨pos, rfl⟩ := exists_of_word hu
  exact beq_self_eq_true name

theorem makes_worded {holds : α → Prop} (hf : Makes like (f true) ts next holds) :
    Makes like (word? name >>= f) (Token.word name :: ts) next holds :=
  Takes.bind (copies_word?.makes : Makes like _ _ (fun _ => true) _) hf fun _ _ => rfl

end Words

/-! ### Brackets -/

/-- A bracket is written again with what its content is written as. -/
theorem Reads.inside {delimiter : Delimiter} {p : Parser α} {content : List Token} {opensAt closesAt : Position}
    (hp : Reads like p content List.isEmpty holds) :
    Reads like (inside delimiter p) [.group delimiter content opensAt closesAt] next fun a ws =>
      ∃ inner, holds a inner ∧
        (like content inner → like [.group delimiter content opensAt closesAt] ws) := by
  intro us more s hu _ hs
  obtain ⟨v, vs, rfl, hv, hvs⟩ := (Token.Likeness.agree hu).of_cons
  obtain ⟨inner, opens, closes, rfl, -⟩ := hv.of_group
  rw [hvs.of_nil] at hs hu
  have hend : ([] : List Token).isEmpty = true := rfl
  obtain ⟨a, w, ha, hw⟩ := hp (Token.Likeness.of_group hu) hend (s := ⟨inner, closes, some delimiter, s.leftover, []⟩)
    (List.append_nil _).symm
  refine ⟨a, [.group delimiter w opens closes], ⟨w, ha, Token.Likeness.regroup hu⟩, ?_⟩
  have hnote : ∀ (n : Option (Position × Option Delimiter)) (w : List Token),
      noteLeftover ⟨[], closes, some delimiter, n, w⟩ = n := by
    intro n w
    cases n <;> rfl
  unfold Parser.inside inspect
  simp only [hs, List.cons_append, List.nil_append, beq_self_eq_true, if_true]
  rw [run_bind]
  unfold enter
  simp only [hw, hnote, List.append_nil, List.reverse_reverse]
  show Except.ok (a, { s with rest := s.rest.drop 1, written := _ }) = _
  rw [hs]
  rfl

theorem Makes.inside {delimiter : Delimiter} {p : Parser α} {content : List Token} {opensAt closesAt : Position}
    {holds : α → Prop} (hp : Makes like p content List.isEmpty holds) :
    Makes like (inside delimiter p) [.group delimiter content opensAt closesAt] next holds :=
  (Reads.inside hp).imp fun ⟨_, ha, _⟩ => ha

theorem Copies.inside {delimiter : Delimiter} {p : Parser α} {content : List Token} {opensAt closesAt : Position}
    {holds : α → Prop} (hp : Copies like p content List.isEmpty holds) :
    Copies like (inside delimiter p) [.group delimiter content opensAt closesAt] next holds :=
  (Reads.inside hp).imp fun ⟨_, ha, hw⟩ => ⟨ha.1, hw ha.2⟩

/-! ### Repetition -/

theorem run_turns_again {σ : Type} {step : σ → Parser (Turn σ β)} {n : Nat} {state state' : σ} {s s' : Stream}
    (h : step state s = .ok (.again state', s')) : turns step (n + 1) state s = turns step n state' s' := by
  rw [turns, run_bind, h]

theorem run_turns_done {σ : Type} {step : σ → Parser (Turn σ β)} {n : Nat} {state : σ} {value : β} {s s' : Stream}
    (h : step state s = .ok (.done value, s')) : turns step (n + 1) state s = .ok (value, s') := by
  rw [turns, run_bind, h]
  rfl

theorem Reads.loop {σ : Type} {step : σ → Parser (Turn σ α)} {state : σ} {ts : List Token}
    (h : ∀ n, ts.length < n → Reads like (turns step n state) ts next holds) :
    Reads like (loop step state) ts next holds := by
  intro us more s hu hm hs
  refine h (s.rest.length + 1) ?_ hu hm hs
  rw [hs, List.length_append, Token.length_of_allAgree (Token.Likeness.agree hu)]
  omega

/-- One value is read for each item, and what is written for them stands in a row. -/
inductive ReadInTurn (holds : ι → α → List Token → Prop) : List ι → List α → List Token → Prop where
  | nil : ReadInTurn holds [] [] []
  | cons {i a ws is as vs} (first : holds i a ws) (rest : ReadInTurn holds is as vs) :
      ReadInTurn holds (i :: is) (a :: as) (ws ++ vs)

theorem ReadInTurn.forall₂ {holds : ι → α → List Token → Prop} {items : List ι} {as : List α} {ws : List Token}
    (h : ReadInTurn holds items as ws) : List.Forall₂ (fun i a => ∃ ws, holds i a ws) items as := by
  induction h with
  | nil => exact .nil
  | cons first rest ih => exact .cons ⟨_, first⟩ ih

theorem eq_of_forall₂ {items as : List α} (h : List.Forall₂ (fun i a => a = i) items as) : as = items := by
  induction h with
  | nil => rfl
  | cons first rest ih => rw [first, ih]

theorem run_whileStep_of_end {test : Parser Bool} {p : Parser α} {read : List α} {s : Stream}
    (h : test s = .ok (false, s)) : whileStep test p read s = .ok (.done read.reverse, s) := by
  unfold whileStep
  rw [run_bind, h]
  rfl

theorem run_whileStep_of_seen {test : Parser Bool} {p : Parser α} {read : List α} {s after : Stream} {a : α}
    (h : test s = .ok (true, s)) (hitem : p s = .ok (a, after)) :
    whileStep test p read s = .ok (.again (a :: read), after) := by
  unfold whileStep
  rw [run_bind, h]
  simp only [if_true]
  rw [run_bind, hitem]
  rfl

/-- Items that a test sees and the reader takes, up to where the test fails. -/
theorem reads_whileSeen (follows : List Token → Bool) {test : Parser Bool} {p : Parser α} {seen : List Token → Bool}
    {tokens : ι → List Token} {holds : ι → α → List Token → Prop} {items : List ι}
    (htest : ∀ s, test s = .ok (seen s.rest, s))
    (hend : ∀ {more}, next more = true → seen more = false ∧ follows more = true)
    (hseen : ∀ i ∈ items, ∀ {us more}, like (tokens i) us → seen (us ++ more) = true ∧ follows (us ++ more) = true)
    (hitem : ∀ i ∈ items, Reads like p (tokens i) follows (holds i)) (hne : ∀ i ∈ items, tokens i ≠ []) :
    Reads like (whileSeen test p) (items.flatMap tokens) next (ReadInTurn holds items) := by
  suffices hturns : ∀ (read : List α) (n : Nat), (items.flatMap tokens).length < n →
      Reads like (turns (whileStep test p) n read) (items.flatMap tokens) next fun as ws =>
        ∃ others, as = read.reverse ++ others ∧ ReadInTurn holds items others ws by
    refine Reads.loop fun n hn => (hturns [] n hn).imp ?_
    rintro as ws ⟨others, rfl, hall⟩
    exact hall
  induction items with
  | nil =>
    intro read n hn us more s hu hm hs
    obtain ⟨n, rfl⟩ : ∃ k, n = k + 1 := ⟨n - 1, by omega⟩
    rw [eq_nil_of_like hu, List.nil_append] at hs
    have hstep : whileStep test p read s = .ok (.done read.reverse, s) :=
      run_whileStep_of_end (by rw [htest, hs, (hend hm).1])
    refine ⟨read.reverse, [], ⟨[], (List.append_nil _).symm, .nil⟩, ?_⟩
    rw [run_turns_done hstep, ← hs]
    rfl
  | cons i rest ih =>
    intro read n hn us more s hu hm hs
    obtain ⟨n, rfl⟩ : ∃ k, n = k + 1 := ⟨n - 1, by omega⟩
    rw [List.flatMap_cons] at hu hn
    obtain ⟨vs, ws, rfl, hv, hw⟩ := Token.Likeness.of_append hu
    rw [List.append_assoc] at hs
    have hafter : follows (ws ++ more) = true := by
      cases rest with
      | nil =>
        rw [eq_nil_of_like hw]
        exact (hend hm).2
      | cons j others =>
        rw [List.flatMap_cons] at hw
        obtain ⟨xs, ys, rfl, hx, -⟩ := Token.Likeness.of_append hw
        rw [List.append_assoc]
        exact (hseen j (List.mem_cons_of_mem _ List.mem_cons_self) hx).2
    obtain ⟨a, w, ha, hp⟩ := hitem i List.mem_cons_self hv hafter hs
    have hlength : 0 < (tokens i).length := List.length_pos_iff.mpr (hne i List.mem_cons_self)
    rw [List.length_append] at hn
    obtain ⟨as, v, ⟨others, rfl, hall⟩, hv'⟩ := ih (fun j hj => hseen j (List.mem_cons_of_mem _ hj))
      (fun j hj => hitem j (List.mem_cons_of_mem _ hj)) (fun j hj => hne j (List.mem_cons_of_mem _ hj)) (a :: read) n
      (by omega) hw hm (s := { s with rest := ws ++ more, written := w.reverse ++ s.written }) rfl
    refine ⟨read.reverse ++ a :: others, w ++ v, ⟨a :: others, rfl, .cons ha hall⟩, ?_⟩
    have hstep : whileStep test p read s =
        .ok (.again (a :: read), { s with rest := ws ++ more, written := w.reverse ++ s.written }) :=
      run_whileStep_of_seen (by rw [htest, hs, (hseen i List.mem_cons_self hv).1]) hp
    rw [run_turns_again hstep, hv', List.reverse_cons, List.append_assoc, List.reverse_append, List.append_assoc]
    rfl

/-- Nothing is read where the test fails at once. -/
theorem run_whileSeen_nil {test : Parser Bool} {p : Parser α} {s : Stream} (h : test s = .ok (false, s)) :
    whileSeen test p s = .ok ([], s) := by
  have hturn : turns (whileStep test p) (s.rest.length + 1) [] s = .ok ([], s) := run_turns_done (run_whileStep_of_end h)
  exact hturn

/-- Where every item is read as itself, so are all of them. -/
theorem takes_whileSeen (follows : List Token → Bool) {test : Parser Bool} {p : Parser α} {seen : List Token → Bool}
    {tokens : α → List Token} {items : List α} (htest : ∀ s, test s = .ok (seen s.rest, s))
    (hend : ∀ {more}, next more = true → seen more = false ∧ follows more = true)
    (hseen : ∀ a ∈ items, ∀ {us more}, like (tokens a) us → seen (us ++ more) = true ∧ follows (us ++ more) = true)
    (hitem : ∀ a ∈ items, Takes like p (tokens a) follows a) (hne : ∀ a ∈ items, tokens a ≠ []) :
    Takes like (whileSeen test p) (items.flatMap tokens) next items :=
  (reads_whileSeen follows htest hend hseen hitem hne).imp fun h => eq_of_forall₂ (h.forall₂.imp fun _ _ ⟨_, ha⟩ => ha)

theorem joinTokens_cons_of_ne {separator : List Token} {trailing : Bool} {part : List Token} {parts : List (List Token)}
    (h : parts = [] → trailing = true) :
    joinTokens separator trailing (part :: parts) = part ++ (separator ++ joinTokens separator trailing parts) := by
  cases parts with
  | nil =>
    rw [h rfl]
    exact congrArg (part ++ ·) (List.append_nil _).symm
  | cons next rest => exact List.append_assoc ..

/-- A separator follows an item that is not the last, or behind which one is to stand. -/
theorem joinTokens_map_cons {separator : List Token} {trailing : Bool} {tokens : ι → List Token} {i : ι} {rest : List ι}
    (h : ¬ (rest = [] ∧ trailing = false)) :
    joinTokens separator trailing ((i :: rest).map tokens) =
      tokens i ++ (separator ++ joinTokens separator trailing (rest.map tokens)) :=
  joinTokens_cons_of_ne fun hnone =>
    Bool.of_not_eq_false fun htrailing => h ⟨List.map_eq_nil_iff.mp hnone, htrailing⟩

/-- Whether the items end in a separator is known from the last that was read. -/
theorem ended_of_separator {trailing : Bool} {rest : List ι} (h : ¬ (rest = [] ∧ trailing = false)) :
    (if rest.isEmpty then true else trailing) = trailing := by
  cases rest with
  | nil => exact (Bool.of_not_eq_false fun htrailing => h ⟨rfl, htrailing⟩).symm
  | cons j others => rfl

theorem commas_cons {trailing : Bool} {part : List Token} {parts : List (List Token)} (h : parts = [] → trailing = true) :
    commas trailing (part :: parts) = part ++ (Token.symbol "," ++ commas trailing parts) := joinTokens_cons_of_ne h

theorem like_commas {ts us : List (List Token)} (h : List.Forall₂ like ts us) (trailing : Bool) :
    like (commas trailing ts) (commas trailing us) := by
  induction h with
  | nil => exact Token.Likeness.refl _
  | @cons t u ts us first rest ih =>
    cases rest with
    | nil => exact Token.Likeness.append first (Token.Likeness.refl _)
    | @cons a b as bs second others =>
      rw [@commas_cons trailing t (a :: as) nofun, @commas_cons trailing u (b :: bs) nofun]
      exact Token.Likeness.append first (Token.Likeness.append (Token.Likeness.refl _) ih)

/-- One turn over items with separators between them. -/
def separatedStep (stop : Parser Bool) (separator : Parser Unit) (p : Parser α) (read : List α × Bool) :
    Parser (Turn (List α × Bool) (List α × Bool)) := do
  if ← stop then pure (.done (read.1.reverse, read.2))
  else
    let a ← p
    if ← stop then pure (.done ((a :: read.1).reverse, false))
    else
      separator
      pure (.again (a :: read.1, true))

theorem run_separatedStep_of_stop {stop : Parser Bool} {separator : Parser Unit} {p : Parser α} {read : List α × Bool}
    {s : Stream} (hstop : stop s = .ok (true, s)) :
    separatedStep stop separator p read s = .ok (.done (read.1.reverse, read.2), s) := by
  unfold separatedStep
  rw [run_bind, hstop]
  rfl

theorem run_separatedStep_of_last {stop : Parser Bool} {separator : Parser Unit} {p : Parser α} {read : List α × Bool}
    {s after : Stream} {a : α} (hstart : stop s = .ok (false, s)) (hitem : p s = .ok (a, after))
    (hstop : stop after = .ok (true, after)) :
    separatedStep stop separator p read s = .ok (.done ((a :: read.1).reverse, false), after) := by
  unfold separatedStep
  rw [run_bind, hstart]
  simp only [Bool.false_eq_true, if_false]
  rw [run_bind, hitem]
  simp only
  rw [run_bind, hstop]
  rfl

theorem run_separatedStep_of_more {stop : Parser Bool} {separator : Parser Unit} {p : Parser α} {read : List α × Bool}
    {s after next : Stream} {a : α} (hstart : stop s = .ok (false, s)) (hitem : p s = .ok (a, after))
    (hgo : stop after = .ok (false, after)) (hseparator : separator after = .ok ((), next)) :
    separatedStep stop separator p read s = .ok (.again (a :: read.1, true), next) := by
  unfold separatedStep
  rw [run_bind, hstart]
  simp only [Bool.false_eq_true, if_false]
  rw [run_bind, hitem]
  simp only
  rw [run_bind, hgo]
  simp only [Bool.false_eq_true, if_false]
  rw [run_bind, hseparator]
  rfl

/-- Items with commas between them, up to where a test holds. If each is written again as it is read, so
are all of them. -/
theorem reads_separatedUntil {stop : Parser Bool} {p : Parser α} {stops : List Token → Bool} {tokens : ι → List Token}
    {holds : ι → α → List Token → Prop} {items : List ι} {trailing : Bool} (hstop : ∀ s, stop s = .ok (stops s.rest, s))
    (hend : ∀ {more}, next more = true → stops more = true)
    (hnever : ∀ {joint pos more}, stops (.punct ',' joint pos :: more) = false)
    (hstart : ∀ i ∈ items, ∀ {us more}, like (tokens i) us → stops (us ++ more) = false)
    (hitem : ∀ i ∈ items, Reads like p (tokens i) (fun more => (Expected.mark ",").stands more || next more) (holds i))
    (htrailing : items = [] → trailing = false) :
    Reads like (separatedUntil stop (mark ",") p) (commas trailing (items.map tokens)) next fun read ws =>
      List.Forall₂ (fun i a => ∃ ws, holds i a ws) items read.1 ∧ read.2 = trailing ∧
        ((∀ i ∈ items, ∀ a ws, holds i a ws → like (tokens i) ws) → like (commas trailing (items.map tokens)) ws) := by
  suffices hturns : ∀ (read : List α) (before : Bool) (n : Nat), (commas trailing (items.map tokens)).length < n →
      Reads like (turns (separatedStep stop (mark ",") p) n (read, before)) (commas trailing (items.map tokens)) next
        fun found ws => ∃ others, found = (read.reverse ++ others, if items.isEmpty then before else trailing) ∧
          List.Forall₂ (fun i a => ∃ ws, holds i a ws) items others ∧
          ((∀ i ∈ items, ∀ a ws, holds i a ws → like (tokens i) ws) → like (commas trailing (items.map tokens)) ws) by
    refine Reads.loop fun n hn => (hturns [] false n hn).imp ?_
    rintro found ws ⟨others, rfl, hall, hwritten⟩
    refine ⟨hall, ?_, hwritten⟩
    cases items with
    | nil => exact (htrailing rfl).symm
    | cons i rest => rfl
  -- What is left of the items is taken apart; before the end there is a comma or there is none.
  clear htrailing
  induction items with
  | nil =>
    intro read before n hn us more s hu hm hs
    obtain ⟨n, rfl⟩ : ∃ k, n = k + 1 := ⟨n - 1, by omega⟩
    rw [eq_nil_of_like hu, List.nil_append] at hs
    have hstep : separatedStep stop (mark ",") p (read, before) s = .ok (.done (read.reverse, before), s) :=
      run_separatedStep_of_stop (by rw [hstop, hs, hend hm])
    refine ⟨(read.reverse, before), [], ⟨[], by rw [List.append_nil]; rfl, .nil, fun _ => Token.Likeness.refl _⟩, ?_⟩
    rw [run_turns_done hstep, ← hs]
    rfl
  | cons i rest ih =>
    intro read before n hn us more s hu hm hs
    obtain ⟨n, rfl⟩ : ∃ k, n = k + 1 := ⟨n - 1, by omega⟩
    have hread := hitem i List.mem_cons_self
    by_cases hlast : rest = [] ∧ trailing = false
    · obtain ⟨rfl, rfl⟩ := hlast
      have hparts : commas false (List.map tokens [i]) = tokens i := List.append_nil _
      rw [hparts] at hu
      obtain ⟨a, w, ha, hp⟩ := hread hu (Bool.or_eq_true_iff.mpr (Or.inr hm)) hs
      have hstep : separatedStep stop (mark ",") p (read, before) s =
          .ok (.done ((a :: read).reverse, false), { s with rest := more, written := w.reverse ++ s.written }) :=
        run_separatedStep_of_last (by rw [hstop, hs, hstart i List.mem_cons_self hu]) hp (by rw [hstop, hend hm])
      refine ⟨_, w, ⟨[a], rfl, .cons ⟨w, ha⟩ .nil, fun hlike => ?_⟩, by rw [run_turns_done hstep, List.reverse_cons]; rfl⟩
      rw [hparts]
      exact hlike i List.mem_cons_self a w ha
    · have hparts : commas trailing (List.map tokens (i :: rest)) =
          tokens i ++ (Token.symbol "," ++ commas trailing (rest.map tokens)) := joinTokens_map_cons hlast
      rw [hparts] at hu hn
      obtain ⟨vs, ws, rfl, hv, hw⟩ := Token.Likeness.of_append hu
      obtain ⟨xs, ys, rfl, hx, hy⟩ := Token.Likeness.of_append hw
      have hcommas := Token.Likeness.agree hx
      obtain ⟨joint, pos, rfl⟩ := hcommas.of_symbol_alone ',' rfl
      rw [List.append_assoc] at hs
      have hseen : (Expected.mark ",").stands ([.punct ',' joint pos] ++ ys ++ more) = true := by
        rw [List.append_assoc]
        exact stands_symbol (by decide) hcommas _
      obtain ⟨a, w, ha, hp⟩ := hread hv (Bool.or_eq_true_iff.mpr (Or.inl hseen)) hs
      have hgo : stops ([.punct ',' joint pos] ++ ys ++ more) = false := hnever
      have hseparator : Copies like (mark ",") (Token.symbol ",") (fun _ => true) fun _ => True := copies_mark "," (by decide)
      obtain ⟨_, v, ⟨-, hcomma⟩, hmark⟩ := hseparator hx rfl
        (s := { s with rest := [.punct ',' joint pos] ++ ys ++ more, written := w.reverse ++ s.written }) (List.append_assoc ..)
      have hstep : separatedStep stop (mark ",") p (read, before) s =
          .ok (.again (a :: read, true), { s with rest := ys ++ more, written := v.reverse ++ (w.reverse ++ s.written) }) :=
        run_separatedStep_of_more (by rw [hstop, hs, hstart i List.mem_cons_self hv]) hp (by rw [hstop, hgo]) hmark
      rw [List.length_append, List.length_append] at hn
      have hone : (Token.symbol ",").length = 1 := rfl
      obtain ⟨_, u, ⟨others, rfl, hall, hwritten⟩, hrest⟩ := ih (fun j hj => hstart j (List.mem_cons_of_mem _ hj))
        (fun j hj => hitem j (List.mem_cons_of_mem _ hj)) (a :: read) true n (by omega) hy hm
        (s := { s with rest := ys ++ more, written := v.reverse ++ (w.reverse ++ s.written) }) rfl
      refine ⟨(read.reverse ++ a :: others, trailing), w ++ (v ++ u), ⟨a :: others, rfl, .cons ⟨w, ha⟩ hall, fun hlike => ?_⟩, ?_⟩
      · rw [hparts]
        exact Token.Likeness.append (hlike i List.mem_cons_self a w ha)
          (Token.Likeness.append hcomma (hwritten fun j hj => hlike j (List.mem_cons_of_mem _ hj)))
      rw [run_turns_again hstep, hrest, ended_of_separator hlast]
      simp

theorem makes_separatedUntil {stop : Parser Bool} {p : Parser α} {stops : List Token → Bool} {tokens : ι → List Token}
    {holds : ι → α → Prop} {items : List ι} {trailing : Bool} (hstop : ∀ s, stop s = .ok (stops s.rest, s))
    (hend : ∀ {more}, next more = true → stops more = true)
    (hnever : ∀ {joint pos more}, stops (.punct ',' joint pos :: more) = false)
    (hstart : ∀ i ∈ items, ∀ {us more}, like (tokens i) us → stops (us ++ more) = false)
    (hitem : ∀ i ∈ items, Makes like p (tokens i) (fun more => (Expected.mark ",").stands more || next more) (holds i))
    (htrailing : items = [] → trailing = false) :
    Makes like (separatedUntil stop (mark ",") p) (commas trailing (items.map tokens)) next fun read =>
      List.Forall₂ holds items read.1 ∧ read.2 = trailing :=
  (reads_separatedUntil hstop hend hnever hstart hitem htrailing).imp fun ⟨hall, htrailing, _⟩ =>
    ⟨hall.imp fun _ _ ⟨_, ha⟩ => ha, htrailing⟩

theorem copies_separatedUntil {stop : Parser Bool} {p : Parser α} {stops : List Token → Bool} {tokens : ι → List Token}
    {holds : ι → α → Prop} {items : List ι} {trailing : Bool} (hstop : ∀ s, stop s = .ok (stops s.rest, s))
    (hend : ∀ {more}, next more = true → stops more = true)
    (hnever : ∀ {joint pos more}, stops (.punct ',' joint pos :: more) = false)
    (hstart : ∀ i ∈ items, ∀ {us more}, like (tokens i) us → stops (us ++ more) = false)
    (hitem : ∀ i ∈ items, Copies like p (tokens i) (fun more => (Expected.mark ",").stands more || next more) (holds i))
    (htrailing : items = [] → trailing = false) :
    Copies like (separatedUntil stop (mark ",") p) (commas trailing (items.map tokens)) next fun read =>
      List.Forall₂ holds items read.1 ∧ read.2 = trailing :=
  (reads_separatedUntil hstop hend hnever hstart hitem htrailing).imp fun ⟨hall, htrailing, hwritten⟩ =>
    ⟨⟨hall.imp fun _ _ ⟨_, ha⟩ => ha.1, htrailing⟩, hwritten fun _ _ _ _ ha => ha.2⟩

theorem takes_separatedUntil {stop : Parser Bool} {p : Parser α} {stops : List Token → Bool} {tokens : α → List Token}
    {items : List α} {trailing : Bool} (hstop : ∀ s, stop s = .ok (stops s.rest, s))
    (hend : ∀ {more}, next more = true → stops more = true)
    (hcomma : ∀ {joint pos more}, stops (.punct ',' joint pos :: more) = false)
    (hstart : ∀ a ∈ items, ∀ {us more}, like (tokens a) us → stops (us ++ more) = false)
    (hitem : ∀ a ∈ items, Takes like p (tokens a) (fun more => (Expected.mark ",").stands more || next more) a)
    (htrailing : items = [] → trailing = false) :
    Takes like (separatedUntil stop (mark ",") p) (commas trailing (items.map tokens)) next (items, trailing) :=
  (makes_separatedUntil hstop hend hcomma hstart hitem htrailing).imp fun ⟨hall, htrailing⟩ =>
    Prod.ext (eq_of_forall₂ hall) htrailing

/-- One turn over items joined by an operator. -/
def joinedStep (operator : String) (stop : Parser Bool) (p : Parser α) (read : List α) :
    Parser (Turn (List α) (List α × Bool)) := do
  if ← stop then pure (.done (read.reverse, !read.isEmpty))
  else
    let a ← p
    if ← mark? operator then pure (.again (a :: read))
    else pure (.done ((a :: read).reverse, false))

theorem run_joinedStep_of_stop {operator : String} {stop : Parser Bool} {p : Parser α} {read : List α} {s : Stream}
    (hstop : stop s = .ok (true, s)) : joinedStep operator stop p read s = .ok (.done (read.reverse, !read.isEmpty), s) := by
  unfold joinedStep
  rw [run_bind, hstop]
  rfl

theorem run_joinedStep_of_last {operator : String} {stop : Parser Bool} {p : Parser α} {read : List α} {s after : Stream}
    {a : α} (hstart : stop s = .ok (false, s)) (hitem : p s = .ok (a, after))
    (hend : (Expected.mark operator).stands after.rest = false) :
    joinedStep operator stop p read s = .ok (.done ((a :: read).reverse, false), after) := by
  unfold joinedStep mark?
  rw [run_bind, hstart]
  simp only [Bool.false_eq_true, if_false]
  rw [run_bind, hitem]
  simp only
  rw [run_bind, run_bind, run_sees, hend]
  rfl

theorem run_joinedStep_of_more {operator : String} {stop : Parser Bool} {p : Parser α} {read : List α}
    {s after next : Stream} {a : α} (hstart : stop s = .ok (false, s)) (hitem : p s = .ok (a, after))
    (hoperator : mark? operator after = .ok (true, next)) :
    joinedStep operator stop p read s = .ok (.again (a :: read), next) := by
  unfold joinedStep
  rw [run_bind, hstart]
  simp only [Bool.false_eq_true, if_false]
  rw [run_bind, hitem]
  simp only
  rw [run_bind, hoperator]
  rfl

/-- Items joined by an operator, up to where a test holds and the operator does not stand. -/
theorem makes_joinedBy {operator : String} (hq : '\'' ∉ operator.toList) {stop : Parser Bool} {p : Parser α}
    {stops : List Token → Bool} {tokens : ι → List Token} {holds : ι → α → Prop} {items : List ι} {trailing : Bool}
    (hstop : ∀ s, stop s = .ok (stops s.rest, s))
    (hend : ∀ {more}, next more = true → stops more = true ∧ (Expected.mark operator).stands more = false)
    (hstart : ∀ i ∈ items, ∀ {us more}, like (tokens i) us → stops (us ++ more) = false)
    (hitem : ∀ i ∈ items, Makes like p (tokens i) (fun more => (Expected.mark operator).stands more || next more) (holds i))
    (htrailing : items = [] → trailing = false) (hne : ∀ i ∈ items, tokens i ≠ []) :
    Makes like (joinedBy operator stop p) (joinTokens (Token.symbol operator) trailing (items.map tokens)) next fun read =>
      List.Forall₂ holds items read.1 ∧ read.2 = trailing := by
  suffices hturns : ∀ (read : List α) (n : Nat), (joinTokens (Token.symbol operator) trailing (items.map tokens)).length < n →
      Makes like (turns (joinedStep operator stop p) n read) (joinTokens (Token.symbol operator) trailing (items.map tokens))
        next fun found => ∃ others, found = (read.reverse ++ others, if items.isEmpty then !read.isEmpty else trailing) ∧
          List.Forall₂ holds items others by
    refine Reads.loop fun n hn => (hturns [] n hn).imp ?_
    rintro found ws ⟨others, rfl, hall⟩
    refine ⟨hall, ?_⟩
    cases items with
    | nil => exact (htrailing rfl).symm
    | cons i rest => rfl
  clear htrailing
  induction items with
  | nil =>
    intro read n hn us more s hu hm hs
    obtain ⟨n, rfl⟩ : ∃ k, n = k + 1 := ⟨n - 1, by omega⟩
    rw [eq_nil_of_like hu, List.nil_append] at hs
    have hstep : joinedStep operator stop p read s = .ok (.done (read.reverse, !read.isEmpty), s) :=
      run_joinedStep_of_stop (by rw [hstop, hs, (hend hm).1])
    refine ⟨(read.reverse, !read.isEmpty), [], ⟨[], by rw [List.append_nil]; rfl, .nil⟩, ?_⟩
    rw [run_turns_done hstep, ← hs]
    rfl
  | cons i rest ih =>
    intro read n hn us more s hu hm hs
    obtain ⟨n, rfl⟩ : ∃ k, n = k + 1 := ⟨n - 1, by omega⟩
    have hread := hitem i List.mem_cons_self
    by_cases hlast : rest = [] ∧ trailing = false
    · obtain ⟨rfl, rfl⟩ := hlast
      have hparts : joinTokens (Token.symbol operator) false (List.map tokens [i]) = tokens i := List.append_nil _
      rw [hparts] at hu
      obtain ⟨a, w, ha, hp⟩ := hread hu (Bool.or_eq_true_iff.mpr (Or.inr hm)) hs
      have hstep : joinedStep operator stop p read s =
          .ok (.done ((a :: read).reverse, false), { s with rest := more, written := w.reverse ++ s.written }) :=
        run_joinedStep_of_last (by rw [hstop, hs, hstart i List.mem_cons_self hu]) hp (hend hm).2
      exact ⟨_, w, ⟨[a], rfl, .cons ha .nil⟩, by rw [run_turns_done hstep, List.reverse_cons]; rfl⟩
    · have hparts : joinTokens (Token.symbol operator) trailing (List.map tokens (i :: rest)) =
          tokens i ++ (Token.symbol operator ++ joinTokens (Token.symbol operator) trailing (rest.map tokens)) :=
        joinTokens_map_cons hlast
      rw [hparts] at hu hn
      obtain ⟨vs, ws, rfl, hv, hw⟩ := Token.Likeness.of_append hu
      rw [List.append_assoc] at hs
      obtain ⟨xs, ys, rfl, hx, hy⟩ := Token.Likeness.of_append hw
      have hseen : (Expected.mark operator).stands (xs ++ ys ++ more) = true := by
        rw [List.append_assoc]
        exact stands_symbol hq (Token.Likeness.agree hx) _
      obtain ⟨a, w, ha, hp⟩ := hread hv (Bool.or_eq_true_iff.mpr (Or.inl hseen)) hs
      have hoperator : Takes like (mark? operator) (Token.symbol operator) (fun _ => true) true :=
        (copies_mark? operator hq).makes
      obtain ⟨_, v, rfl, hmark⟩ := hoperator hx rfl
        (s := { s with rest := xs ++ ys ++ more, written := w.reverse ++ s.written }) (List.append_assoc ..)
      have hstep : joinedStep operator stop p read s =
          .ok (.again (a :: read), { s with rest := ys ++ more, written := v.reverse ++ (w.reverse ++ s.written) }) :=
        run_joinedStep_of_more (by rw [hstop, hs, hstart i List.mem_cons_self hv]) hp hmark
      have hlength : 0 < (tokens i).length := List.length_pos_iff.mpr (hne i List.mem_cons_self)
      rw [List.length_append, List.length_append] at hn
      obtain ⟨_, u, ⟨others, rfl, hall⟩, hrest⟩ := ih (fun j hj => hstart j (List.mem_cons_of_mem _ hj))
        (fun j hj => hitem j (List.mem_cons_of_mem _ hj)) (fun j hj => hne j (List.mem_cons_of_mem _ hj)) (a :: read) n
        (by omega) hy hm (s := { s with rest := ys ++ more, written := v.reverse ++ (w.reverse ++ s.written) }) rfl
      refine ⟨(read.reverse ++ a :: others, trailing), w ++ v ++ u, ⟨a :: others, rfl, .cons ha hall⟩, ?_⟩
      have hended : (if rest.isEmpty then !(a :: read).isEmpty else trailing) = trailing := ended_of_separator hlast
      rw [run_turns_again hstep, hrest, hended]
      simp

theorem takes_joinedBy {operator : String} (hq : '\'' ∉ operator.toList) {stop : Parser Bool} {p : Parser α}
    {stops : List Token → Bool} {tokens : α → List Token} {items : List α} {trailing : Bool}
    (hstop : ∀ s, stop s = .ok (stops s.rest, s))
    (hend : ∀ {more}, next more = true → stops more = true ∧ (Expected.mark operator).stands more = false)
    (hstart : ∀ a ∈ items, ∀ {us more}, like (tokens a) us → stops (us ++ more) = false)
    (hitem : ∀ a ∈ items, Takes like p (tokens a) (fun more => (Expected.mark operator).stands more || next more) a)
    (htrailing : items = [] → trailing = false) (hne : ∀ a ∈ items, tokens a ≠ []) :
    Takes like (joinedBy operator stop p) (joinTokens (Token.symbol operator) trailing (items.map tokens)) next
      (items, trailing) :=
  (makes_joinedBy hq hstop hend hstart hitem htrailing hne).imp fun ⟨hall, htrailing⟩ =>
    Prod.ext (eq_of_forall₂ hall) htrailing

end

end Parser

end BuilderSynthesis.Syntax
