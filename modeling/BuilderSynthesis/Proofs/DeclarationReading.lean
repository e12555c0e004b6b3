/-
  BuilderSynthesis.Proofs.DeclarationReading — names, paths and visibilities are read again.

  A name that is not reserved is read as itself (`readIdentifier_of_isFree`), and so is a path of names
  (`readPath_of_names`). A visibility is read as one that is written alike (`copies_visibility`), unless
  what follows would be taken for its restriction.
-/

import BuilderSynthesis.Proofs.DescriptorTexts
import BuilderSynthesis.Proofs.GenericsReading
import BuilderSynthesis.Proofs.ReadItems

namespace BuilderSynthesis.Syntax

open BuilderSynthesis.Syntax.Parser

/-! ## Names and paths -/

theorem readIdentifier_of_isFree {name : String} (h : IsFree name) : readIdentifier name = .ok name := by
  have hspelled : Spells (name.toList ++ []) [Token.word name] := .word h.1 rfl .nil
  rw [List.append_nil] at hspelled
  exact readText_of_spells hspelled (takes_identifier h.2 : Takes _ _ _ (fun _ => true) _) rfl

theorem readPath_of_names {leading : Bool} {names : List String} {last : String}
    (h : ∀ name ∈ names ++ [last], IsIdentifier name ∧ isPathName name = true) :
    readPath (pathText leading names last) = .ok (pathOf leading names last .none) := by
  have hlast := h last (List.mem_append_right _ (List.mem_singleton_self _))
  have hproper : (pathOf leading names last .none).Proper :=
    proper_pathOf.mpr ⟨fun name hn => h name (List.mem_append_left _ hn), ⟨hlast.1, hlast.2, nofun⟩, trivial⟩
  have hspelled : Spells ((pathText leading names last).toList ++ []) (pathOf leading names last .none).tokens :=
    Descriptor.spells_pathOf hproper rfl .nil
  rw [List.append_nil] at hspelled
  have hbare : ∀ s ∈ (pathOf leading names last .none).segments, s.arguments.areOfPlain = true := by
    intro s hs
    rcases List.mem_append.mp hs with hs | hs
    · obtain ⟨name, -, rfl⟩ := List.mem_map.mp hs
      rfl
    · rw [List.mem_singleton.mp hs]
      rfl
  have hgrammar := rereads_grammar (4 * Token.sizes (pathOf leading names last .none).tokens + 7)
  exact readText_of_spells hspelled (Takes.writtenBy (Read.takes_pathBody hgrammar hbare hproper (by omega) nofun)) rfl

/-! ## Paths of names in the source -/

section

variable {like : List Token → List Token → Prop} [Token.Likeness like] {next : List Token → Bool}

/-- A path of names does not go on here. -/
def endsNames (ts : List Token) : Bool := !(Expected.mark "::").stands ts

theorem stands_of_isPlainName {name : String} (h : IsPlainName name) (pos : Position) (rest : List Token) :
    (Expected.identifier :: .word "Self" :: Read.pathWords).any (·.stands (.ident name pos :: rest)) = true := by
  obtain ⟨-, hpath, htry⟩ := h
  have hword : ∀ word ∈ ["Self", "self", "super", "crate"], name = word →
      (Expected.identifier :: .word "Self" :: Read.pathWords).any (·.stands (.ident name pos :: rest)) = true := by
    rintro word hw rfl
    refine List.any_eq_true.mpr ⟨.word name, ?_, beq_self_eq_true name⟩
    exact List.mem_cons_of_mem _ (List.mem_map_of_mem (f := Expected.word) hw)
  rw [isPathName, takesArguments, Bool.or_eq_true, Bool.or_eq_true] at hpath
  rcases hpath with (hfree | hself) | hwords
  · exact List.any_eq_true.mpr ⟨.identifier, List.mem_cons_self, hfree⟩
  · exact hword "Self" (by decide) (beq_iff_eq.mp hself)
  · rcases List.mem_cons.mp (List.contains_iff_mem.mp hwords) with h | h
    · exact absurd h htry
    · exact hword name (List.mem_cons_of_mem _ h) rfl

namespace Read

/-- A name of a path and, unless it is the last one, what separates it from the next. -/
theorem copies_namesStep {name : String} (h : IsPlainName name) (read : List String) :
    Copies like (namesStep read) (Token.word name :: Token.symbol "::") (fun _ => true) (· = .again (name :: read)) ∧
      Copies like (namesStep read) [Token.word name] endsNames (· = .done ((name :: read).reverse, false)) := by
  have hseen : ∀ {ts us more : List Token}, like (Token.word name :: ts) us →
      (Expected.identifier :: .word "Self" :: pathWords).any (·.stands (us ++ more)) = true := by
    intro ts us more hu
    obtain ⟨v, vs, rfl, hv, -⟩ := (Token.Likeness.agree hu).of_cons
    obtain ⟨pos, rfl⟩ := hv.of_ident
    exact stands_of_isPlainName h pos _
  refine ⟨reads_seesAny true (fun hu _ => hseen hu) ?_, reads_seesAny true (fun hu _ => hseen hu) ?_⟩
  · have hword : Copies like anyWord [Token.word name] (fun _ => true) (· = name) := copies_anyWord
    refine hword.bind (fun found hf => ?_) fun _ _ => rfl
    subst hf
    refine (copies_mark? "::" (by decide)).bind_nil fun stands hs => ?_
    subst hs
    exact reads_pure ⟨rfl, Token.Likeness.refl _⟩
  · have hword : Copies like anyWord [Token.word name] endsNames (· = name) := copies_anyWord
    refine hword.bind_nil fun found hf => ?_
    subst hf
    refine reads_unmarked (fun hu hm => ?_) (reads_pure ⟨rfl, Token.Likeness.refl _⟩)
    rw [eq_nil_of_like hu, List.nil_append]
    exact (Bool.not_eq_true' _).mp hm

/-- Names with separators between them. -/
def joinedNames (names : List String) : List Token :=
  joinTokens (Token.symbol "::") false (names.map fun name => [Token.word name])

theorem exists_joinedNames (name : String) (others : List String) : ∃ rest, joinedNames (name :: others) = Token.word name :: rest := by
  cases others with
  | nil => exact ⟨[], rfl⟩
  | cons second more => exact ⟨_, rfl⟩

theorem length_le_joinedNames (names : List String) : names.length ≤ (joinedNames names).length := by
  induction names with
  | nil => exact Nat.zero_le _
  | cons name others ih =>
    cases others with
    | nil => exact Nat.le_refl 1
    | cons second more =>
      have hcons : joinedNames (name :: second :: more) =
          Token.word name :: (Token.symbol "::" ++ joinedNames (second :: more)) := rfl
      have hlength := congrArg List.length hcons
      rw [List.length_cons, List.length_append] at hlength
      rw [List.length_cons]
      omega

theorem copies_turnsOfNames {names : List String} (hnames : ∀ name ∈ names, IsPlainName name) (hne : names ≠ [])
    (read : List String) (n : Nat) (hn : names.length ≤ n) :
    Copies like (turns namesStep n read) (joinedNames names) endsNames (· = (read.reverse ++ names, false)) := by
  induction names generalizing read n with
  | nil => exact absurd rfl hne
  | cons name others ih =>
    obtain ⟨n, rfl⟩ : ∃ k, n = k + 1 := ⟨n - 1, by rw [List.length_cons] at hn; omega⟩
    obtain ⟨hagain, hdone⟩ := @copies_namesStep like _ _ (hnames name List.mem_cons_self) read
    cases others with
    | nil =>
      refine hdone.bind_nil fun turn ht => ?_
      subst ht
      exact reads_pure ⟨by rw [List.reverse_cons], Token.Likeness.refl _⟩
    | cons second rest =>
      have hmore := ih (fun found hf => hnames found (List.mem_cons_of_mem _ hf)) (List.cons_ne_nil _ _) (name :: read) n
        (by rw [List.length_cons] at hn; omega)
      refine hagain.bind (fun turn ht => ?_) fun _ _ => rfl
      subst ht
      rw [List.reverse_cons, List.append_assoc] at hmore
      exact hmore

theorem copies_plainNames {names : List String} (hnames : ∀ name ∈ names, IsPlainName name) (hne : names ≠ []) :
    Copies like plainNames (joinedNames names) endsNames (· = (names, false)) :=
  Reads.loop fun n hn => copies_turnsOfNames hnames hne [] n ((length_le_joinedNames names).trans (Nat.le_of_lt hn))

theorem copies_plainPath {path : PathExpr} (h : path.IsBare) : Copies like plainPath path.tokens endsNames (·.1 = path) := by
  obtain ⟨leading, names, hne, hnames, rfl⟩ := h
  have htokens : (PathExpr.ofNames leading names).tokens =
      (if leading then Token.symbol "::" else []) ++ joinedNames names := by
    rw [PathExpr.ofNames, PathExpr.tokens, Segment.tokensOfAll_eq_map, List.map_map]
    rfl
  have hbody : ∀ b : Bool, Copies like (do
      let position ← here
      let read ← plainNames
      if read.1.isEmpty then
        discard identifier
      if read.2 then
        fail .pathEndsInSeparator
      pure (PathExpr.mk b (read.1.map (.mk · .none)), position))
      (joinedNames names) endsNames (·.1 = PathExpr.ofNames b names) := by
    intro b
    refine reads_ignored (fun s => ⟨_, rfl⟩) fun position => (copies_plainNames hnames hne).bind_nil fun read hread => ?_
    subst hread
    obtain ⟨name, others, rfl⟩ := List.exists_cons_of_ne_nil hne
    exact reads_pure ⟨rfl, Token.Likeness.refl _⟩
  rw [htokens]
  cases leading with
  | true =>
    refine Copies.bind (copies_mark? "::" (by decide) : Copies like _ _ (fun _ => true) _) (fun stands hs => ?_) fun _ _ => rfl
    subst hs
    exact hbody true
  | false =>
    refine reads_unmarked (fun hu _ => ?_) (hbody false)
    obtain ⟨name, others, rfl⟩ := List.exists_cons_of_ne_nil hne
    obtain ⟨rest, hrest⟩ := exists_joinedNames name others
    rw [hrest] at hu
    obtain ⟨v, vs, rfl, hv, -⟩ := (Token.Likeness.agree hu).of_cons
    obtain ⟨pos, rfl⟩ := hv.of_ident
    rfl

end Read

/-! ## What is written as it was read -/

theorem Copies.discard {α : Type} {p : Parser α} {ts : List Token} {holds : α → Prop} (hp : Copies like p ts next holds) :
    Copies like (discard p) ts next fun _ => True :=
  Copies.bind_nil hp fun _ _ => reads_pure ⟨trivial, Token.Likeness.refl _⟩

/-- A part is read and written in one go, and then comes the rest. -/
theorem Reads.keep {α β : Type} {p : Parser α} {f : α × List Token → Parser β} {ts us : List Token}
    {middle : List Token → Bool} {holds : α → Prop} {holds' : β → List Token → Prop} (hp : Copies like p ts middle holds)
    (hf : ∀ a ws, holds a → like ts ws → Reads like (f (a, ws)) us next fun b vs => holds' b (ws ++ vs))
    (hnext : ∀ {vs more}, like us vs → next more = true → middle (vs ++ more) = true) :
    Reads like (captured p >>= fun read => write read.2 >>= fun _ => f read) (ts ++ us) next holds' := by
  refine Reads.bind (Reads.captured hp) (fun read vs hread => ?_) hnext
  obtain ⟨⟨ha, hws⟩, rfl⟩ := hread
  intro vs more s hv hm hs
  obtain ⟨b, ws, hb, hrun⟩ := hf read.1 read.2 ha hws hv hm (s := { s with written := read.2.reverse ++ s.written }) hs
  refine ⟨b, read.2 ++ ws, hb, ?_⟩
  rw [List.reverse_append, List.append_assoc]
  exact hrun

theorem Makes.keep {α β : Type} {p : Parser α} {f : α × List Token → Parser β} {ts us : List Token}
    {middle : List Token → Bool} {holds : α → Prop} {holds' : β → Prop} (hp : Copies like p ts middle holds)
    (hf : ∀ a ws, holds a → like ts ws → Makes like (f (a, ws)) us next holds')
    (hnext : ∀ {vs more}, like us vs → next more = true → middle (vs ++ more) = true) :
    Makes like (captured p >>= fun read => write read.2 >>= fun _ => f read) (ts ++ us) next holds' := Reads.keep hp hf hnext

theorem Copies.keep {α β : Type} {p : Parser α} {f : α × List Token → Parser β} {ts us : List Token}
    {middle : List Token → Bool} {holds : α → Prop} {holds' : β → Prop} (hp : Copies like p ts middle holds)
    (hf : ∀ a ws, holds a → like ts ws → Copies like (f (a, ws)) us next holds')
    (hnext : ∀ {vs more}, like us vs → next more = true → middle (vs ++ more) = true) :
    Copies like (captured p >>= fun read => write read.2 >>= fun _ => f read) (ts ++ us) next holds' :=
  Reads.keep hp (fun a ws ha hws => (hf a ws ha hws).imp fun h => ⟨h.1, Token.Likeness.append hws h.2⟩) hnext

theorem Copies.keep_nil {α β : Type} {p : Parser α} {f : α × List Token → Parser β} {ts : List Token} {holds : α → Prop}
    {holds' : β → Prop} (hp : Copies like p ts next holds)
    (hf : ∀ a ws, holds a → like ts ws → Copies like (f (a, ws)) [] next holds') :
    Copies like (captured p >>= fun read => write read.2 >>= fun _ => f read) ts next holds' := by
  have hkept := Copies.keep hp hf fun hv hm => by rwa [eq_nil_of_like hv, List.nil_append]
  rwa [List.append_nil] at hkept

/-! ## Visibilities -/

/-- The visibilities are the same, and written alike if they are restricted. -/
def VisibilityExpr.Alike (like : List Token → List Token → Prop) : VisibilityExpr → VisibilityExpr → Prop
  | .restricted ts, .restricted us => like ts us
  | .inherited, .inherited => True
  | .everywhere, .everywhere => True
  | _, _ => False

/-- Nothing stands here that would belong to the visibility. -/
def VisibilityExpr.endsAt : VisibilityExpr → List Token → Bool
  | .inherited, ts => !(Expected.word "pub").stands ts
  | .everywhere, ts => !ts.head?.any restricts
  | .restricted _, _ => true

namespace Read

theorem run_restriction {s : Stream} (h : s.rest.head?.any restricts = false) : restriction s = .ok (false, s) := by
  unfold restriction
  rw [run_bind, run_remaining]
  dsimp only
  split
  · rename_i name pos opensAt closesAt rest hs
    rw [hs] at h
    have hname : (name == "crate" || name == "self" || name == "super" || name == "in") = false := h
    obtain ⟨hword, hin⟩ := Bool.or_eq_false_iff.mp hname
    rw [hword, hin]
    rfl
  · rename_i pos others opensAt closesAt rest hsingle hs
    rw [hs] at h
    cases others with
    | nil => cases h
    | cons t more => cases h
  · rfl

theorem copies_restriction {inner : List Token} {opensAt closesAt : Position}
    (h : (∃ name ∈ ["crate", "self", "super"], inner = [Token.word name]) ∨
      ∃ path : PathExpr, path.IsBare ∧ inner = Token.word "in" :: path.tokens) :
    Copies like restriction [.group .parenthesis inner opensAt closesAt] next (· = true) := by
  have hafter : ∀ {α : Type} {p : Parser α} {holds : α → Prop}, Copies like p inner List.isEmpty holds →
      Copies like (do discard (inside .parenthesis p); pure true) [.group .parenthesis inner opensAt closesAt] next (· = true) :=
    fun hp => Copies.bind_nil (Copies.discard (Copies.inside hp)) fun _ _ => reads_pure ⟨rfl, Token.Likeness.refl _⟩
  rcases h with ⟨name, hname, rfl⟩ | ⟨path, hpath, rfl⟩
  · refine (hafter copies_anyWord).congr fun hu _ hs => ?_
    obtain ⟨found, opens, closes, rfl, hfound⟩ := exists_of_group hu
    obtain ⟨pos, rfl⟩ := exists_of_word hfound
    have hword : (name == "crate" || name == "self" || name == "super") = true :=
      (by decide : ∀ name ∈ ["crate", "self", "super"], (name == "crate" || name == "self" || name == "super") = true) name hname
    unfold restriction
    rw [run_bind, run_remaining, hs]
    dsimp only [List.cons_append, List.nil_append]
    rw [hword, if_pos rfl]
  · have hcontent : Copies like (do word "in"; plainPath) (Token.word "in" :: path.tokens) List.isEmpty (·.1 = path) := by
      refine Copies.bind (copies_word : Copies like _ _ (fun _ => true) _) (fun _ _ => ?_) fun _ _ => rfl
      refine (copies_plainPath hpath).mono fun more hm => ?_
      rw [List.isEmpty_iff.mp hm]
      rfl
    refine (hafter hcontent).congr fun hu _ hs => ?_
    obtain ⟨found, opens, closes, rfl, hfound⟩ := exists_of_group hu
    obtain ⟨v, vs, rfl, hv, -⟩ := (Token.Likeness.agree hfound).of_cons
    obtain ⟨pos, rfl⟩ := hv.of_ident
    unfold restriction
    rw [run_bind, run_remaining, hs]
    cases vs with
    | nil => rfl
    | cons t more => rfl

/-- The word `pub` with a restriction, or without one. -/
theorem copies_restricted {ts : List Token} (restricted : Bool) {stop : List Token → Bool}
    (h : Copies like restriction ts stop (· = restricted)) :
    Copies like visibility (Token.word "pub" :: ts) stop
      ((if restricted then VisibilityExpr.restricted (Token.word "pub" :: ts) else .everywhere).Alike like) := by
  have hboth : Copies like (do word "pub"; restriction) (Token.word "pub" :: ts) stop (· = restricted) :=
    Copies.bind (copies_word : Copies like _ _ (fun _ => true) _) (fun _ _ => h) fun _ _ => rfl
  refine reads_sees true (fun hu hm => ?_) (Copies.keep_nil hboth fun found ws hf hws => ?_)
  · obtain ⟨v, vs, rfl, hv, -⟩ := (Token.Likeness.agree hu).of_cons
    obtain ⟨pos, rfl⟩ := hv.of_ident
    rfl
  · subst hf
    refine reads_pure ⟨?_, Token.Likeness.refl _⟩
    cases found with
    | false => trivial
    | true => exact hws

theorem copies_visibility {v : VisibilityExpr} (h : v.Proper) :
    Copies like visibility v.tokens v.endsAt (v.Alike like) := by
  cases v with
  | inherited =>
    refine reads_sees false (fun hu hm => ?_) (reads_pure ⟨trivial, Token.Likeness.refl _⟩)
    rw [eq_nil_of_like hu, List.nil_append]
    exact (Bool.not_eq_true' _).mp hm
  | everywhere =>
    refine copies_restricted false (reads_nil fun s hm => ?_)
    exact ⟨false, [], ⟨rfl, Token.Likeness.refl _⟩, run_restriction ((Bool.not_eq_true' _).mp hm)⟩
  | restricted tokens =>
    obtain ⟨inner, opensAt, closesAt, rfl, hinner⟩ := h
    exact copies_restricted true (copies_restriction hinner)

end Read

end

theorem PathExpr.IsBare.isOfPlain {path : PathExpr} (h : path.IsBare) : path.isOfPlain = true := by
  obtain ⟨leading, names, hne, hnames, rfl⟩ := h
  show Segment.allOfPlain (names.map (.mk · .none)) = true
  clear hne
  induction names with
  | nil => rfl
  | cons name rest ih =>
    have htry : (name != "try") = true := bne_iff_ne.mpr (hnames name List.mem_cons_self).2.2
    rw [List.map_cons, Segment.allOfPlain, htry, ih fun found hf => hnames found (List.mem_cons_of_mem _ hf)]
    rfl

theorem PathExpr.IsBare.proper {path : PathExpr} (h : path.IsBare) : path.Proper := by
  obtain ⟨leading, names, hne, hnames, rfl⟩ := h
  refine ⟨fun he => hne (List.map_eq_nil_iff.mp he), Segment.allProper_iff.mpr fun s hs => ?_⟩
  obtain ⟨name, hn, rfl⟩ := List.mem_map.mp hs
  exact ⟨(hnames name hn).1, (hnames name hn).2.1, nofun, trivial, trivial⟩

theorem PathExpr.IsBare.printable {path : PathExpr} (h : path.IsBare) : Printable path.tokens :=
  PathExpr.printable h.isOfPlain h.proper

theorem VisibilityExpr.Proper.printable {v : VisibilityExpr} (h : v.Proper) : Printable v.tokens := by
  cases v with
  | inherited => exact .nil
  | everywhere => exact .word (by decide) .nil
  | restricted tokens =>
    obtain ⟨inner, opensAt, closesAt, rfl, hinner⟩ := h
    refine .word (by decide) (.group ?_ .nil)
    rcases hinner with ⟨name, hname, rfl⟩ | ⟨path, hpath, rfl⟩
    · exact .word ((by decide : ∀ name ∈ ["crate", "self", "super"], IsIdentifier name) name hname) .nil
    · exact .word (by decide) hpath.printable

/-- The text of a visibility is read as the same visibility. -/
theorem exists_readVisibility {v : VisibilityExpr} (h : v.Proper) :
    ∃ read, readVisibility (printed v.tokens) = .ok read ∧ v.Alike Token.AllMatch read := by
  have hread : Makes Token.AllMatch Read.visibility v.tokens v.endsAt (v.Alike Token.AllMatch) :=
    Copies.makes (Read.copies_visibility h)
  have hend : v.endsAt [] = true := by cases v <;> rfl
  have hfound : ∃ found, v.Alike Token.AllMatch found ∧
      (readText (fun _ => Read.visibility) (printed v.tokens)).map (·.1) = .ok found :=
    exists_readText_printed h.printable hread hend
  obtain ⟨found, halike, hfound⟩ := hfound
  exact ⟨found, hfound, halike⟩

end BuilderSynthesis.Syntax
