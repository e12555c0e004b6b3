/-
  BuilderSynthesis.Proofs.TokenOrder — tokens stand in the order of their text.

  The lexer carries the place of what is left with it, and that place only moves on. Two kinds of
  tokens are followed here, the hash marks that start attributes and the words that may be names: in
  the trees of a text, read from the outside inwards and from left to right, the places of each kind
  are strictly increasing (`increasing_tokensOf`).

  The hash mark and the word of a documenting comment have the same place, so the two kinds are not
  ordered among each other.
-/

import BuilderSynthesis.Proofs.Names

namespace BuilderSynthesis.Syntax

/-! ## Places -/

namespace Position

variable {p q r : Position}

/-- Not later in the text. -/
def upTo (p q : Position) : Prop := p.line < q.line ∨ p.line = q.line ∧ p.column ≤ q.column

theorem upTo_refl (p : Position) : p.upTo p := Or.inr ⟨rfl, Nat.le_refl _⟩

theorem before.upTo (h : p.before q) : p.upTo q := h.imp_right fun h => ⟨h.1, Nat.le_of_lt h.2⟩

theorem upTo.trans (hp : p.upTo q) (hq : q.upTo r) : p.upTo r := by
  unfold Position.upTo at *
  omega

theorem before.trans_upTo (hp : p.before q) (hq : q.upTo r) : p.before r := by
  unfold before Position.upTo at *
  omega

theorem before_after (p : Position) (c : Char) : p.before (p.after c) := by
  unfold after
  split
  · exact Or.inl (Nat.lt_succ_self _)
  · exact Or.inr ⟨rfl, Nat.lt_succ_self _⟩

theorem upTo_afterAll (p : Position) (cs : List Char) : p.upTo (p.afterAll cs) := by
  induction cs generalizing p with
  | nil => exact upTo_refl p
  | cons c rest ih => exact (before_after p c).upTo.trans (ih (p.after c))

theorem before_afterAll {cs : List Char} (p : Position) (h : cs ≠ []) : p.before (p.afterAll cs) := by
  cases cs with
  | nil => exact absurd rfl h
  | cons c rest => exact (before_after p c).trans_upTo (upTo_afterAll (p.after c) rest)

end Position

namespace Source

theorem upTo_goTo (source : Source) (later : List Char) : source.pos.upTo (source.goTo later).pos :=
  Position.upTo_afterAll _ _

/-- A shorter rest starts later. -/
theorem before_goTo {source : Source} {later : List Char} (h : later.length < source.rest.length) :
    source.pos.before (source.goTo later).pos := by
  refine Position.before_afterAll _ fun hnil => ?_
  have hlength := congrArg List.length hnil
  unfold passed at hlength
  rw [List.length_take, List.length_nil] at hlength
  omega

end Source

/-! ## Landmarks -/

/-- The kinds of tokens that are followed: the marks that start attributes, and words. -/
inductive Landmark where
  | hash
  | word
  deriving DecidableEq

namespace Landmark

/-- The place of a hash mark, for those who follow hash marks. -/
def ofHash (l : Landmark) (pos : Position) : List Position := if l = hash then [pos] else []

/-- The place of a word, likewise. -/
def ofWord (l : Landmark) (pos : Position) : List Position := if l = word then [pos] else []

end Landmark

mutual

/-- Where landmarks of a kind stand in a tree, in order. -/
def Token.places (l : Landmark) : Token → List Position
  | .ident _ pos => l.ofWord pos
  | .punct mark _ pos => if mark = '#' then l.ofHash pos else []
  | .literal _ _ => []
  | .group _ content _ _ => Token.placesOfAll l content

def Token.placesOfAll (l : Landmark) : List Token → List Position
  | [] => []
  | t :: rest => t.places l ++ Token.placesOfAll l rest

end

variable {l : Landmark}

theorem Token.placesOfAll_append (first second : List Token) :
    Token.placesOfAll l (first ++ second) = Token.placesOfAll l first ++ Token.placesOfAll l second := by
  induction first with
  | nil => rfl
  | cons t rest ih => rw [List.cons_append, placesOfAll, placesOfAll, ih, List.append_assoc]

theorem Token.placesOfAll_singleton (t : Token) : Token.placesOfAll l [t] = t.places l := List.append_nil _

theorem placesOfAll_documentationTokens (inner : Bool) (comment : List Char) (pos : Position) :
    Token.placesOfAll l (documentationTokens inner comment pos) = [pos] := by
  cases l <;> cases inner <;> rfl

/-! ## What a lexeme takes -/

namespace Lexeme

theorem length_lineEnd_le (cs : List Char) : (lineEnd cs).length ≤ cs.length := by
  fun_induction lineEnd cs with
  | case1 => exact Nat.le_refl _
  | case2 => exact Nat.le_refl _
  | case3 => exact Nat.le_refl _
  | case4 c rest _ _ ih => exact Nat.le_succ_of_le ih

theorem length_blockEnd_le {depth : Nat} {cs after : List Char} (h : blockEnd depth cs = some after) :
    after.length ≤ cs.length := by
  fun_induction blockEnd depth cs with
  | case3 rest =>
    cases h
    exact Nat.le_add_right _ 2
  | case6 => cases h
  | case1 _ _ ih => exact Nat.le_trans (ih h) (Nat.le_add_right _ 2)
  | case2 _ ih => exact Nat.le_trans (ih h) (Nat.le_add_right _ 2)
  | case4 _ _ ih => exact Nat.le_trans (ih h) (Nat.le_add_right _ 2)
  | case5 _ _ _ _ _ _ _ ih => exact Nat.le_succ_of_le (ih h)

/-- A documenting comment is not empty. -/
theorem length_documentation_lt {cs comment after : List Char} {inner : Bool}
    (h : documentation cs = some (inner, comment, after)) : after.length < cs.length := by
  unfold documentation at h
  split at h
  · cases h
    exact Nat.lt_of_le_of_lt (length_lineEnd_le _) (Nat.lt_add_of_pos_right (by decide : 0 < 3))
  · obtain ⟨found, hfound, he⟩ := Option.map_eq_some_iff.mp h
    cases he
    exact Nat.lt_of_le_of_lt (length_blockEnd_le hfound) (Nat.lt_add_of_pos_right (by decide : 0 < 2))
  · cases h
  · cases h
    exact Nat.lt_of_le_of_lt (length_lineEnd_le _) (Nat.lt_add_of_pos_right (by decide : 0 < 3))
  · cases h
  · obtain ⟨found, hfound, he⟩ := Option.map_eq_some_iff.mp h
    cases he
    exact Nat.lt_of_le_of_lt (length_blockEnd_le hfound) (Nat.lt_add_of_pos_right (by decide : 0 < 2))
  · cases h

end Lexeme

/-- A token without brackets is a landmark where it starts, and then it is not empty, or it is none. -/
theorem places_of_leaf {source : Source} {t : Token} {after : List Char} (h : leaf source = some (t, after)) :
    t.places l = [] ∨ t.places l = [source.pos] ∧ after.length < source.rest.length := by
  have hhash : l.ofHash source.pos = [] ∨ l.ofHash source.pos = [source.pos] := by cases l <;> simp [Landmark.ofHash]
  have hword : l.ofWord source.pos = [] ∨ l.ofWord source.pos = [source.pos] := by cases l <;> simp [Landmark.ofWord]
  have hmark : ∀ mark joint, (Token.punct mark joint source.pos).places l = [] ∨
      (Token.punct mark joint source.pos).places l = [source.pos] := by
    intro mark joint
    rw [Token.places]
    split
    · exact hhash
    · exact Or.inl rfl
  unfold leaf at h
  split at h
  · cases h
    exact Or.inl rfl
  · split at h
    · rename_i c rest hr
      have hshorter : rest.length < source.rest.length := hr ▸ Nat.lt_succ_self rest.length
      split at h
      · split at h
        · cases h
          exact (hmark c _).imp_right fun he => ⟨he, hshorter⟩
        · split at h
          · cases h
            exact (hmark c true).imp_right fun he => ⟨he, hshorter⟩
          · cases h
      · obtain ⟨found, hf, he⟩ := Option.map_eq_some_iff.mp h
        cases he
        obtain ⟨name, hs, hne, -, -⟩ := Lexeme.identifier_eq_some hf
        refine hword.imp_right fun he => ⟨he, ?_⟩
        rw [hs, List.length_append]
        exact Nat.lt_add_of_pos_left (List.length_pos_iff.mpr hne)
    · cases h

/-! ## The lexer -/

/-- The places of what has been read, in the brackets that are open and before them. -/
def placesRead (l : Landmark) : List OpenGroup → List Token → List Position
  | [], read => Token.placesOfAll l read.reverse
  | g :: outer, read => placesRead l outer g.before ++ Token.placesOfAll l read.reverse

theorem placesRead_append (groups : List OpenGroup) (pushed read : List Token) :
    placesRead l groups (pushed.reverse ++ read) = placesRead l groups read ++ Token.placesOfAll l pushed := by
  have hread : Token.placesOfAll l (pushed.reverse ++ read).reverse =
      Token.placesOfAll l read.reverse ++ Token.placesOfAll l pushed := by
    rw [List.reverse_append, List.reverse_reverse, Token.placesOfAll_append]
  cases groups with
  | nil => exact hread
  | cons g outer => rw [placesRead, placesRead, hread, List.append_assoc]

theorem placesRead_cons (groups : List OpenGroup) (t : Token) (read : List Token) :
    placesRead l groups (t :: read) = placesRead l groups read ++ t.places l := by
  rw [← Token.placesOfAll_singleton]
  exact placesRead_append groups [t] read

/-- An opened bracket holds nothing yet. -/
theorem placesRead_open (groups : List OpenGroup) (delimiter : Delimiter) (pos : Position) (read : List Token) :
    placesRead l (⟨delimiter, pos, read⟩ :: groups) [] = placesRead l groups read := List.append_nil _

/-- A closed bracket holds what has been read in it. -/
theorem placesRead_close (g : OpenGroup) (outer : List OpenGroup) (delimiter : Delimiter) (pos : Position)
    (read : List Token) :
    placesRead l outer (.group delimiter read.reverse g.pos pos :: g.before) = placesRead l (g :: outer) read := by
  rw [placesRead_cons]
  rfl

/-- The places are increasing, and all before the place of what is left. -/
structure IncreasingTo (places : List Position) (pos : Position) : Prop where
  increasing : places.Pairwise Position.before
  passed : ∀ p ∈ places, p.before pos

namespace IncreasingTo

variable {places : List Position} {pos next : Position}

theorem later (h : IncreasingTo places pos) (hpos : pos.upTo next) : IncreasingTo places next :=
  ⟨h.increasing, fun p hp => (h.passed p hp).trans_upTo hpos⟩

theorem concat (h : IncreasingTo places pos) (hpos : pos.before next) : IncreasingTo (places ++ [pos]) next where
  increasing := List.pairwise_append.mpr
    ⟨h.increasing, List.pairwise_singleton _ _, fun p hp q hq => List.mem_singleton.mp hq ▸ h.passed p hp⟩
  passed p hp := by
    rcases List.mem_append.mp hp with hp | hp
    · exact (h.passed p hp).trans_upTo hpos.upTo
    · exact List.mem_singleton.mp hp ▸ hpos

end IncreasingTo

/-- One step of the lexer: no landmark is passed, or the one that stands here. -/
theorem increasing_step {fuel : Nat} {source : Source} {groups : List OpenGroup} {read ts : List Token}
    (h : lex (fuel + 1) source groups read = .ok ts) (hr : IncreasingTo (placesRead l groups read) source.pos) :
    (Token.placesOfAll l ts).Pairwise Position.before ∨
      ∃ next groups' read', lex fuel next groups' read' = .ok ts ∧
        IncreasingTo (placesRead l groups' read') next.pos := by
  unfold lex at h
  simp only at h
  replace hr := hr.later (source.upTo_goTo (Lexeme.blanks source.rest))
  generalize source.goTo (Lexeme.blanks source.rest) = source at h hr
  split at h
  · rename_i inner comment after hdoc
    obtain ⟨hdoc, -⟩ := Option.filter_eq_some_iff.mp hdoc
    refine Or.inr ⟨_, _, _, h, ?_⟩
    rw [placesRead_append, placesOfAll_documentationTokens]
    exact hr.concat (Source.before_goTo (Lexeme.length_documentation_lt hdoc))
  · split at h
    · split at h
      · cases h
        exact Or.inl hr.increasing
      · cases h
    · rename_i c rest hrest
      refine Or.inr ?_
      split at h
      · refine ⟨_, _, _, h, ?_⟩
        rw [placesRead_cons, Token.places, List.append_nil]
        exact hr.later (source.upTo_goTo _)
      · split at h
        · refine ⟨_, _, _, h, ?_⟩
          rw [placesRead_open]
          exact hr.later (source.upTo_goTo _)
        · split at h
          · cases h
          · split at h
            · refine ⟨_, _, _, h, ?_⟩
              rw [placesRead_close]
              exact hr.later (source.upTo_goTo _)
            · cases h
        · split at h
          · rename_i t after hl
            refine ⟨_, _, _, h, ?_⟩
            rw [placesRead_cons]
            rcases places_of_leaf (l := l) hl with he | ⟨he, hshorter⟩
            · rw [he, List.append_nil]
              exact hr.later (source.upTo_goTo _)
            · rw [he]
              exact hr.concat (Source.before_goTo hshorter)
          · cases h

theorem increasing_lex {fuel : Nat} {source : Source} {groups : List OpenGroup} {read ts : List Token}
    (h : lex fuel source groups read = .ok ts) (hr : IncreasingTo (placesRead l groups read) source.pos) :
    (Token.placesOfAll l ts).Pairwise Position.before := by
  induction fuel generalizing source groups read with
  | zero => cases h
  | succ fuel ih =>
    rcases increasing_step h hr with hdone | ⟨next, groups', read', hrest, hnext⟩
    · exact hdone
    · exact ih hrest hnext

/-- The landmarks of a kind stand in the tokens of a text in the order of the text, no two at one place. -/
theorem increasing_tokensOf {cs : List Char} {ts : List Token} (l : Landmark) (h : tokensOf cs = .ok ts) :
    (Token.placesOfAll l ts).Pairwise Position.before :=
  increasing_lex h ⟨List.Pairwise.nil, fun p hp => by cases hp⟩

end BuilderSynthesis.Syntax
