/-
  BuilderSynthesis.Proofs.Spelling — text that spells tokens.

  Blanks between tokens do not matter, and neither does whether a mark is joint where nothing asks
  for it. `Spells` says which characters spell which tokens; the lexer reads tokens like these from
  them (`tokensOf_of_spells`), which `Token.AllAgree` makes precise. Printed tokens are spelled by
  their text if their names are identifiers and their joint marks have a mark to join
  (`tokens_of_printable`).
-/

import BuilderSynthesis.Proofs.Lexemes
import BuilderSynthesis.Syntax.Printer

namespace BuilderSynthesis.Syntax

open Text

/-! ## Tokens that are written alike -/

mutual

/-- The second token is written as the first is. It may be joint where the first is not. -/
def Token.Agrees : Token → Token → Prop
  | .ident name _, .ident found _ => name = found
  | .punct mark joint _, .punct found jointly _ => mark = found ∧ (joint = true → jointly = true)
  | .literal text _, .literal found _ => text = found
  | .group delimiter content _ _, .group found inner _ _ => delimiter = found ∧ Token.AllAgree content inner
  | _, _ => False

def Token.AllAgree : List Token → List Token → Prop
  | [], [] => True
  | t :: ts, u :: us => t.Agrees u ∧ Token.AllAgree ts us
  | _, _ => False

end

namespace Token

theorem allAgree_append {ts us vs ws : List Token} (ht : AllAgree ts vs) (hu : AllAgree us ws) :
    AllAgree (ts ++ us) (vs ++ ws) := by
  induction ts generalizing vs with
  | nil =>
    cases vs with
    | nil => exact hu
    | cons v vs => exact ht.elim
  | cons t ts ih =>
    cases vs with
    | nil => exact ht.elim
    | cons v vs => exact ⟨ht.1, ih ht.2⟩

theorem AllAgree.of_append {ts us vs : List Token} (h : AllAgree (ts ++ us) vs) :
    ∃ ws xs, vs = ws ++ xs ∧ AllAgree ts ws ∧ AllAgree us xs := by
  induction ts generalizing vs with
  | nil => exact ⟨[], vs, rfl, trivial, h⟩
  | cons t ts ih =>
    cases vs with
    | nil => exact h.elim
    | cons v vs =>
      obtain ⟨ws, xs, rfl, hw, hx⟩ := ih h.2
      exact ⟨v :: ws, xs, rfl, ⟨h.1, hw⟩, hx⟩

theorem length_of_allAgree {ts us : List Token} (h : AllAgree ts us) : us.length = ts.length := by
  induction ts generalizing us with
  | nil =>
    cases us with
    | nil => rfl
    | cons u us => exact h.elim
  | cons t ts ih =>
    cases us with
    | nil => exact h.elim
    | cons u us => rw [List.length_cons, List.length_cons, ih h.2]

/-- Tokens are written alike, and joint alike. Only their places may differ. -/
def AllMatch (ts us : List Token) : Prop := AllAgree ts us ∧ AllAgree us ts

mutual

theorem Agrees.refl : ∀ t : Token, t.Agrees t
  | .ident .. => rfl
  | .punct .. => ⟨rfl, id⟩
  | .literal .. => rfl
  | .group _ content _ _ => ⟨rfl, AllAgree.refl content⟩

theorem AllAgree.refl : ∀ ts : List Token, AllAgree ts ts
  | [] => trivial
  | t :: ts => ⟨Agrees.refl t, AllAgree.refl ts⟩

end

/-- A way in which tokens are alike that looks at one after the other. Tokens that are alike agree. -/
class Likeness (like : List Token → List Token → Prop) : Prop where
  agree : ∀ {ts us}, like ts us → AllAgree ts us
  refl : ∀ ts, like ts ts
  append : ∀ {ts us vs ws}, like ts vs → like us ws → like (ts ++ us) (vs ++ ws)
  of_append : ∀ {ts us vs}, like (ts ++ us) vs → ∃ ws xs, vs = ws ++ xs ∧ like ts ws ∧ like us xs
  of_group : ∀ {delimiter content inner opensAt closesAt opens closes},
    like [.group delimiter content opensAt closesAt] [.group delimiter inner opens closes] → like content inner
  /-- The content may be put in place of other content that is alike. -/
  regroup : ∀ {delimiter content inner other opensAt closesAt opens closes},
    like [.group delimiter content opensAt closesAt] [.group delimiter inner opens closes] → like content other →
      like [.group delimiter content opensAt closesAt] [.group delimiter other opens closes]

/-- A likeness for which the places of tokens do not matter: tokens that match are alike. -/
class Placeless (like : List Token → List Token → Prop) : Prop extends Likeness like where
  of_match : ∀ {ts us}, AllMatch ts us → like ts us
  group : ∀ {delimiter content inner opensAt closesAt opens closes}, like content inner →
    like [.group delimiter content opensAt closesAt] [.group delimiter inner opens closes]

instance : Placeless AllAgree where
  agree h := h
  refl := AllAgree.refl
  append := allAgree_append
  of_append := AllAgree.of_append
  of_group h := h.1.2
  regroup _ h := ⟨⟨rfl, h⟩, trivial⟩
  of_match h := h.1
  group h := ⟨⟨rfl, h⟩, trivial⟩

instance : Placeless AllMatch where
  agree h := h.1
  refl ts := ⟨AllAgree.refl ts, AllAgree.refl ts⟩
  append h h' := ⟨allAgree_append h.1 h'.1, allAgree_append h.2 h'.2⟩
  of_append := by
    rintro ts us vs ⟨h, hback⟩
    obtain ⟨ws, xs, rfl, hw, hx⟩ := h.of_append
    obtain ⟨ts', us', he, ht, hu⟩ := hback.of_append
    obtain ⟨rfl, rfl⟩ := List.append_inj he ((length_of_allAgree ht).trans (length_of_allAgree hw)).symm
    exact ⟨ws, xs, rfl, ⟨hw, ht⟩, hx, hu⟩
  of_group h := ⟨h.1.1.2, h.2.1.2⟩
  regroup _ h := ⟨⟨⟨rfl, h.1⟩, trivial⟩, ⟨rfl, h.2⟩, trivial⟩
  of_match h := h
  group h := ⟨⟨⟨rfl, h.1⟩, trivial⟩, ⟨rfl, h.2⟩, trivial⟩

theorem AllMatch.single {t u : Token} (h : t.Agrees u) (hback : u.Agrees t) : AllMatch [t] [u] :=
  ⟨⟨h, trivial⟩, hback, trivial⟩

end Token

/-! ## Spelling -/

/-- A mark that starts no comment. -/
def isPlainMark (c : Char) : Bool := Lexeme.isMark c && c != '/'

/-- The characters spell the tokens, with blanks where it does not matter. -/
inductive Spells : List Char → List Token → Prop where
  | nil : Spells [] []
  | blank {cs ts} (rest : Spells cs ts) : Spells (' ' :: cs) ts
  | word {name pos cs ts} (h : IsIdentifier name) (ends : endsLexeme cs = true) (rest : Spells cs ts) :
      Spells (name.toList ++ cs) (.ident name pos :: ts)
  | literal {text pos cs ts} (h : IsLiteral text) (ends : endsLexeme cs = true) (rest : Spells cs ts) :
      Spells (text.toList ++ cs) (.literal text pos :: ts)
  | mark {c joint pos cs ts} (h : isPlainMark c = true) (ne : c ≠ '\'')
      (joins : joint = true → cs.head?.any isPlainMark = true) (rest : Spells cs ts) :
      Spells (c :: cs) (.punct c joint pos :: ts)
  | lifetime {name pos namePos cs ts} (h : IsIdentifier name) (ends : endsLexeme cs = true) (rest : Spells cs ts) :
      Spells ('\'' :: (name.toList ++ cs)) (.punct '\'' true pos :: .ident name namePos :: ts)
  | group {delimiter inner content opensAt closesAt cs ts} (content_ : Spells inner content) (rest : Spells cs ts) :
      Spells (delimiter.opening :: (inner ++ delimiter.closing :: cs)) (.group delimiter content opensAt closesAt :: ts)

/-- At the end of a text, or of a bracket. -/
def atClosing (cs : List Char) : Bool := cs.head?.all fun c => [')', ']', '\x7d'].contains c

theorem endsLexeme_of_atClosing {cs : List Char} (h : atClosing cs = true) : endsLexeme cs = true := by
  cases cs with
  | nil => rfl
  | cons c rest =>
    have hends : ∀ c ∈ [')', ']', '\x7d'], endsLexeme [c] = true := List.all_iff_forall_prop.mp (by decide)
    exact hends c (by simpa [atClosing] using h)

theorem endsLexeme_append {cs tail : List Char} (h : endsLexeme cs = true) (ht : endsLexeme tail = true) :
    endsLexeme (cs ++ tail) = true := by
  cases cs with
  | nil => exact ht
  | cons c rest => exact h

theorem head_append_any {cs tail : List Char} {p : Char → Bool} (h : cs.head?.any p = true) : (cs ++ tail).head?.any p = true := by
  cases cs with
  | nil => cases h
  | cons c rest => exact h

/-- What starts a spelling is a blank or stays together with what follows. -/
theorem staysTogether_of_isPlainMark {c : Char} (h : isPlainMark c = true) : staysTogether c = true := by
  obtain ⟨hm, hs⟩ := Bool.and_eq_true_iff.mp h
  have hmarks : ∀ c ∈ "~!@#$%^&*-=+|;:,<.>/?'".toList, c ≠ '/' → staysTogether c = true :=
    List.all_iff_forall_prop.mp (by decide)
  exact hmarks c (by simpa [Lexeme.isMark] using hm) (bne_iff_ne.mp hs)

theorem staysTogether_of_startsLiteral {c : Char} (h : c.isDigit = true ∨ c = '"') : staysTogether c = true := by
  rcases h with hdigit | rfl
  · refine staysTogether_of_isNameChar ?_
    rw [isNameChar, continuesIdentifier_of_isHexDigit (isHexDigit_of_isDigit hdigit)]
    rfl
  · decide

theorem blanks_of_head {cs : List Char} (h : cs.head?.all staysTogether = true) : Lexeme.blanks cs = cs := by
  cases cs with
  | nil => rfl
  | cons c rest => exact blanks_eq_self h

theorem head_staysTogether_of_isIdentifier {name : String} (h : IsIdentifier name) (cs : List Char) :
    (name.toList ++ cs).head?.all staysTogether = true := by
  obtain ⟨hne, hchars⟩ := isName_of_isIdentifier h
  obtain ⟨c, rest, hn⟩ := List.exists_cons_of_ne_nil hne
  rw [hn] at hchars ⊢
  exact staysTogether_of_isNameChar (hchars c List.mem_cons_self)

/-! ## Reading what is spelled -/

namespace Source

theorem goTo_self (source : Source) : source.goTo source.rest = source := by
  unfold goTo passed
  rw [Nat.sub_self, List.take_zero]
  rfl

theorem upTo_append (name : String) (cs : List Char) (pos : Position) :
    (⟨name.toList ++ cs, pos⟩ : Source).upTo cs = name := by
  unfold upTo passed
  rw [List.length_append, Nat.add_sub_cancel, List.take_left, String.ofList_toList]

end Source

theorem documentation_of_ne {cs : List Char} (h : cs.head? ≠ some '/') : Lexeme.documentation cs = none := by
  unfold Lexeme.documentation
  split <;> first | rfl | exact absurd rfl h

section Steps

variable {fuel : Nat} {c : Char} {rest after : List Char} {pos : Position} {groups : List OpenGroup} {read : List Token}

theorem ne_slash_of_staysTogether (h : staysTogether c = true) : (c :: rest).head? ≠ some '/' := by
  intro he
  rw [Option.some.inj he] at h
  exact absurd h (by decide)

/-- What is no bracket becomes a token of its own. -/
theorem lex_leaf {t : Token} (hc : staysTogether c = true) (ho : opens? c = none) (hclose : closes? c = none)
    (hl : leaf ⟨c :: rest, pos⟩ = some (t, after)) :
    lex (fuel + 1) ⟨c :: rest, pos⟩ groups read = lex fuel (Source.goTo ⟨c :: rest, pos⟩ after) groups (t :: read) := by
  have hfaulty : Lexeme.faulty.isPrefixOf (c :: rest) = false := by
    refine Bool.eq_false_iff.mpr fun hp => ?_
    obtain ⟨more, he⟩ := List.isPrefixOf_iff_prefix.mp hp
    have hopen : '(' = c := (List.cons.inj he).1
    rw [← hopen] at ho
    cases ho
  have hself : Source.goTo ⟨c :: rest, pos⟩ (c :: rest) = ⟨c :: rest, pos⟩ := Source.goTo_self _
  conv =>
    lhs
    unfold lex
  simp only [blanks_eq_self hc, hself, documentation_of_ne (ne_slash_of_staysTogether hc), Option.filter_none, hfaulty,
    ho, hclose, hl, Bool.false_eq_true, if_false]

theorem lex_opens {delimiter : Delimiter} (hrest : rest.head? ≠ some '/') :
    lex (fuel + 1) ⟨delimiter.opening :: rest, pos⟩ groups read =
      lex fuel (Source.goTo ⟨delimiter.opening :: rest, pos⟩ rest) (⟨delimiter, pos, read⟩ :: groups) [] := by
  have hc : staysTogether delimiter.opening = true := by cases delimiter <;> decide
  have ho : opens? delimiter.opening = some delimiter := by cases delimiter <;> rfl
  have hfaulty : Lexeme.faulty.isPrefixOf (delimiter.opening :: rest) = false := by
    refine Bool.eq_false_iff.mpr fun hp => ?_
    obtain ⟨more, he⟩ := List.isPrefixOf_iff_prefix.mp hp
    rw [← (List.cons.inj he).2] at hrest
    exact hrest rfl
  have hself : Source.goTo ⟨delimiter.opening :: rest, pos⟩ (delimiter.opening :: rest) = ⟨delimiter.opening :: rest, pos⟩ :=
    Source.goTo_self _
  conv =>
    lhs
    unfold lex
  simp only [blanks_eq_self hc, hself, documentation_of_ne (ne_slash_of_staysTogether hc), Option.filter_none, hfaulty,
    ho, Bool.false_eq_true, if_false]

theorem lex_closes {delimiter : Delimiter} {opensAt : Position} {before : List Token} :
    lex (fuel + 1) ⟨delimiter.closing :: rest, pos⟩ (⟨delimiter, opensAt, before⟩ :: groups) read =
      lex fuel (Source.goTo ⟨delimiter.closing :: rest, pos⟩ rest) groups
        (.group delimiter read.reverse opensAt pos :: before) := by
  have hc : staysTogether delimiter.closing = true := by cases delimiter <;> decide
  have ho : opens? delimiter.closing = none := by cases delimiter <;> rfl
  have hclose : closes? delimiter.closing = some delimiter := by cases delimiter <;> rfl
  have hfaulty : Lexeme.faulty.isPrefixOf (delimiter.closing :: rest) = false := by
    cases delimiter <;> rfl
  have hself : Source.goTo ⟨delimiter.closing :: rest, pos⟩ (delimiter.closing :: rest) = ⟨delimiter.closing :: rest, pos⟩ :=
    Source.goTo_self _
  conv =>
    lhs
    unfold lex
  simp only [blanks_eq_self hc, hself, documentation_of_ne (ne_slash_of_staysTogether hc), Option.filter_none, hfaulty,
    ho, hclose, Bool.false_eq_true, if_false, beq_self_eq_true, if_true]

/-- A blank is passed over together with the blanks after it. -/
theorem lex_blank (hrest : Lexeme.blanks rest <:+ rest) :
    lex (fuel + 1) ⟨' ' :: rest, pos⟩ groups read = lex (fuel + 1) ⟨rest, pos.after ' '⟩ groups read := by
  have hblanks : Lexeme.blanks (' ' :: rest) = Lexeme.blanks rest := rfl
  have hgo : Source.goTo ⟨' ' :: rest, pos⟩ (Lexeme.blanks rest) =
      Source.goTo ⟨rest, pos.after ' '⟩ (Lexeme.blanks rest) := by
    unfold Source.goTo Source.passed
    rw [List.length_cons, Nat.succ_sub hrest.length_le, List.take_succ_cons]
    rfl
  unfold lex
  simp only [hblanks, hgo]

end Steps

theorem startsMark_of_head {cs : List Char} (h : cs.head?.any isPlainMark = true) : Lexeme.startsMark cs = true := by
  cases cs with
  | nil => cases h
  | cons c rest =>
    obtain ⟨hm, hs⟩ := Bool.and_eq_true_iff.mp (show isPlainMark c = true from h)
    unfold Lexeme.startsMark
    split
    · rename_i heq
      exact absurd (List.cons.inj heq).1 (bne_iff_ne.mp hs)
    · rename_i heq
      exact absurd (List.cons.inj heq).1 (bne_iff_ne.mp hs)
    · rename_i heq
      rw [← (List.cons.inj heq).1]
      exact hm
    · rename_i heq
      cases heq

theorem leaf_mark {c : Char} {cs : List Char} {pos : Position} (h : isPlainMark c = true) (ne : c ≠ '\'') :
    leaf ⟨c :: cs, pos⟩ = some (.punct c (Lexeme.startsMark cs) pos, cs) := by
  obtain ⟨hm, -⟩ := Bool.and_eq_true_iff.mp h
  have hmarks : ∀ c ∈ "~!@#$%^&*-=+|;:,<.>/?'".toList, c ≠ '\'' → c.isDigit = false ∧ c ∉ Lexeme.quoteStarts :=
    List.all_iff_forall_prop.mp (by decide)
  obtain ⟨hdigit, hquote⟩ := hmarks c (by simpa [Lexeme.isMark] using hm) ne
  have hstarts : Lexeme.startsMark (c :: cs) = true := startsMark_of_head h
  unfold leaf
  simp only [Lexeme.literal_eq_none hdigit hquote, hstarts, if_true]
  rw [if_pos (bne_iff_ne.mpr ne)]

theorem leaf_identifier {name : String} {cs : List Char} {pos : Position} (h : IsIdentifier name)
    (hcs : endsLexeme cs = true) : leaf ⟨name.toList ++ cs, pos⟩ = some (.ident name pos, cs) := by
  have hstarts : Lexeme.startsMark (name.toList ++ cs) = false := by
    have hmarks : ∀ c ∈ "~!@#$%^&*-=+|;:,<.>/?'".toList, startsIdentifier c = false :=
      List.all_iff_forall_prop.mp (by decide)
    have hfirst : ∀ {c : Char} {rest : List Char}, startsIdentifier c = true → Lexeme.startsMark (c :: rest) = false := by
      intro c rest hc
      have hm : Lexeme.isMark c = false := by
        refine Bool.eq_false_iff.mpr fun hm => ?_
        rw [hmarks c (by simpa [Lexeme.isMark] using hm)] at hc
        cases hc
      unfold Lexeme.startsMark
      split
      · rfl
      · rfl
      · rename_i heq
        rw [← (List.cons.inj heq).1]
        exact hm
      · rfl
    rcases Lexeme.cases_of_isIdentifier h with ⟨c, t, hn, hc, -⟩ | ⟨c, t, hn, -⟩
    · rw [hn]
      exact hfirst hc
    · rw [hn]
      exact hfirst (by decide)
  obtain ⟨c, rest, hn⟩ := List.exists_cons_of_ne_nil (isName_of_isIdentifier h).nonempty
  have hupTo := Source.upTo_append name cs pos
  have hidentifier := Lexeme.identifier_append h hcs
  have hliteral := Lexeme.literal_identifier h hcs
  rw [hn] at hstarts hupTo hidentifier hliteral ⊢
  unfold leaf
  simp only [hliteral]
  rw [List.cons_append] at hstarts hidentifier hupTo ⊢
  simp only [hstarts, hidentifier, hupTo, Bool.false_eq_true, if_false, Option.map_some]

theorem leaf_literal {text : String} {cs : List Char} {pos : Position} (h : IsLiteral text)
    (hcs : endsLexeme cs = true) : leaf ⟨text.toList ++ cs, pos⟩ = some (.literal text pos, cs) := by
  unfold leaf
  simp only [h.reads hcs, Source.upTo_append]

theorem leaf_lifetime {name : String} {cs : List Char} {pos : Position} (h : IsIdentifier name)
    (hcs : endsLexeme cs = true) :
    leaf ⟨'\'' :: (name.toList ++ cs), pos⟩ = some (.punct '\'' true pos, name.toList ++ cs) := by
  have hsingle : ∀ {c : Char} {rest : List Char}, c ≠ '\\' → (∀ d ∈ rest.head?, d ≠ '\'') →
      Lexeme.Quote.text.single (c :: rest) = none := by
    intro c rest hc hrest
    have hclosing : Lexeme.Quote.single.closing rest = none := by
      cases rest with
      | nil => rfl
      | cons d more =>
        unfold Lexeme.Quote.single.closing
        split
        · rename_i heq
          exact absurd (List.cons.inj heq).1 (hrest d rfl)
        · rfl
    unfold Lexeme.Quote.single
    split
    · rename_i heq
      exact absurd (List.cons.inj heq).1 hc
    · rename_i heq
      rw [← (List.cons.inj heq).2, hclosing]
      split <;> rfl
    · rfl
  have hquoted : Lexeme.Quote.text.single (name.toList ++ cs) = none := by
    rcases Lexeme.cases_of_isIdentifier h with ⟨c, t, hn, hc, ht⟩ | ⟨c, t, hn, -⟩
    · rw [hn]
      refine hsingle ?_ fun d hd => (Lexeme.head_append ht hcs d hd).2.2
      rintro rfl
      exact absurd hc (by decide)
    · rw [hn]
      refine hsingle (by decide) fun d hd => ?_
      rw [← Option.some.inj hd]
      decide
  have hliteral : Lexeme.literal ('\'' :: (name.toList ++ cs)) = none := by
    have hfirst : Lexeme.quotedLiteral ('\'' :: (name.toList ++ cs)) = none := hquoted
    unfold Lexeme.literal
    rw [hfirst, Lexeme.number_eq_none (by decide)]
    rfl
  have hlifetime : Lexeme.startsLifetime (name.toList ++ cs) = true := by
    unfold Lexeme.startsLifetime
    rw [Lexeme.anyIdentifier_append h hcs]
    cases cs with
    | nil => rfl
    | cons c rest =>
      obtain ⟨-, hhash, -, happ, -⟩ := endsLexeme_cons hcs
      split
      · rename_i heq
        cases heq
      · rename_i heq
        exact absurd (List.cons.inj (Option.some.inj heq)).1 happ
      · rename_i heq
        exact absurd (List.cons.inj (Option.some.inj heq)).1 hhash
      · rfl
  have hstarts : Lexeme.startsMark ('\'' :: (name.toList ++ cs)) = true := startsMark_of_head rfl
  unfold leaf
  simp only [hliteral, hstarts, hlifetime, if_true]
  rfl

theorem blanks_suffix_of_head {cs : List Char} (h : cs.head?.all staysTogether = true) : Lexeme.blanks cs <:+ cs := by
  exact (blanks_of_head h).symm ▸ List.suffix_rfl

theorem blanks_suffix_of_atClosing {cs : List Char} (h : atClosing cs = true) : Lexeme.blanks cs <:+ cs := by
  refine blanks_suffix_of_head ?_
  cases cs with
  | nil => rfl
  | cons c rest =>
    have hclosing : ∀ c ∈ [')', ']', '\x7d'], staysTogether c = true := List.all_iff_forall_prop.mp (by decide)
    exact hclosing c (by simpa [atClosing] using h)

theorem blanks_suffix_blank {cs : List Char} (h : Lexeme.blanks cs <:+ cs) : Lexeme.blanks (' ' :: cs) <:+ ' ' :: cs :=
  h.trans (List.suffix_cons _ _)

theorem Spells.blanks_suffix {cs : List Char} {ts : List Token} (h : Spells cs ts) {tail : List Char}
    (htail : Lexeme.blanks tail <:+ tail) : Lexeme.blanks (cs ++ tail) <:+ cs ++ tail := by
  induction h with
  | nil => exact htail
  | blank rest ih => exact blanks_suffix_blank ih
  | word h ends rest =>
    exact blanks_suffix_of_head (by rw [List.append_assoc]; exact head_staysTogether_of_isIdentifier h _)
  | literal h ends rest =>
    obtain ⟨c, more, hc, hstart⟩ := h.opens
    rw [hc]
    exact blanks_suffix_of_head (staysTogether_of_startsLiteral hstart)
  | mark h ne joins rest => exact blanks_suffix_of_head (staysTogether_of_isPlainMark h)
  | lifetime h ends rest => exact blanks_suffix_of_head rfl
  | @group delimiter => exact blanks_suffix_of_head (by cases delimiter <;> rfl)

/-- From one text on, tokens like these are read, whatever is open, up to where another text starts. -/
def LexesTo (like : List Token → List Token → Prop) (cs : List Char) (ts : List Token) (tail : List Char) : Prop :=
  ∀ (fuel : Nat) (pos : Position) (groups : List OpenGroup) (read : List Token), cs.length < fuel →
    ∃ left next us, tail.length < left ∧ like ts us ∧
      lex fuel ⟨cs, pos⟩ groups read = lex left ⟨tail, next⟩ groups (us.reverse ++ read)

namespace LexesTo

variable {like : List Token → List Token → Prop}

/-- A bracket does not stand here. -/
def NoBracket (c : Char) : Prop := opens? c = none ∧ closes? c = none

theorem noBracket_of_not_mem {c : Char} (h : c ∉ ['(', '[', '\x7b', ')', ']', '\x7d']) : NoBracket c := by
  simp only [List.mem_cons, List.not_mem_nil, or_false, not_or] at h
  obtain ⟨h1, h2, h3, h4, h5, h6⟩ := h
  unfold NoBracket opens? closes?
  simp only [beq_iff_eq, h1, h2, h3, h4, h5, h6, if_false, and_self]

theorem leaf {c : Char} {rest after : List Char} {t : Token} (u : Position → Token) (hc : staysTogether c = true)
    (hb : NoBracket c) (hu : ∀ pos, like [t] [u pos]) (hl : ∀ pos, Syntax.leaf ⟨c :: rest, pos⟩ = some (u pos, after))
    (hlength : after.length ≤ rest.length) : LexesTo like (c :: rest) [t] after := by
  intro fuel pos groups read hfuel
  obtain ⟨fuel, rfl⟩ : ∃ n, fuel = n + 1 := ⟨fuel - 1, by omega⟩
  rw [List.length_cons] at hfuel
  exact ⟨fuel, _, [u pos], by omega, hu pos, lex_leaf hc hb.1 hb.2 (hl pos)⟩

theorem mark {c : Char} {joint : Bool} {cs : List Char} {pos : Position} (h : isPlainMark c = true) (ne : c ≠ '\'')
    (hlike : ∀ next, like [.punct c joint pos] [.punct c (Lexeme.startsMark cs) next]) :
    LexesTo like (c :: cs) [.punct c joint pos] cs := by
  refine leaf (.punct c (Lexeme.startsMark cs)) (staysTogether_of_isPlainMark h) (noBracket_of_not_mem fun hb => ?_)
    hlike (fun _ => leaf_mark h ne) (Nat.le_refl _)
  exact absurd h ((List.all_iff_forall_prop.mp (by decide) : ∀ c ∈ ['(', '[', '\x7b', ')', ']', '\x7d'], ¬ isPlainMark c = true) c hb)

/-- A blank is passed over. -/
theorem blank {cs tail : List Char} {ts : List Token} (hcs : Lexeme.blanks cs <:+ cs) (h : LexesTo like cs ts tail) :
    LexesTo like (' ' :: cs) ts tail := by
  intro fuel pos groups read hfuel
  obtain ⟨fuel, rfl⟩ : ∃ n, fuel = n + 1 := ⟨fuel - 1, by omega⟩
  obtain ⟨left, next, us, hleft, hus, hlex⟩ := h (fuel + 1) (pos.after ' ') groups read (Nat.lt_of_succ_lt hfuel)
  exact ⟨left, next, us, hleft, hus, by rw [lex_blank hcs]; exact hlex⟩

variable [Token.Placeless like]

theorem refl (cs : List Char) : LexesTo like cs [] cs := fun fuel pos _ _ hfuel =>
  ⟨fuel, pos, [], hfuel, Token.Placeless.of_match ⟨trivial, trivial⟩, rfl⟩

theorem trans {cs ds es : List Char} {ts us : List Token} (hc : LexesTo like cs ts ds) (hd : LexesTo like ds us es) :
    LexesTo like cs (ts ++ us) es := by
  intro fuel pos groups read hfuel
  obtain ⟨middle, at_, vs, hmiddle, hvs, hlex⟩ := hc fuel pos groups read hfuel
  obtain ⟨left, next, ws, hleft, hws, hmore⟩ := hd middle at_ groups (vs.reverse ++ read) hmiddle
  refine ⟨left, next, vs ++ ws, hleft, Token.Likeness.append hvs hws, ?_⟩
  rw [hlex, hmore, List.reverse_append, List.append_assoc]

theorem word {name : String} {cs : List Char} {pos : Position} (h : IsIdentifier name) (hcs : endsLexeme cs = true) :
    LexesTo like (name.toList ++ cs) [.ident name pos] cs := by
  have hleaf : ∀ pos, Syntax.leaf ⟨name.toList ++ cs, pos⟩ = some (.ident name pos, cs) :=
    fun _ => leaf_identifier h hcs
  obtain ⟨hne, hchars⟩ := isName_of_isIdentifier h
  obtain ⟨c, more, hn⟩ := List.exists_cons_of_ne_nil hne
  rw [hn] at hleaf hchars ⊢
  have hc := hchars c List.mem_cons_self
  refine leaf (.ident name) (staysTogether_of_isNameChar hc) (noBracket_of_not_mem fun hb => ?_)
    (fun _ => Token.Placeless.of_match (.single rfl rfl)) hleaf (by simp)
  exact absurd hc ((List.all_iff_forall_prop.mp (by decide) : ∀ c ∈ ['(', '[', '\x7b', ')', ']', '\x7d'], ¬ isNameChar c = true) c hb)

theorem literal {text : String} {cs : List Char} {pos : Position} (h : IsLiteral text) (hcs : endsLexeme cs = true) :
    LexesTo like (text.toList ++ cs) [.literal text pos] cs := by
  have hleaf : ∀ pos, Syntax.leaf ⟨text.toList ++ cs, pos⟩ = some (.literal text pos, cs) :=
    fun _ => leaf_literal h hcs
  obtain ⟨c, more, hc, hstart⟩ := h.opens
  rw [hc] at hleaf ⊢
  refine leaf (.literal text) (staysTogether_of_startsLiteral hstart) (noBracket_of_not_mem fun hb => ?_)
    (fun _ => Token.Placeless.of_match (.single rfl rfl)) hleaf (by simp)
  exact absurd hstart ((List.all_iff_forall_prop.mp (by decide) : ∀ c ∈ ['(', '[', '\x7b', ')', ']', '\x7d'], ¬ (c.isDigit = true ∨ c = '"')) c hb)

theorem lifetime {name : String} {cs : List Char} {pos namePos : Position} (h : IsIdentifier name)
    (hcs : endsLexeme cs = true) :
    LexesTo like ('\'' :: (name.toList ++ cs)) [.punct '\'' true pos, .ident name namePos] cs := by
  have hquote : LexesTo like ('\'' :: (name.toList ++ cs)) [.punct '\'' true pos] (name.toList ++ cs) :=
    leaf (.punct '\'' true) (by decide) ⟨by decide, by decide⟩
      (fun _ => Token.Placeless.of_match (.single ⟨rfl, fun _ => rfl⟩ ⟨rfl, fun _ => rfl⟩)) (fun _ => leaf_lifetime h hcs) (Nat.le_refl _)
  exact hquote.trans (word h hcs)

theorem group {delimiter : Delimiter} {inner cs : List Char} {content : List Token} {opensAt closesAt : Position}
    (hinner : LexesTo like inner content (delimiter.closing :: cs)) (hhead : inner.head? ≠ some '/') :
    LexesTo like (delimiter.opening :: inner) [.group delimiter content opensAt closesAt] cs := by
  intro fuel pos groups read hfuel
  obtain ⟨fuel, rfl⟩ : ∃ n, fuel = n + 1 := ⟨fuel - 1, by omega⟩
  rw [List.length_cons] at hfuel
  obtain ⟨left, next, us, hleft, hus, hlex⟩ := hinner fuel (Source.goTo ⟨delimiter.opening :: inner, pos⟩ inner).pos
    (⟨delimiter, pos, read⟩ :: groups) [] (by omega)
  obtain ⟨left, rfl⟩ : ∃ n, left = n + 1 := ⟨left - 1, by omega⟩
  rw [List.length_cons] at hleft
  refine ⟨left, (Source.goTo ⟨delimiter.closing :: cs, next⟩ cs).pos, [.group delimiter us pos next], by omega,
    Token.Placeless.group hus, ?_⟩
  rw [lex_opens hhead]
  refine hlex.trans ?_
  rw [List.append_nil, lex_closes, List.reverse_reverse]
  rfl

end LexesTo

/-- A spelling starts no comment, and with no byte order mark. -/
theorem Spells.head_ne {cs : List Char} {ts : List Token} (h : Spells cs ts) :
    ∀ c ∈ cs.head?, c ≠ '/' ∧ c ≠ '\ufeff' := by
  have hname : ∀ {c : Char}, isNameChar c = true → c ≠ '/' ∧ c ≠ '\ufeff' := fun hc =>
    ⟨fun he => absurd (he ▸ hc) (by decide), ne_mark_of_isNameChar hc⟩
  intro c hc
  cases h with
  | nil => cases hc
  | blank rest =>
    cases hc
    decide
  | word h ends rest =>
    obtain ⟨hne, hchars⟩ := isName_of_isIdentifier h
    obtain ⟨d, more, hn⟩ := List.exists_cons_of_ne_nil hne
    rw [hn] at hchars hc
    cases hc
    exact hname (hchars _ List.mem_cons_self)
  | literal h ends rest =>
    obtain ⟨d, more, hd, hstart⟩ := h.opens
    rw [hd] at hc
    cases hc
    rcases hstart with hdigit | rfl
    · refine hname ?_
      rw [isNameChar, continuesIdentifier_of_isHexDigit (isHexDigit_of_isDigit hdigit)]
      rfl
    · decide
  | mark h ne joins rest =>
    cases hc
    exact ⟨fun he => absurd (he ▸ h) (by decide), fun he => absurd (he ▸ h) (by decide)⟩
  | lifetime h ends rest =>
    cases hc
    decide
  | @group delimiter =>
    cases hc
    cases delimiter <;> decide

/-- Text that spells tokens is read as tokens like them. -/
theorem lexesTo_of_spells {cs : List Char} {ts : List Token} (h : Spells cs ts) :
    ∀ {tail : List Char}, atClosing tail = true → LexesTo Token.AllAgree (cs ++ tail) ts tail := by
  induction h with
  | nil => exact fun _ => LexesTo.refl _
  | blank rest ih =>
    intro tail htail
    exact (ih htail).blank (rest.blanks_suffix (blanks_suffix_of_atClosing htail))
  | word h ends rest ih =>
    intro tail htail
    rw [List.append_assoc]
    exact (LexesTo.word h (endsLexeme_append ends (endsLexeme_of_atClosing htail))).trans (ih htail)
  | literal h ends rest ih =>
    intro tail htail
    rw [List.append_assoc]
    exact (LexesTo.literal h (endsLexeme_append ends (endsLexeme_of_atClosing htail))).trans (ih htail)
  | mark h ne joins rest ih =>
    intro tail htail
    refine (LexesTo.mark h ne fun _ => ⟨⟨rfl, fun hj => ?_⟩, trivial⟩).trans (ih htail)
    exact startsMark_of_head (head_append_any (joins hj))
  | lifetime h ends rest ih =>
    intro tail htail
    rw [List.cons_append, List.append_assoc]
    exact (LexesTo.lifetime h (endsLexeme_append ends (endsLexeme_of_atClosing htail))).trans (ih htail)
  | @group delimiter inner content _ _ cs _ spelled rest ihc ih =>
    intro tail htail
    rw [List.cons_append, List.append_assoc, List.cons_append]
    have hclosing : atClosing (delimiter.closing :: (cs ++ tail)) = true := by cases delimiter <;> rfl
    refine (LexesTo.group (ihc hclosing) fun he => ?_).trans (ih htail)
    cases inner with
    | nil => cases delimiter <;> cases he
    | cons c more => exact (spelled.head_ne c rfl).1 (Option.some.inj he)

/-- A whole text from which tokens are read. -/
theorem tokensOf_of_lexesTo {like : List Token → List Token → Prop} {cs : List Char} {ts : List Token}
    (h : LexesTo like cs ts []) (hmark : cs.head? ≠ some '\ufeff') : ∃ us, tokensOf cs = .ok us ∧ like ts us := by
  obtain ⟨left, next, us, hleft, hus, hlex⟩ := h (cs.length + 1) .start [] [] (Nat.lt_succ_self _)
  obtain ⟨left, rfl⟩ : ∃ n, left = n + 1 := ⟨left - 1, by rw [List.length_nil] at hleft; omega⟩
  have hend : lex (left + 1) ⟨[], next⟩ [] (us.reverse ++ []) = .ok us := by
    rw [List.append_nil]
    simp [lex, Lexeme.blanks, Lexeme.blanksWithin, Source.goTo, Lexeme.documentation]
  rw [hend] at hlex
  have hne : ∀ rest, cs ≠ '\ufeff' :: rest := fun rest he => hmark (by rw [he]; rfl)
  exact ⟨us, by simpa only [tokensOf] using hlex, hus⟩

/-- A whole text that spells tokens. -/
theorem tokensOf_of_spells {cs : List Char} {ts : List Token} (h : Spells cs ts) :
    ∃ us, tokensOf cs = .ok us ∧ Token.AllAgree ts us := by
  have hlexes : LexesTo Token.AllAgree (cs ++ []) ts [] := lexesTo_of_spells h rfl
  rw [List.append_nil] at hlexes
  exact tokensOf_of_lexesTo hlexes fun hc => (h.head_ne _ hc).2 rfl

/-! ## Putting spellings together -/

theorem Spells.append {cs ds : List Char} {ts us : List Token} (hc : Spells cs ts) (hd : Spells ds us)
    (hends : endsLexeme ds = true) : Spells (cs ++ ds) (ts ++ us) := by
  induction hc with
  | nil => exact hd
  | blank rest ih => exact .blank ih
  | word h ends rest ih =>
    rw [List.append_assoc]
    exact .word h (endsLexeme_append ends hends) ih
  | literal h ends rest ih =>
    rw [List.append_assoc]
    exact .literal h (endsLexeme_append ends hends) ih
  | mark h ne joins rest ih => exact .mark h ne (fun hj => head_append_any (joins hj)) ih
  | lifetime h ends rest ih =>
    rw [List.cons_append, List.append_assoc]
    exact .lifetime h (endsLexeme_append ends hends) ih
  | group content rest ihc ih =>
    rw [List.cons_append, List.append_assoc, List.cons_append]
    exact .group content ih

/-- Tokens that their printed text spells: names and literals that are read as such, and marks that
are joint only with a mark after them. -/
inductive Printable : List Token → Prop where
  | nil : Printable []
  | word {name pos ts} (h : IsIdentifier name) (rest : Printable ts) : Printable (.ident name pos :: ts)
  | literal {text pos ts} (h : IsLiteral text) (rest : Printable ts) : Printable (.literal text pos :: ts)
  | mark {c pos ts} (h : isPlainMark c = true) (ne : c ≠ '\'') (rest : Printable ts) :
      Printable (.punct c false pos :: ts)
  | joint {c d joint pos next ts} (h : isPlainMark c = true) (ne : c ≠ '\'') (hd : isPlainMark d = true)
      (rest : Printable (.punct d joint next :: ts)) : Printable (.punct c true pos :: .punct d joint next :: ts)
  | lifetime {name pos namePos ts} (h : IsIdentifier name) (rest : Printable ts) :
      Printable (.punct '\'' true pos :: .ident name namePos :: ts)
  | group {delimiter content opensAt closesAt ts} (content_ : Printable content) (rest : Printable ts) :
      Printable (.group delimiter content opensAt closesAt :: ts)

theorem Printable.append {ts us : List Token} (ht : Printable ts) (hu : Printable us) : Printable (ts ++ us) := by
  induction ht with
  | nil => exact hu
  | word h rest ih => exact .word h ih
  | literal h rest ih => exact .literal h ih
  | mark h ne rest ih => exact .mark h ne ih
  | joint h ne hd rest ih => exact .joint h ne hd ih
  | lifetime h rest ih => exact .lifetime h ih
  | group content rest ihc ih => exact .group content ih

/-- What follows a token that is not joint stands apart from it. -/
theorem exists_printAll_cons (t : Token) {ts : List Token} (hj : t.joins = false) (h : Spells (Token.printAll ts) ts) :
    ∃ cs, Token.printAll (t :: ts) = t.print ++ cs ∧ Spells cs ts ∧ endsLexeme cs = true := by
  cases ts with
  | nil => exact ⟨[], by rw [Token.printAll, List.append_nil], .nil, rfl⟩
  | cons next rest =>
    refine ⟨' ' :: Token.printAll (next :: rest), ?_, .blank h, rfl⟩
    rw [Token.printAll, hj]
    rfl

/-- Nothing stands between a joint mark and what it is joined to. -/
theorem printAll_joint (c : Char) (pos : Position) (t : Token) (ts : List Token) :
    Token.printAll (.punct c true pos :: t :: ts) = c :: Token.printAll (t :: ts) := by
  rw [Token.printAll, Token.print]
  rfl

theorem head?_printAll_punct (c : Char) (joint : Bool) (pos : Position) (ts : List Token) :
    (Token.printAll (.punct c joint pos :: ts)).head? = some c := by
  cases ts <;> rw [Token.printAll, Token.print] <;> rfl

/-- Braces stand apart from what is in them. -/
theorem exists_print_group (delimiter : Delimiter) (opensAt closesAt : Position) {content : List Token}
    (h : Spells (Token.printAll content) content) :
    ∃ inner, Token.print (.group delimiter content opensAt closesAt) =
      delimiter.opening :: (inner ++ [delimiter.closing]) ∧ Spells inner content := by
  cases delimiter with
  | parenthesis => exact ⟨_, by rw [Token.print]; rfl, h⟩
  | bracket => exact ⟨_, by rw [Token.print]; rfl, h⟩
  | brace =>
    cases content with
    | nil => exact ⟨[' '], by rw [Token.print]; rfl, .blank .nil⟩
    | cons t more =>
      refine ⟨' ' :: (Token.printAll (t :: more) ++ [' ']), by rw [Token.print]; simp [Delimiter.opening, Delimiter.closing], .blank ?_⟩
      have hblank := h.append (.blank .nil) rfl
      rwa [List.append_nil] at hblank

theorem spells_printAll {ts : List Token} (h : Printable ts) : Spells (Token.printAll ts) ts := by
  induction h with
  | nil => exact .nil
  | @word name pos ts h rest ih =>
    obtain ⟨cs, he, hs, hends⟩ := exists_printAll_cons (.ident name pos) rfl ih
    rw [he, Token.print]
    exact .word h hends hs
  | @literal text pos ts h rest ih =>
    obtain ⟨cs, he, hs, hends⟩ := exists_printAll_cons (.literal text pos) rfl ih
    rw [he, Token.print]
    exact .literal h hends hs
  | @mark c pos ts h ne rest ih =>
    obtain ⟨cs, he, hs, -⟩ := exists_printAll_cons (.punct c false pos) rfl ih
    rw [he, Token.print]
    exact .mark h ne (fun hj => by cases hj) hs
  | @joint c d joint pos next ts h ne hd rest ih =>
    rw [printAll_joint]
    exact .mark h ne (fun _ => by rw [head?_printAll_punct]; exact hd) ih
  | @lifetime name pos namePos ts h rest ih =>
    obtain ⟨cs, he, hs, hends⟩ := exists_printAll_cons (.ident name namePos) rfl ih
    rw [printAll_joint, he, Token.print]
    exact .lifetime h hends hs
  | @group delimiter content opensAt closesAt ts _ rest ihc ih =>
    obtain ⟨cs, he, hs, -⟩ := exists_printAll_cons (.group delimiter content opensAt closesAt) rfl ih
    obtain ⟨inner, hp, hinner⟩ := exists_print_group delimiter opensAt closesAt ihc
    rw [he, hp, List.cons_append, List.append_assoc]
    exact .group hinner hs

/-! ## Printed tokens in front of other text -/

/-- At the end of a text or of a line, before a blank, or at the end of a bracket. -/
def afterPrinted (cs : List Char) : Bool := cs.head?.all fun c => [' ', '\n', ')', ']', '\x7d'].contains c

theorem ends_of_afterPrinted {cs : List Char} (h : afterPrinted cs = true) :
    endsLexeme cs = true ∧ Lexeme.startsMark cs = false := by
  cases cs with
  | nil => exact ⟨rfl, rfl⟩
  | cons c rest =>
    have hc : c ∈ [' ', '\n', ')', ']', '\x7d'] := by simpa [afterPrinted] using h
    simp only [List.mem_cons, List.not_mem_nil, or_false] at hc
    rcases hc with rfl | rfl | rfl | rfl | rfl <;> exact ⟨rfl, rfl⟩

/-- After a token that is not joint, others are read from where it ends. -/
theorem exists_printAll_append (t : Token) {ts : List Token} {tail : List Char} (hj : t.joins = false) (hp : Printable ts)
    (htail : afterPrinted tail = true) (hblanks : Lexeme.blanks tail <:+ tail)
    (h : LexesTo Token.AllMatch (Token.printAll ts ++ tail) ts tail) :
    ∃ cs, Token.printAll (t :: ts) ++ tail = t.print ++ cs ∧ LexesTo Token.AllMatch cs ts tail ∧ afterPrinted cs = true := by
  cases ts with
  | nil => exact ⟨tail, by rw [Token.printAll], .refl _, htail⟩
  | cons next rest =>
    refine ⟨' ' :: (Token.printAll (next :: rest) ++ tail), ?_, h.blank ((spells_printAll hp).blanks_suffix hblanks), rfl⟩
    rw [Token.printAll, hj]
    simp

/-- What is in a bracket is read up to where it closes, and is not taken for the start of a comment. -/
theorem exists_print_group_append (delimiter : Delimiter) (opensAt closesAt : Position) {content : List Token}
    (cs : List Char) (printable : Printable content)
    (h : ∀ {tail : List Char}, afterPrinted tail = true → Lexeme.blanks tail <:+ tail →
      LexesTo Token.AllMatch (Token.printAll content ++ tail) content tail) :
    ∃ inner, Token.print (.group delimiter content opensAt closesAt) ++ cs = delimiter.opening :: inner ∧
      LexesTo Token.AllMatch inner content (delimiter.closing :: cs) ∧ inner.head? ≠ some '/' := by
  have hclosing : Lexeme.blanks (delimiter.closing :: cs) <:+ delimiter.closing :: cs :=
    blanks_suffix_of_atClosing (by cases delimiter <;> rfl)
  have hafter : afterPrinted (delimiter.closing :: cs) = true := by cases delimiter <;> rfl
  have hhead : (Token.printAll content ++ delimiter.closing :: cs).head? ≠ some '/' := by
    intro hc
    cases hp : Token.printAll content with
    | nil =>
      rw [hp] at hc
      cases delimiter <;> cases hc
    | cons c others =>
      rw [hp] at hc
      have hspelled := spells_printAll printable
      rw [hp] at hspelled
      exact (hspelled.head_ne c rfl).1 (Option.some.inj hc)
  cases delimiter with
  | parenthesis =>
    exact ⟨Token.printAll content ++ Delimiter.parenthesis.closing :: cs,
      by rw [Token.print]; simp [Delimiter.opening, Delimiter.closing], h hafter hclosing, hhead⟩
  | bracket =>
    exact ⟨Token.printAll content ++ Delimiter.bracket.closing :: cs,
      by rw [Token.print]; simp [Delimiter.opening, Delimiter.closing], h hafter hclosing, hhead⟩
  | brace =>
    have hspace : LexesTo Token.AllMatch (' ' :: Delimiter.brace.closing :: cs) [] (Delimiter.brace.closing :: cs) :=
      (LexesTo.refl _).blank hclosing
    cases content with
    | nil => exact ⟨' ' :: Delimiter.brace.closing :: cs, by rw [Token.print]; rfl, hspace, nofun⟩
    | cons t more =>
      refine ⟨' ' :: (Token.printAll (t :: more) ++ (' ' :: Delimiter.brace.closing :: cs)),
        by rw [Token.print]; simp [Delimiter.opening, Delimiter.closing], ?_, nofun⟩
      have hspaced := blanks_suffix_blank hclosing
      have hcontent := (h rfl hspaced).trans hspace
      rw [List.append_nil] at hcontent
      exact hcontent.blank ((spells_printAll printable).blanks_suffix hspaced)

/-- The text of printed tokens is read as tokens that match them. -/
theorem lexesTo_of_printable {ts : List Token} (h : Printable ts) :
    ∀ {tail : List Char}, afterPrinted tail = true → Lexeme.blanks tail <:+ tail →
      LexesTo Token.AllMatch (Token.printAll ts ++ tail) ts tail := by
  induction h with
  | nil => exact fun _ _ => .refl _
  | @word name pos ts h rest ih =>
    intro tail htail hblanks
    obtain ⟨cs, he, hcs, hends⟩ := exists_printAll_append (.ident name pos) rfl rest htail hblanks (ih htail hblanks)
    rw [he, Token.print]
    exact (LexesTo.word h (ends_of_afterPrinted hends).1).trans hcs
  | @literal text pos ts h rest ih =>
    intro tail htail hblanks
    obtain ⟨cs, he, hcs, hends⟩ := exists_printAll_append (.literal text pos) rfl rest htail hblanks (ih htail hblanks)
    rw [he, Token.print]
    exact (LexesTo.literal h (ends_of_afterPrinted hends).1).trans hcs
  | @mark c pos ts h ne rest ih =>
    intro tail htail hblanks
    obtain ⟨cs, he, hcs, hends⟩ := exists_printAll_append (.punct c false pos) rfl rest htail hblanks (ih htail hblanks)
    have hmark : LexesTo Token.AllMatch (c :: cs) [.punct c false pos] cs := by
      refine LexesTo.mark h ne fun next => ?_
      rw [(ends_of_afterPrinted hends).2]
      exact .single ⟨rfl, id⟩ ⟨rfl, id⟩
    rw [he, Token.print]
    exact hmark.trans hcs
  | @joint c d joint pos next ts h ne hd rest ih =>
    intro tail htail hblanks
    have hmark : LexesTo Token.AllMatch (c :: (Token.printAll (.punct d joint next :: ts) ++ tail)) [.punct c true pos]
        (Token.printAll (.punct d joint next :: ts) ++ tail) := by
      refine LexesTo.mark h ne fun next => ?_
      rw [startsMark_of_head (head_append_any (by rw [head?_printAll_punct]; exact hd))]
      exact .single ⟨rfl, id⟩ ⟨rfl, id⟩
    rw [printAll_joint]
    exact hmark.trans (ih htail hblanks)
  | @lifetime name pos namePos ts h rest ih =>
    intro tail htail hblanks
    obtain ⟨cs, he, hcs, hends⟩ := exists_printAll_append (.ident name namePos) rfl rest htail hblanks (ih htail hblanks)
    rw [printAll_joint, List.cons_append, he, Token.print]
    exact (LexesTo.lifetime h (ends_of_afterPrinted hends).1).trans hcs
  | @group delimiter content opensAt closesAt ts printable rest ihc ih =>
    intro tail htail hblanks
    obtain ⟨cs, he, hcs, hends⟩ :=
      exists_printAll_append (.group delimiter content opensAt closesAt) rfl rest htail hblanks (ih htail hblanks)
    obtain ⟨inner, hp, hinner, hne⟩ := exists_print_group_append delimiter opensAt closesAt cs printable ihc
    rw [he, hp]
    exact (LexesTo.group hinner hne).trans hcs

/-- Printed tokens are read as tokens that match them. -/
theorem tokens_of_printable {ts : List Token} (h : Printable ts) :
    ∃ us, tokens (printed ts) = .ok us ∧ Token.AllMatch ts us := by
  unfold tokens printed
  rw [String.toList_ofList]
  have hlexes : LexesTo Token.AllMatch (Token.printAll ts ++ []) ts [] := lexesTo_of_printable h rfl List.suffix_rfl
  rw [List.append_nil] at hlexes
  exact tokensOf_of_lexesTo hlexes fun hc => ((spells_printAll h).head_ne _ hc).2 rfl

end BuilderSynthesis.Syntax
