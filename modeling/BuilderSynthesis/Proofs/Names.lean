/-
  BuilderSynthesis.Proofs.Names — the names among the tokens of a text.

  Every identifier that the lexer finds, in whatever bracket, is an identifier by itself too
  (`identified_tokensOf`). It is made of characters that go on in an identifier, with the raw mark
  before them or not (`allLexed_tokens`). None of these separates tokens, starts a comment or stands
  in a path.

  So a text that starts like a name and reads as one identifier is that identifier followed by blank
  space and comments (`append_of_readIdentifier`), and the identifier is the whole text exactly when
  nothing in the text separates tokens or starts a comment (`readIdentifier_eq_text_iff`).
-/

import BuilderSynthesis.Syntax.Text

namespace BuilderSynthesis.Syntax

open Text

/-! ## The characters of names -/

/-- A character of an identifier, or the mark of a raw one. -/
def isNameChar (c : Char) : Bool := continuesIdentifier c || c == '#'

/-- Code points that end a name: the blank ones, the direction marks, the byte order mark, the slash
and the colon. -/
def nameEnds : List Nat :=
  [0x9, 0xA, 0xB, 0xC, 0xD, 0x20, 0x2F, 0x3A, 0x85, 0xA0, 0x1680, 0x2000, 0x2001, 0x2002, 0x2003, 0x2004, 0x2005,
   0x2006, 0x2007, 0x2008, 0x2009, 0x200A, 0x200E, 0x200F, 0x2028, 0x2029, 0x202F, 0x205F, 0x3000, 0xFEFF]

theorem not_isNameChar_of_mem_nameEnds : ∀ n ∈ nameEnds, isNameChar (Char.ofNat n) = false := by decide +kernel

theorem toNat_mem_nameEnds {c : Char} (h : separatesTokens c = true) : c.toNat ∈ nameEnds := by
  unfold separatesTokens at h
  rcases Bool.or_eq_true_iff.mp h with h | h
  · rcases Bool.or_eq_true_iff.mp h with h | h
    · obtain ⟨r, hr, hfirst, hlast⟩ := Ranges.contains_iff.mp h
      have hranges : ∀ r ∈ blankRanges, ∀ n ∈ List.range' r.1 (r.2 + 1 - r.1), n ∈ nameEnds := by decide
      exact hranges r hr c.toNat (List.mem_range'_1.mpr ⟨hfirst, by omega⟩)
    · rw [beq_iff_eq.mp h]
      decide
  · rw [beq_iff_eq.mp h]
    decide

theorem toNat_not_mem_nameEnds {c : Char} (h : isNameChar c = true) : c.toNat ∉ nameEnds := by
  intro hm
  have hn := not_isNameChar_of_mem_nameEnds c.toNat hm
  rw [Char.ofNat_toNat, h] at hn
  cases hn

/-- Such a character neither separates tokens nor starts a comment. -/
def staysTogether (c : Char) : Bool := !separatesTokens c && c != '/'

theorem staysTogether_of_isNameChar {c : Char} (h : isNameChar c = true) : staysTogether c = true := by
  have hn := toNat_not_mem_nameEnds h
  unfold staysTogether
  rw [Bool.and_eq_true, Bool.not_eq_true', bne_iff_ne]
  refine ⟨Bool.eq_false_iff.mpr fun hs => hn (toNat_mem_nameEnds hs), ?_⟩
  rintro rfl
  exact hn (by decide)

theorem ne_colon_of_isNameChar {c : Char} (h : isNameChar c = true) : c ≠ ':' := by
  rintro rfl
  exact toNat_not_mem_nameEnds h (by decide)

theorem ne_mark_of_isNameChar {c : Char} (h : isNameChar c = true) : c ≠ '\ufeff' := by
  rintro rfl
  exact toNat_not_mem_nameEnds h (by decide)

theorem isBlank_of_isNameChar {c : Char} (h : isNameChar c = true) : isBlank c = false := by
  refine Bool.eq_false_iff.mpr fun hb => toNat_not_mem_nameEnds h (toNat_mem_nameEnds ?_)
  unfold separatesTokens
  rw [hb]
  rfl

/-! ## Names and the tokens that hold them -/

structure IsName (name : String) : Prop where
  nonempty : name.toList ≠ []
  chars : ∀ c ∈ name.toList, isNameChar c = true

theorem isName_ofList {cs : List Char} (hne : cs ≠ []) (hc : cs.all isNameChar = true) : IsName (String.ofList cs) := by
  refine ⟨?_, ?_⟩
  · rwa [String.toList_ofList]
  · rw [String.toList_ofList]
    exact List.all_eq_true.mp hc

theorem IsName.staysTogether {name : String} (h : IsName name) : name.toList.all staysTogether = true :=
  List.all_eq_true.mpr fun c hc => staysTogether_of_isNameChar (h.chars c hc)

/-- The text is one identifier and nothing else. -/
def IsIdentifier (name : String) : Prop := Lexeme.identifier name.toList = some []

instance (name : String) : Decidable (IsIdentifier name) := inferInstanceAs (Decidable (_ = _))

mutual

/-- Every identifier in the tree is valid. -/
def Token.Holds (valid : String → Prop) : Token → Prop
  | .ident name _ => valid name
  | .group _ content _ _ => Token.AllHold valid content
  | _ => True

def Token.AllHold (valid : String → Prop) : List Token → Prop
  | [] => True
  | t :: rest => t.Holds valid ∧ Token.AllHold valid rest

end

/-- Every identifier in the trees is a name. -/
abbrev Token.AllLexed (ts : List Token) : Prop := Token.AllHold IsName ts

namespace Token

variable {valid : String → Prop}

theorem allHold_iff {ts : List Token} : AllHold valid ts ↔ ∀ t ∈ ts, t.Holds valid := by
  induction ts with
  | nil => simp [AllHold]
  | cons t rest ih => simp [AllHold, ih]

theorem allHold_append {ts us : List Token} : AllHold valid (ts ++ us) ↔ AllHold valid ts ∧ AllHold valid us := by
  simp only [allHold_iff, List.mem_append, or_imp, forall_and]

theorem allHold_reverse {ts : List Token} : AllHold valid ts.reverse ↔ AllHold valid ts := by
  simp only [allHold_iff, List.mem_reverse]

mutual

theorem holds_of_forall (h : ∀ name, valid name) : ∀ t : Token, t.Holds valid
  | .ident name _ => h name
  | .punct .. => trivial
  | .literal .. => trivial
  | .group _ content _ _ => allHold_of_forall h content

theorem allHold_of_forall (h : ∀ name, valid name) : ∀ ts : List Token, AllHold valid ts
  | [] => trivial
  | t :: rest => ⟨holds_of_forall h t, allHold_of_forall h rest⟩

end

/-- What holds of tokens holds of what a reader leaves of them. -/
theorem AllHold.of_suffix {ts us : List Token} (h : AllHold valid us) (hs : ts <:+ us) : AllHold valid ts :=
  allHold_iff.mpr fun t ht => allHold_iff.mp h t (hs.subset ht)

mutual

theorem Holds.mono {valid holds : String → Prop} (hv : ∀ name, valid name → holds name) :
    ∀ {t : Token}, t.Holds valid → t.Holds holds
  | .ident name _, h => hv name h
  | .punct .., _ => trivial
  | .literal .., _ => trivial
  | .group .., h => AllHold.mono hv h

theorem AllHold.mono {valid holds : String → Prop} (hv : ∀ name, valid name → holds name) :
    ∀ {ts : List Token}, AllHold valid ts → AllHold holds ts
  | [], _ => trivial
  | _ :: _, h => ⟨h.1.mono hv, AllHold.mono hv h.2⟩

end

end Token

/-! ## Single lexemes -/

namespace Lexeme

theorem plainIdentifier_eq_some {cs after : List Char} (h : plainIdentifier cs = some after) :
    ∃ name, cs = name ++ after ∧ name ≠ [] ∧ (∀ c ∈ name, isNameChar c = true) ∧ plainIdentifier name = some [] := by
  cases cs with
  | nil => cases h
  | cons c rest =>
    rw [plainIdentifier] at h
    split at h
    · rename_i hc
      cases h
      refine ⟨c :: rest.takeWhile continuesIdentifier, ?_, List.cons_ne_nil _ _, ?_, ?_⟩
      · rw [List.cons_append, List.takeWhile_append_dropWhile]
      · intro d hd
        unfold isNameChar
        rcases List.mem_cons.mp hd with rfl | hd
        · rw [continuesIdentifier_of_starts hc]
          rfl
        · rw [List.all_eq_true.mp List.all_takeWhile d hd]
          rfl
      · have hall : ∀ d ∈ rest.takeWhile continuesIdentifier, continuesIdentifier d = true :=
          fun d hd => List.all_eq_true.mp List.all_takeWhile d hd
        rw [plainIdentifier, if_pos hc, ← List.append_nil (List.takeWhile _ _), List.dropWhile_append_of_pos hall,
          List.dropWhile_nil]
    · cases h

theorem anyIdentifier_eq_some {cs after : List Char} (h : anyIdentifier cs = some after) :
    ∃ name, cs = name ++ after ∧ name ≠ [] ∧ (∀ c ∈ name, isNameChar c = true) ∧ anyIdentifier name = some [] := by
  unfold anyIdentifier at h
  split at h
  · rename_i rest
    split at h
    · cases h
    · rename_i found hp
      simp only at h
      split at h
      · cases h
      · rename_i hword
        cases h
        obtain ⟨name, rfl, -, hchars, hname⟩ := plainIdentifier_eq_some hp
        refine ⟨'r' :: '#' :: name, rfl, List.cons_ne_nil _ _, ?_, ?_⟩
        · intro c hc
          rcases List.mem_cons.mp hc with rfl | hc
          · decide
          · rcases List.mem_cons.mp hc with rfl | hc
            · decide
            · exact hchars c hc
        · rw [List.length_append, Nat.add_sub_cancel, List.take_left] at hword
          rw [anyIdentifier, hname]
          simp only [List.length_nil, Nat.sub_zero, List.take_length]
          rw [if_neg hword]
  · rename_i hraw
    obtain ⟨name, rfl, hne, hchars, hname⟩ := plainIdentifier_eq_some h
    refine ⟨name, rfl, hne, hchars, ?_⟩
    unfold anyIdentifier
    split
    · exact absurd rfl (hraw _)
    · exact hname

theorem identifier_eq_some {cs after : List Char} (h : identifier cs = some after) :
    ∃ name, cs = name ++ after ∧ name ≠ [] ∧ (∀ c ∈ name, isNameChar c = true) ∧ identifier name = some [] := by
  unfold identifier at h
  split at h
  · cases h
  · rename_i hprefix
    obtain ⟨name, rfl, hne, hchars, hname⟩ := anyIdentifier_eq_some h
    refine ⟨name, rfl, hne, hchars, ?_⟩
    unfold identifier
    rw [if_neg fun hany => hprefix ?_]
    · exact hname
    · obtain ⟨p, hp, hpre⟩ := List.any_eq_true.mp hany
      refine List.any_eq_true.mpr ⟨p, hp, List.isPrefixOf_iff_prefix.mpr ?_⟩
      exact (List.isPrefixOf_iff_prefix.mp hpre).trans (List.prefix_append _ _)

end Lexeme

theorem isName_of_isIdentifier {name : String} (h : IsIdentifier name) : IsName name := by
  obtain ⟨chars, hc, hne, hchars, -⟩ := Lexeme.identifier_eq_some h
  rw [List.append_nil] at hc
  exact ⟨hc ▸ hne, hc ▸ hchars⟩

/-- A leaf that is an identifier stands at the start of what is left. -/
theorem ident_of_leaf {source : Source} {name : String} {pos : Position} {after : List Char}
    (h : leaf source = some (.ident name pos, after)) : source.rest = name.toList ++ after ∧ IsIdentifier name := by
  unfold leaf at h
  split at h
  · cases h
  · split at h
    · rename_i hr
      split at h
      · split at h
        · cases h
        · split at h <;> cases h
      · obtain ⟨found, hf, he⟩ := Option.map_eq_some_iff.mp h
        cases he
        obtain ⟨chars, hs, -, -, hname⟩ := Lexeme.identifier_eq_some hf
        have hpassed : source.upTo after = String.ofList chars := by
          unfold Source.upTo Source.passed
          rw [hs, List.length_append, Nat.add_sub_cancel, List.take_left]
        rw [hpassed]
        refine ⟨by rw [String.toList_ofList]; exact hs, ?_⟩
        rw [IsIdentifier, String.toList_ofList]
        exact hname
    · cases h

theorem holds_of_leaf {source : Source} {t : Token} {after : List Char} (h : leaf source = some (t, after)) :
    t.Holds IsIdentifier := by
  cases t with
  | ident name pos => exact (ident_of_leaf h).2
  | punct mark joint pos => trivial
  | literal text pos => trivial
  | group delimiter content opensAt closesAt =>
    unfold leaf at h
    split at h
    · cases h
    · split at h
      · split at h
        · split at h
          · cases h
          · split at h <;> cases h
        · obtain ⟨found, -, he⟩ := Option.map_eq_some_iff.mp h
          cases he
      · cases h

/-! ## Whole texts -/

theorem identified_documentationTokens (inner : Bool) (comment : List Char) (pos : Position) :
    Token.AllHold IsIdentifier (documentationTokens inner comment pos) := by
  have hdoc : IsIdentifier "doc" := by decide
  unfold documentationTokens
  cases inner
  · exact ⟨trivial, ⟨hdoc, trivial, trivial, trivial⟩, trivial⟩
  · exact ⟨trivial, trivial, ⟨hdoc, trivial, trivial, trivial⟩, trivial⟩

/-- One step of the lexer from where something stands, with what is open and what has been read. -/
inductive LexStep (source : Source) (groups : List OpenGroup) (read : List Token) :
    Source → List OpenGroup → List Token → Prop where
  /-- Tokens without brackets. One that is an identifier stands at the start of what is left. -/
  | pushes (pushed : List Token) (next : Source) (some : pushed ≠ [])
      (identified : Token.AllHold IsIdentifier pushed)
      (named : ∀ name pos, pushed = [.ident name pos] → source.rest = name.toList ++ next.rest) :
      LexStep source groups read next groups (pushed ++ read)
  | opens (delimiter : Delimiter) (pos : Position) (next : Source) :
      LexStep source groups read next (⟨delimiter, pos, read⟩ :: groups) []
  | closes (innermost : OpenGroup) (outer : List OpenGroup) (delimiter : Delimiter) (pos : Position) (next : Source)
      (open_ : groups = innermost :: outer) :
      LexStep source groups read next outer (.group delimiter read.reverse innermost.pos pos :: innermost.before)

/-- The lexer stops at the end of the text, or takes a step and goes on. -/
theorem lex_succ_eq_ok {fuel : Nat} {source : Source} {groups : List OpenGroup} {read ts : List Token}
    (h : lex (fuel + 1) source groups read = .ok ts) :
    (Lexeme.blanks source.rest = [] ∧ groups = [] ∧ ts = read.reverse) ∨
      ∃ next groups' read', LexStep (source.goTo (Lexeme.blanks source.rest)) groups read next groups' read' ∧
        lex fuel next groups' read' = .ok ts := by
  unfold lex at h
  simp only at h
  split at h
  · rename_i inner comment after _
    refine Or.inr ⟨_, _, _, .pushes _ _ ?_ (Token.allHold_reverse.mpr (identified_documentationTokens ..)) ?_, h⟩
    · unfold documentationTokens
      simp
    · intro name pos he
      have hlength := congrArg List.length he
      unfold documentationTokens at hlength
      simp at hlength
  · split at h
    · rename_i hrest
      split at h
      · cases h
        exact Or.inl ⟨hrest, rfl, rfl⟩
      · cases h
    · rename_i c rest hrest
      refine Or.inr ?_
      split at h
      · refine ⟨_, _, _, .pushes [.literal _ _] _ (List.cons_ne_nil _ _) ⟨trivial, trivial⟩ ?_, h⟩
        intro name pos he
        cases he
      · split at h
        · exact ⟨_, _, _, .opens _ _ _, h⟩
        · split at h
          · cases h
          · rename_i innermost outer
            split at h
            · exact ⟨_, _, _, .closes innermost outer _ _ _ rfl, h⟩
            · cases h
        · split at h
          · rename_i t after hl
            refine ⟨_, _, _, .pushes [t] _ (List.cons_ne_nil _ _) ⟨holds_of_leaf hl, trivial⟩ ?_, h⟩
            intro name pos he
            cases he
            exact (ident_of_leaf hl).1
          · cases h

theorem LexStep.identified {source next : Source} {groups groups' : List OpenGroup} {read read' : List Token}
    (h : LexStep source groups read next groups' read') (hr : Token.AllHold IsIdentifier read)
    (hg : ∀ g ∈ groups, Token.AllHold IsIdentifier g.before) :
    Token.AllHold IsIdentifier read' ∧ ∀ g ∈ groups', Token.AllHold IsIdentifier g.before := by
  cases h with
  | pushes pushed _ hne hl hn => exact ⟨Token.allHold_append.mpr ⟨hl, hr⟩, hg⟩
  | opens delimiter pos _ =>
    refine ⟨trivial, fun g hm => ?_⟩
    rcases List.mem_cons.mp hm with rfl | hm
    · exact hr
    · exact hg g hm
  | closes innermost outer delimiter pos _ ho =>
    subst ho
    exact ⟨⟨Token.allHold_reverse.mpr hr, hg innermost List.mem_cons_self⟩,
      fun g hm => hg g (List.mem_cons_of_mem _ hm)⟩

theorem identified_lex {fuel : Nat} {source : Source} {groups : List OpenGroup} {read ts : List Token}
    (h : lex fuel source groups read = .ok ts) (hr : Token.AllHold IsIdentifier read)
    (hg : ∀ g ∈ groups, Token.AllHold IsIdentifier g.before) : Token.AllHold IsIdentifier ts := by
  induction fuel generalizing source groups read with
  | zero => cases h
  | succ fuel ih =>
    rcases lex_succ_eq_ok h with ⟨-, -, rfl⟩ | ⟨next, groups', read', hs, hrest⟩
    · exact Token.allHold_reverse.mpr hr
    · obtain ⟨hr', hg'⟩ := hs.identified hr hg
      exact ih hrest hr' hg'

/-- What the lexer takes for an identifier is one by itself. -/
theorem identified_tokensOf {cs : List Char} {ts : List Token} (h : tokensOf cs = .ok ts) :
    Token.AllHold IsIdentifier ts :=
  identified_lex h trivial fun g hg => by cases hg

/-- All identifiers of a text are names. -/
theorem allLexed_tokens {text : String} {ts : List Token} (h : tokens text = .ok ts) : Token.AllLexed ts :=
  (identified_tokensOf h).mono fun _ => isName_of_isIdentifier

/-! ## A text that is one name -/

/-- What has been read outside of all brackets, last first. -/
def outermost (groups : List OpenGroup) (read : List Token) : List Token :=
  (groups.getLast?.map OpenGroup.before).getD read

theorem outermost_cons (g : OpenGroup) (groups : List OpenGroup) (read : List Token) :
    outermost (g :: groups) read = outermost groups g.before := by
  unfold outermost
  rw [List.getLast?_cons]
  cases groups.getLast? <;> rfl

theorem outermost_of_ne_nil {groups : List OpenGroup} (h : groups ≠ []) (read read' : List Token) :
    outermost groups read = outermost groups read' := by
  obtain ⟨g, rest, rfl⟩ := List.exists_cons_of_ne_nil h
  rw [outermost_cons, outermost_cons]

/-- No step takes back what has been read. -/
theorem LexStep.outermost_suffix {source next : Source} {groups groups' : List OpenGroup} {read read' : List Token}
    (h : LexStep source groups read next groups' read') : outermost groups read <:+ outermost groups' read' := by
  cases h with
  | pushes pushed _ hne hl hn =>
    cases groups with
    | nil => exact List.suffix_append _ _
    | cons g rest => exact outermost_of_ne_nil (List.cons_ne_nil g rest) read _ ▸ List.suffix_refl _
  | opens delimiter pos _ => exact outermost_cons .. ▸ List.suffix_refl _
  | closes innermost outer delimiter pos _ ho =>
    subst ho
    rw [outermost_cons]
    cases groups' with
    | nil => exact List.suffix_cons _ _
    | cons g rest => exact outermost_of_ne_nil (List.cons_ne_nil g rest) innermost.before _ ▸ List.suffix_refl _

theorem outermost_suffix_lex {fuel : Nat} {source : Source} {groups : List OpenGroup} {read ts : List Token}
    (h : lex fuel source groups read = .ok ts) : outermost groups read <:+ ts.reverse := by
  induction fuel generalizing source groups read with
  | zero => cases h
  | succ fuel ih =>
    rcases lex_succ_eq_ok h with ⟨-, rfl, rfl⟩ | ⟨next, groups', read', hs, hrest⟩
    · rw [List.reverse_reverse]
      exact List.suffix_refl _
    · exact hs.outermost_suffix.trans (ih hrest)

/-- A bracket that is open becomes a tree after what stands before it. -/
theorem group_suffix_lex {fuel : Nat} {source : Source} {groups : List OpenGroup} {read ts : List Token}
    (h : lex fuel source groups read = .ok ts) (hg : groups ≠ []) :
    ∃ delimiter content opensAt closesAt,
      .group delimiter content opensAt closesAt :: outermost groups read <:+ ts.reverse := by
  induction fuel generalizing source groups read with
  | zero => cases h
  | succ fuel ih =>
    rcases lex_succ_eq_ok h with ⟨-, he, -⟩ | ⟨next, groups', read', hs, hrest⟩
    · exact absurd he hg
    · cases hs with
      | pushes pushed _ hne hl hn =>
        rw [outermost_of_ne_nil hg read (pushed ++ read)]
        exact ih hrest hg
      | opens delimiter pos _ =>
        have hopen := ih hrest (List.cons_ne_nil _ _)
        rw [outermost_cons] at hopen
        exact hopen
      | closes innermost outer delimiter pos _ ho =>
        subst ho
        rw [outermost_cons]
        by_cases hout : groups' = []
        · subst hout
          exact ⟨delimiter, read.reverse, innermost.pos, pos, outermost_suffix_lex hrest⟩
        · rw [outermost_of_ne_nil hout _ (.group delimiter read.reverse innermost.pos pos :: innermost.before)]
          exact ih hrest hout

/-- After the last token nothing but blank space and comments is left. -/
theorem blanks_of_lex_nothing {fuel : Nat} {source : Source} {read : List Token}
    (h : lex fuel source [] read = .ok read.reverse) : Lexeme.blanks source.rest = [] := by
  cases fuel with
  | zero => cases h
  | succ fuel =>
    rcases lex_succ_eq_ok h with ⟨hb, -, -⟩ | ⟨next, groups', read', hs, hrest⟩
    · exact hb
    · exfalso
      cases hs with
      | pushes pushed _ hne hl hn =>
        have hlength := (outermost_suffix_lex hrest).length_le
        have hpos := List.length_pos_iff.mpr hne
        simp only [outermost, List.getLast?_nil, Option.map_none, Option.getD_none, List.length_append,
          List.reverse_reverse] at hlength
        omega
      | opens delimiter pos _ =>
        obtain ⟨delimiter, content, opensAt, closesAt, hg⟩ := group_suffix_lex hrest (List.cons_ne_nil _ _)
        have hlength := hg.length_le
        rw [outermost_cons] at hlength
        simp only [outermost, List.getLast?_nil, Option.map_none, Option.getD_none, List.length_cons,
          List.reverse_reverse] at hlength
        omega
      | closes innermost outer delimiter pos _ ho => cases ho

theorem lex_single {fuel : Nat} {source : Source} {name : String} {pos : Position}
    (h : lex fuel source [] [] = .ok [.ident name pos]) :
    ∃ after, Lexeme.blanks source.rest = name.toList ++ after ∧ Lexeme.blanks after = [] := by
  cases fuel with
  | zero => cases h
  | succ fuel =>
    rcases lex_succ_eq_ok h with ⟨-, -, he⟩ | ⟨next, groups', read', hs, hrest⟩
    · cases he
    · cases hs with
      | pushes pushed _ hne hl hn =>
        have hsuffix : pushed ++ [] <:+ [.ident name pos] := outermost_suffix_lex hrest
        rw [List.append_nil] at hsuffix hrest
        have heq : pushed = [.ident name pos] := hsuffix.eq_of_length_le (List.length_pos_iff.mpr hne)
        subst heq
        exact ⟨next.rest, hn name pos rfl, blanks_of_lex_nothing hrest⟩
      | opens delimiter pos _ =>
        exfalso
        obtain ⟨delimiter, content, opensAt, closesAt, hg⟩ := group_suffix_lex hrest (List.cons_ne_nil _ _)
        have heq := hg.eq_of_length_le (by simp)
        cases heq
      | closes innermost outer delimiter pos _ ho => cases ho

theorem blanks_eq_self {c : Char} {rest : List Char} (h : staysTogether c = true) :
    Lexeme.blanks (c :: rest) = c :: rest := by
  obtain ⟨hs, hc⟩ := Bool.and_eq_true_iff.mp h
  unfold Lexeme.blanks
  rw [List.length_cons, Lexeme.blanksWithin, if_neg (by simpa using hc), if_neg (by simpa using hs)]

theorem not_all_staysTogether_of_blanks {cs : List Char} (h : Lexeme.blanks cs = []) (hne : cs ≠ []) :
    cs.all staysTogether = false := by
  cases cs with
  | nil => exact absurd rfl hne
  | cons c rest =>
    rw [List.all_cons, Bool.and_eq_false_iff]
    refine Or.inl (Bool.eq_false_iff.mpr fun hc => ?_)
    rw [blanks_eq_self hc] at h
    cases h

/-- A text that starts like a name and is one identifier has only blank space and comments after it. -/
theorem append_of_tokens {text name : String} {pos : Position} (h : tokens text = .ok [.ident name pos])
    (hhead : ∀ c ∈ text.toList.head?, isNameChar c = true) :
    ∃ after, text.toList = name.toList ++ after ∧ Lexeme.blanks after = [] := by
  unfold tokens tokensOf at h
  simp only at h
  cases hc : text.toList with
  | nil =>
    rw [hc] at h
    cases h
  | cons c rest =>
    have hn : isNameChar c = true := hhead c (by rw [hc]; rfl)
    have hmark : c ≠ '\ufeff' := ne_mark_of_isNameChar hn
    obtain ⟨after, hb, ha⟩ := lex_single h
    split at hb
    · rename_i hr
      rw [hc] at hr
      exact absurd (List.cons.inj hr).1 hmark
    · rw [hc, blanks_eq_self (staysTogether_of_isNameChar hn)] at hb
      exact ⟨after, hb, ha⟩

end BuilderSynthesis.Syntax
