/-
  BuilderSynthesis.Proofs.Lexemes — identifiers and numerals in front of other text.

  The lexer reads as far as a lexeme goes. An identifier is therefore read again, and read as nothing
  else, exactly as long as nothing follows that would go on with it or make a quoted literal of its
  letters (`Lexeme.identifier_append`, `Lexeme.literal_identifier`); a number of plain digits likewise
  (`Lexeme.literal_numeral`). `endsLexeme` is what has to follow.
-/

import Mathlib.Data.Bool.AllAny
import Mathlib.Data.List.TakeWhile
import BuilderSynthesis.Proofs.Names

namespace BuilderSynthesis.Syntax

open Text

/-! ## Identifiers and numerals -/

/-- The text is a number of plain digits. -/
structure IsNumeral (text : String) : Prop where
  nonempty : text.toList ≠ []
  digits : ∀ c ∈ text.toList, c.isDigit = true

/-- No identifier and no number goes on here. -/
def endsLexeme (cs : List Char) : Bool :=
  cs.head?.all fun c => !continuesIdentifier c && !(['#', '"', '\'', '.'].contains c)

theorem endsLexeme_cons {c : Char} {rest : List Char} (h : endsLexeme (c :: rest) = true) :
    continuesIdentifier c = false ∧ c ≠ '#' ∧ c ≠ '"' ∧ c ≠ '\'' ∧ c ≠ '.' := by
  simpa [endsLexeme] using h

theorem ne_of_continuesIdentifier {c d : Char} (h : continuesIdentifier c = true) (hd : continuesIdentifier d = false) :
    c ≠ d := by
  rintro rfl
  rw [h] at hd
  cases hd

/-- The code points of the hexadecimal digits. -/
def hexPoints : List Nat := List.range' 48 10 ++ List.range' 65 6 ++ List.range' 97 6

theorem toNat_of_isDigit {c : Char} (h : c.isDigit = true) : 48 ≤ c.toNat ∧ c.toNat < 58 := by
  obtain ⟨hlow, hhigh⟩ := Bool.and_eq_true_iff.mp h
  exact ⟨UInt32.le_iff_toNat_le.mp (of_decide_eq_true hlow),
    Nat.lt_succ_of_le (UInt32.le_iff_toNat_le.mp (of_decide_eq_true hhigh))⟩

theorem toNat_mem_hexPoints {c : Char} (h : isHexDigit c = true) : c.toNat ∈ hexPoints := by
  have hle : ∀ {low high : Char}, (low ≤ c && c ≤ high) = true → low.toNat ≤ c.toNat ∧ c.toNat ≤ high.toNat := by
    intro low high hc
    obtain ⟨hlow, hhigh⟩ := Bool.and_eq_true_iff.mp hc
    exact ⟨UInt32.le_iff_toNat_le.mp (of_decide_eq_true hlow), UInt32.le_iff_toNat_le.mp (of_decide_eq_true hhigh)⟩
  have hrange : ∀ {start n : Nat}, start ≤ c.toNat → c.toNat < start + n → c.toNat ∈ List.range' start n :=
    fun hlow hhigh => List.mem_range'_1.mpr ⟨hlow, hhigh⟩
  unfold hexPoints
  rcases Bool.or_eq_true_iff.mp h with h | h
  · rcases Bool.or_eq_true_iff.mp h with h | h
    · obtain ⟨hlow, hhigh⟩ := toNat_of_isDigit h
      exact List.mem_append_left _ (List.mem_append_left _ (hrange hlow hhigh))
    · obtain ⟨hlow, hhigh⟩ := hle h
      exact List.mem_append_right _ (hrange hlow (Nat.lt_succ_of_le hhigh))
  · obtain ⟨hlow, hhigh⟩ := hle h
    exact List.mem_append_left _ (List.mem_append_right _ (hrange hlow (Nat.lt_succ_of_le hhigh)))

theorem continuesIdentifier_of_isHexDigit {c : Char} (h : isHexDigit c = true) : continuesIdentifier c = true := by
  have hall : ∀ n ∈ hexPoints, continuesIdentifier (Char.ofNat n) = true := by decide
  have hc := hall c.toNat (toNat_mem_hexPoints h)
  rwa [Char.ofNat_toNat] at hc

theorem isHexDigit_of_isDigit {c : Char} (h : c.isDigit = true) : isHexDigit c = true := by
  unfold isHexDigit
  rw [h]
  rfl

theorem hexValue_of_isDigit {c : Char} (h : c.isDigit = true) : hexValue c < 10 := by
  have hc := (toNat_of_isDigit h).2
  unfold hexValue
  rw [if_pos h]
  omega

/-- Only the ten digits have a value below ten. -/
theorem isDigit_of_hexValue {c : Char} (h : isHexDigit c = true) (hv : hexValue c < 10) : c.isDigit = true := by
  have hall : ∀ n ∈ hexPoints, hexValue (Char.ofNat n) < 10 → (Char.ofNat n).isDigit = true := by decide
  have hc := hall c.toNat (toNat_mem_hexPoints h)
  rw [Char.ofNat_toNat] at hc
  exact hc hv

theorem not_isDigit_of_startsIdentifier {c : Char} (h : startsIdentifier c = true) : c.isDigit = false := by
  refine Bool.eq_false_iff.mpr fun hd => ?_
  have hall : ∀ n ∈ List.range' 48 10, startsIdentifier (Char.ofNat n) = false := by decide
  have hc := hall c.toNat (List.mem_range'_1.mpr (toNat_of_isDigit hd))
  rw [Char.ofNat_toNat, h] at hc
  cases hc

namespace Lexeme

/-- An identifier is a start and what goes on after it, with the raw mark before it or not. -/
theorem cases_of_isIdentifier {name : String} (h : IsIdentifier name) :
    (∃ c rest, name.toList = c :: rest ∧ startsIdentifier c = true ∧ ∀ d ∈ rest, continuesIdentifier d = true) ∨
      ∃ c rest, name.toList = 'r' :: '#' :: c :: rest ∧ startsIdentifier c = true ∧
        (∀ d ∈ rest, continuesIdentifier d = true) ∧
        ["_", "super", "self", "Self", "crate"].contains (String.ofList (c :: rest)) = false := by
  have hplain : ∀ {cs : List Char}, plainIdentifier cs = some [] →
      ∃ c rest, cs = c :: rest ∧ startsIdentifier c = true ∧ ∀ d ∈ rest, continuesIdentifier d = true := by
    intro cs hcs
    cases cs with
    | nil => cases hcs
    | cons c rest =>
      rw [plainIdentifier] at hcs
      split at hcs
      · rename_i hc
        exact ⟨c, rest, rfl, hc, List.dropWhile_eq_nil_iff.mp (Option.some.inj hcs)⟩
      · cases hcs
  unfold IsIdentifier identifier at h
  split at h
  · cases h
  · unfold anyIdentifier at h
    split at h
    · rename_i rest hname
      split at h
      · cases h
      · rename_i after hp
        simp only at h
        split at h
        · cases h
        · rename_i hword
          cases h
          obtain ⟨c, more, rfl, hc, hmore⟩ := hplain hp
          exact Or.inr ⟨c, more, hname, hc, hmore, by simpa using hword⟩
    · exact Or.inl (hplain h)

theorem raw_eq_none {quote : Quote} {cs : List Char} (h : ∀ c ∈ cs.head?, c ≠ '#' ∧ c ≠ '"') : quote.raw cs = none := by
  cases cs with
  | nil => rfl
  | cons c rest =>
    obtain ⟨hhash, hquote⟩ := h c rfl
    unfold Quote.raw
    rw [List.takeWhile_cons_of_neg (by simpa using hhash)]
    simp only [List.length_nil, List.drop_zero]
    split
    · rename_i heq
      cases heq
      exact absurd rfl hquote
    · rfl

theorem raw_hash_eq_none {quote : Quote} {c : Char} {cs : List Char} (hhash : c ≠ '#') (hquote : c ≠ '"') :
    quote.raw ('#' :: c :: cs) = none := by
  unfold Quote.raw
  rw [List.takeWhile_cons_of_pos (by simp), List.takeWhile_cons_of_neg (by simpa using hhash)]
  simp only [List.length_cons, List.length_nil, List.drop_succ_cons, List.drop_zero]
  split
  · rename_i heq
    cases heq
    exact absurd rfl hquote
  · rfl

theorem digits_eq_none {c : Char} {rest : List Char} (hd : c.isDigit = false) : digits 10 true (c :: rest) = none := by
  unfold digits
  rw [if_neg (by rw [hd]; decide)]
  split
  · rename_i hh
    obtain ⟨hhex, hlt⟩ := Bool.and_eq_true_iff.mp hh
    rw [isDigit_of_hexValue hhex (of_decide_eq_true hlt)] at hd
    cases hd
  · split
    · rfl
    · rfl

/-- No number starts with something else than a digit. -/
theorem number_eq_none {c : Char} {rest : List Char} (hd : c.isDigit = false) : number (c :: rest) = none := by
  have hwhole : whole (c :: rest) = digits 10 true (c :: rest) := by
    unfold whole
    split <;> first | rfl | (rename_i heq; cases heq; exact absurd hd (by decide))
  unfold number
  rw [hwhole, digits_eq_none hd]
  simp [fractional, hd]

/-- The quotes and letters that start a quoted literal. -/
def quoteStarts : List Char := ['"', 'r', 'b', 'c', '\'']

theorem quotedLiteral_eq_none {c : Char} {rest : List Char} (h : c ∉ quoteStarts) : quotedLiteral (c :: rest) = none := by
  unfold quotedLiteral
  split <;> first | rfl | (rename_i heq; cases heq; exact absurd (by decide) h)

theorem literal_eq_none {c : Char} {rest : List Char} (hd : c.isDigit = false) (h : c ∉ quoteStarts) :
    literal (c :: rest) = none := by
  unfold literal
  rw [quotedLiteral_eq_none h, number_eq_none hd]
  rfl

/-- What comes after the letters of an identifier. -/
theorem head_append {t cs : List Char} (ht : ∀ d ∈ t, continuesIdentifier d = true) (hcs : endsLexeme cs = true) :
    ∀ c ∈ (t ++ cs).head?, c ≠ '#' ∧ c ≠ '"' ∧ c ≠ '\'' := by
  intro c hc
  cases t with
  | nil =>
    cases cs with
    | nil => cases hc
    | cons d rest =>
      cases hc
      obtain ⟨-, hhash, hquote, happ, -⟩ := endsLexeme_cons hcs
      exact ⟨hhash, hquote, happ⟩
  | cons d rest =>
    cases hc
    have hd := ht c List.mem_cons_self
    exact ⟨ne_of_continuesIdentifier hd (by decide), ne_of_continuesIdentifier hd (by decide),
      ne_of_continuesIdentifier hd (by decide)⟩

/-- No literal starts where an identifier stands. -/
theorem literal_identifier {name : String} {cs : List Char} (h : IsIdentifier name) (hcs : endsLexeme cs = true) :
    literal (name.toList ++ cs) = none := by
  have hnumber : number (name.toList ++ cs) = none := by
    rcases cases_of_isIdentifier h with ⟨c, t, hn, hc, -⟩ | ⟨c, t, hn, -⟩
    · rw [hn]
      exact number_eq_none (not_isDigit_of_startsIdentifier hc)
    · rw [hn]
      exact number_eq_none (by decide)
  have hquoted : quotedLiteral (name.toList ++ cs) = none := by
    rcases cases_of_isIdentifier h with ⟨c, t, hn, hc, ht⟩ | ⟨c, t, hn, hc, -⟩
    · have hhead := head_append ht hcs
      have hsecond : ∀ {quote : Quote} (rest : List Char), t ++ cs = 'r' :: rest → quote.raw rest = none := by
        intro quote rest heq
        cases t with
        | nil =>
          rw [List.nil_append] at heq
          rw [heq] at hcs
          exact absurd (endsLexeme_cons hcs).1 (by decide)
        | cons d t =>
          have hnext := head_append (fun e he => ht e (List.mem_cons_of_mem _ he)) hcs
          rw [← (List.cons.inj heq).2]
          exact raw_eq_none fun e he => ⟨(hnext e he).1, (hnext e he).2.1⟩
      rw [hn, List.cons_append]
      unfold quotedLiteral
      split
      · rename_i heq
        cases heq
        exact absurd hc (by decide)
      · rename_i heq
        cases heq
        exact raw_eq_none fun d hd => ⟨(hhead d hd).1, (hhead d hd).2.1⟩
      · rename_i heq
        obtain ⟨-, heq⟩ := List.cons.inj heq
        exact absurd rfl (hhead '"' (by rw [heq]; rfl)).2.1
      · rename_i heq
        exact hsecond _ (List.cons.inj heq).2
      · rename_i heq
        obtain ⟨-, heq⟩ := List.cons.inj heq
        exact absurd rfl (hhead '\'' (by rw [heq]; rfl)).2.2
      · rename_i heq
        obtain ⟨-, heq⟩ := List.cons.inj heq
        exact absurd rfl (hhead '"' (by rw [heq]; rfl)).2.1
      · rename_i heq
        exact hsecond _ (List.cons.inj heq).2
      · rename_i heq
        cases heq
        exact absurd hc (by decide)
      · rfl
    · rw [hn]
      exact raw_hash_eq_none (fun he => absurd (he ▸ hc) (by decide)) fun he => absurd (he ▸ hc) (by decide)
  unfold literal
  rw [hquoted, hnumber]
  rfl

theorem plainIdentifier_append {c : Char} {t cs : List Char} (hc : startsIdentifier c = true)
    (ht : ∀ d ∈ t, continuesIdentifier d = true) (hcs : endsLexeme cs = true) :
    plainIdentifier (c :: (t ++ cs)) = some cs := by
  rw [plainIdentifier, if_pos hc, List.dropWhile_append_of_pos ht]
  cases cs with
  | nil => rfl
  | cons d rest => rw [List.dropWhile_cons_of_neg (by rw [(endsLexeme_cons hcs).1]; decide)]

theorem anyIdentifier_append {name : String} {cs : List Char} (h : IsIdentifier name) (hcs : endsLexeme cs = true) :
    anyIdentifier (name.toList ++ cs) = some cs := by
  rcases cases_of_isIdentifier h with ⟨c, t, hn, hc, ht⟩ | ⟨c, t, hn, hc, ht, hword⟩
  · have hplain := plainIdentifier_append hc ht hcs
    rw [hn, List.cons_append]
    unfold anyIdentifier
    split
    · rename_i heq
      obtain ⟨-, heq⟩ := List.cons.inj heq
      exact absurd rfl (head_append ht hcs '#' (by rw [heq]; rfl)).1
    · exact hplain
  · have htake : (c :: (t ++ cs)).take ((c :: (t ++ cs)).length - cs.length) = c :: t := by
      rw [← List.cons_append, List.length_append, Nat.add_sub_cancel, List.take_left]
    rw [hn, List.cons_append, List.cons_append, List.cons_append, anyIdentifier, plainIdentifier_append hc ht hcs]
    simp only [htake, hword, Bool.false_eq_true, if_false]

/-- Followed by the end of a lexeme, an identifier is read again. -/
theorem identifier_append {name : String} {cs : List Char} (h : IsIdentifier name) (hcs : endsLexeme cs = true) :
    identifier (name.toList ++ cs) = some cs := by
  have hprefixes : literalPrefixes.any (·.isPrefixOf (name.toList ++ cs)) = false := by
    refine List.any_eq_false.mpr fun p hp hprefix => ?_
    have hfree : ∀ p ∈ literalPrefixes, ¬ p <+: name.toList := by
      intro p hp hname
      unfold IsIdentifier identifier at h
      have hany : (literalPrefixes.any fun p => p.isPrefixOf name.toList) = true :=
        List.any_eq_true.mpr ⟨p, hp, List.isPrefixOf_iff_prefix.mpr hname⟩
      rw [if_pos hany] at h
      cases h
    have hmarks : ∀ p ∈ literalPrefixes, ∀ d ∈ p.tail, ∀ rest, endsLexeme (d :: rest) = false := by
      have hends : ∀ p ∈ literalPrefixes, (p.tail.all fun d => !endsLexeme [d]) = true := by decide
      intro p hp d hd rest
      exact (Bool.not_eq_true' _).mp (List.all_eq_true.mp (hends p hp) d hd)
    rcases List.prefix_or_prefix_of_prefix (List.isPrefixOf_iff_prefix.mp hprefix) (List.prefix_append name.toList cs)
      with hname | ⟨q, rfl⟩
    · exact hfree p hp hname
    · cases q with
      | nil => exact hfree _ hp ((List.append_nil _).symm ▸ List.prefix_rfl)
      | cons d q =>
        obtain ⟨rest, hrest⟩ := (List.prefix_append_right_inj _).mp (List.isPrefixOf_iff_prefix.mp hprefix)
        have hd : d ∈ (name.toList ++ d :: q).tail := by
          rcases cases_of_isIdentifier h with ⟨c, t, hn, -⟩ | ⟨c, t, hn, -⟩
          · simp [hn]
          · simp [hn]
        rw [← hrest, List.cons_append, hmarks _ hp d hd] at hcs
        cases hcs
  unfold identifier
  rw [hprefixes]
  exact anyIdentifier_append h hcs

theorem digits_append {ds cs : List Char} {empty : Bool} (hds : ∀ c ∈ ds, c.isDigit = true) (hcs : endsLexeme cs = true)
    (hempty : empty = true → ds ≠ []) : digits 10 empty (ds ++ cs) = some cs := by
  induction ds generalizing empty with
  | nil =>
    obtain rfl : empty = false := Bool.eq_false_iff.mpr fun he => hempty he rfl
    cases cs with
    | nil => rfl
    | cons c rest =>
      have hc := (endsLexeme_cons hcs).1
      have hhex : isHexDigit c = false := by
        refine Bool.eq_false_iff.mpr fun hh => ?_
        rw [continuesIdentifier_of_isHexDigit hh] at hc
        cases hc
      have hd : c.isDigit = false := by
        refine Bool.eq_false_iff.mpr fun hd => ?_
        rw [isHexDigit_of_isDigit hd] at hhex
        cases hhex
      have hmark : c ≠ '_' := by
        rintro rfl
        exact absurd hc (by decide)
      simp [digits, hd, hhex, hmark]
  | cons d ds ih =>
    have hd := hds d List.mem_cons_self
    have hv : hexValue d < 10 := hexValue_of_isDigit hd
    rw [List.cons_append, digits, if_pos hd, if_pos hv]
    exact ih (fun c hc => hds c (List.mem_cons_of_mem _ hc)) fun he => by cases he

/-- Nothing goes on with a literal. -/
theorem suffix_of_endsLexeme {cs : List Char} (hcs : endsLexeme cs = true) : suffix cs = cs := by
  cases cs with
  | nil => rfl
  | cons c rest =>
    have hstart : ¬ startsIdentifier c = true := fun hc => by
      have hends := (endsLexeme_cons hcs).1
      rw [continuesIdentifier_of_starts hc] at hends
      cases hends
    rw [suffix, plainIdentifier, if_neg hstart]
    rfl

theorem broken_of_endsLexeme {cs : List Char} (hcs : endsLexeme cs = true) : broken cs = some cs := by
  cases cs with
  | nil => rfl
  | cons c rest => simp [broken, (endsLexeme_cons hcs).1]

/-- Digits are a whole number up to where they end: no base is named behind the first. -/
theorem whole_digits {d : Char} {ds cs : List Char} (hall : ∀ c ∈ d :: ds, c.isDigit = true) (hcs : endsLexeme cs = true) :
    whole (d :: ds ++ cs) = some cs := by
  have hdigits : digits 10 true (d :: ds ++ cs) = some cs := digits_append hall hcs fun _ => List.cons_ne_nil _ _
  have hnext : ∀ {c rest}, ds ++ cs = c :: rest → c.isDigit = true ∨ endsLexeme (c :: rest) = true := by
    intro c rest he
    cases ds with
    | nil => exact Or.inr (he ▸ hcs)
    | cons e more => exact Or.inl ((List.cons.inj he).1 ▸ hall e (List.mem_cons_of_mem _ List.mem_cons_self))
  have hbase : ∀ {c rest}, d :: ds ++ cs = '0' :: c :: rest → c ∉ ['x', 'o', 'b'] := by
    intro c rest he hc
    rcases hnext (List.cons.inj he).2 with hdigit | hends
    · exact absurd hdigit ((List.all_iff_forall_prop.mp (by decide) : ∀ c ∈ ['x', 'o', 'b'], ¬ c.isDigit = true) c hc)
    · exact absurd (endsLexeme_cons hends).1
        ((List.all_iff_forall_prop.mp (by decide) : ∀ c ∈ ['x', 'o', 'b'], ¬ continuesIdentifier c = false) c hc)
  unfold whole
  split
  · rename_i heq
    exact absurd (by decide) (hbase heq)
  · rename_i heq
    exact absurd (by decide) (hbase heq)
  · rename_i heq
    exact absurd (by decide) (hbase heq)
  · exact hdigits

/-- Digits are no fraction: neither a dot nor an exponent stands behind them. -/
theorem fractional_digits {d : Char} {ds cs : List Char} (hall : ∀ c ∈ d :: ds, c.isDigit = true)
    (hcs : endsLexeme cs = true) : fractional (d :: ds ++ cs) = none := by
  have hdrop : (ds ++ cs).dropWhile isDigitOrMark = cs := by
    rw [List.dropWhile_append_of_pos fun c hc => by rw [isDigitOrMark, hall c (List.mem_cons_of_mem _ hc)]; rfl]
    cases cs with
    | nil => rfl
    | cons c rest =>
      have hc := (endsLexeme_cons hcs).1
      refine List.dropWhile_cons_of_neg fun hmark => ?_
      rcases Bool.or_eq_true_iff.mp hmark with hdigit | hm
      · rw [continuesIdentifier_of_isHexDigit (isHexDigit_of_isDigit hdigit)] at hc
        cases hc
      · rw [beq_iff_eq.mp hm] at hc
        exact absurd hc (by decide)
  rw [List.cons_append, fractional, hall d List.mem_cons_self, hdrop]
  cases cs with
  | nil => rfl
  | cons c rest =>
    obtain ⟨hc, -, -, -, hdot⟩ := endsLexeme_cons hcs
    simp only [Bool.not_true, Bool.false_eq_true, if_false]
    split
    · rename_i heq
      exact absurd (List.cons.inj heq).1 hdot
    · rename_i heq
      rw [(List.cons.inj heq).1] at hc
      exact absurd hc (by decide)
    · rename_i heq
      rw [(List.cons.inj heq).1] at hc
      exact absurd hc (by decide)
    · rfl

/-- Followed by the end of a lexeme, a numeral is a literal. -/
theorem literal_numeral {text : String} {cs : List Char} (h : IsNumeral text) (hcs : endsLexeme cs = true) :
    literal (text.toList ++ cs) = some cs := by
  obtain ⟨d, ds, hds⟩ := List.exists_cons_of_ne_nil h.nonempty
  have hall := h.digits
  rw [hds] at hall ⊢
  have hquoted : quotedLiteral (d :: ds ++ cs) = none := by
    refine quotedLiteral_eq_none fun hq => ?_
    exact (List.all_iff_forall_prop.mp (by decide) : ∀ c ∈ quoteStarts, ¬ c.isDigit = true) d hq (hall d List.mem_cons_self)
  unfold literal number
  rw [hquoted, fractional_digits hall hcs, whole_digits hall hcs]
  simp only [Option.map_none, Option.bind_none, Option.none_or, Option.bind_some, suffix_of_endsLexeme hcs,
    broken_of_endsLexeme hcs]

end Lexeme

/-- The text is a number or a string, which ends where the text does. -/
structure IsLiteral (text : String) : Prop where
  opens : ∃ c rest, text.toList = c :: rest ∧ (c.isDigit = true ∨ c = '"')
  reads : ∀ {cs}, endsLexeme cs = true → Lexeme.literal (text.toList ++ cs) = some cs

theorem IsNumeral.isLiteral {text : String} (h : IsNumeral text) : IsLiteral text where
  opens := by
    obtain ⟨d, ds, hds⟩ := List.exists_cons_of_ne_nil h.nonempty
    exact ⟨d, ds, hds, Or.inl (h.digits d (hds ▸ List.mem_cons_self))⟩
  reads := Lexeme.literal_numeral h

end BuilderSynthesis.Syntax
