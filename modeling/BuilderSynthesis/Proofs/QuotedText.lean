/-
  BuilderSynthesis.Proofs.QuotedText — text between double quotes is read back.

  A character is escaped by a letter, by its code point, or not at all (`Escaped`). However it is, the
  lexer goes over the escape and stays within the quotes (`cooked_of_escaped`), and the value of the escape
  is the character (`value_of_escaped`). So a text between double quotes is a literal with the text for
  its value (`isLiteral_quoted`, `literalValue_quoted`).
-/

import BuilderSynthesis.Proofs.Lexemes

namespace BuilderSynthesis

namespace Text

open Syntax.Lexeme

/-! ## Numbers of hexadecimal digits -/

theorem digitChar_of_lt {d : Nat} (h : d < 16) : isHexDigit (Nat.digitChar d) = true ∧ hexValue (Nat.digitChar d) = d := by
  have hall : ∀ d < 16, isHexDigit (Nat.digitChar d) = true ∧ hexValue (Nat.digitChar d) = d := by decide
  exact hall d h

/-- The number that digits go on with. -/
def hexFrom (n : Nat) (digits : List Char) : Nat := digits.foldl (fun n c => 16 * n + hexValue c) n

theorem toDigits_hex (n : Nat) : (∀ c ∈ Nat.toDigits 16 n, isHexDigit c = true) ∧ hexFrom 0 (Nat.toDigits 16 n) = n := by
  induction n using Nat.strongRecOn with
  | ind n ih =>
    by_cases h : n < 16
    · obtain ⟨hdigit, hvalue⟩ := digitChar_of_lt h
      rw [Nat.toDigits_of_lt_base h]
      refine ⟨fun c hc => List.mem_singleton.mp hc ▸ hdigit, ?_⟩
      simp [hexFrom, hvalue]
    · obtain ⟨hdigits, hvalue⟩ := ih (n / 16) (Nat.div_lt_self (by omega) (by decide))
      obtain ⟨hdigit, hlast⟩ := digitChar_of_lt (Nat.mod_lt n (by decide : 0 < 16))
      rw [Nat.toDigits_of_base_le (by decide) (Nat.le_of_not_lt h)]
      refine ⟨fun c hc => ?_, ?_⟩
      · rcases List.mem_append.mp hc with hc | hc
        · exact hdigits c hc
        · exact List.mem_singleton.mp hc ▸ hdigit
      · rw [hexFrom, List.foldl_append]
        rw [hexFrom] at hvalue
        rw [hvalue, List.foldl_cons, List.foldl_nil, hlast]
        exact Nat.div_add_mod n 16

/-- No code point takes more than six digits. -/
theorem length_toDigits_hex (c : Char) : (Nat.toDigits 16 c.toNat).length ≤ 6 := by
  refine (Nat.length_toDigits_le_iff (by decide) (by decide)).mpr ?_
  have hvalid : c.toNat < 0xD800 ∨ 0xDFFF < c.toNat ∧ c.toNat < 0x110000 := c.valid
  omega

theorem hexNumber_eq_hexFrom {digits : List Char} (h : ∀ c ∈ digits, isHexDigit c = true) :
    hexNumber digits = hexFrom 0 digits := by
  have hmarks : digits.filter (· != '_') = digits := by
    refine List.filter_eq_self.mpr fun c hc => bne_iff_ne.mpr ?_
    rintro rfl
    exact absurd (h _ hc) (by decide)
  rw [hexNumber, hmarks, hexFrom]

/-! ## One character -/

/-- The characters that a letter after a backslash stands for. -/
def shortEscapes : List (Char × Char) :=
  [('\x00', '0'), ('\t', 't'), ('\r', 'r'), ('\n', 'n'), ('\\', '\\'), ('"', '"')]

/-- How a character may be written between double quotes. -/
inductive Escaped (c : Char) : List Char → Prop where
  | letter {letter : Char} (short : (c, letter) ∈ shortEscapes) : Escaped c ['\\', letter]
  | itself (apart : c ∉ ['"', '\\', '\r']) : Escaped c [c]
  | code : Escaped c (escapeCode c)

theorem escaped_escapeChar (c : Char) : Escaped c (escapeChar c) := by
  have hshort : ∀ pair ∈ shortEscapes, Escaped pair.1 ['\\', pair.2] := fun pair hp => .letter hp
  unfold escapeChar
  split
  · rename_i h
    exact beq_iff_eq.mp h ▸ hshort ('\x00', '0') (by decide)
  split
  · rename_i h
    exact beq_iff_eq.mp h ▸ hshort ('\t', 't') (by decide)
  split
  · rename_i h
    exact beq_iff_eq.mp h ▸ hshort ('\r', 'r') (by decide)
  rename_i hreturn
  split
  · rename_i h
    exact beq_iff_eq.mp h ▸ hshort ('\n', 'n') (by decide)
  split
  · rename_i h
    rcases Bool.or_eq_true_iff.mp h with h | h
    · exact beq_iff_eq.mp h ▸ hshort ('\\', '\\') (by decide)
    · exact beq_iff_eq.mp h ▸ hshort ('"', '"') (by decide)
  rename_i hmarks
  split
  · rw [beq_iff_eq] at hreturn
    rw [Bool.or_eq_true, not_or, beq_iff_eq, beq_iff_eq] at hmarks
    exact .itself (by simp [hmarks, hreturn])
  · exact .code

variable {c : Char} {cs digits rest : List Char}

/-! ## Within a literal -/

theorem cooked_digits {k n : Nat} (h : ∀ c ∈ digits, isHexDigit c = true) (hk : k + digits.length ≤ 6) :
    Quote.text.cooked (.code k n) (digits ++ rest) = Quote.text.cooked (.code (k + digits.length) (hexFrom n digits)) rest := by
  induction digits generalizing k n with
  | nil => rfl
  | cons d ds ih =>
    obtain ⟨hd, hds⟩ := List.forall_mem_cons.mp h
    rw [List.length_cons] at hk ⊢
    have hstep : Quote.text.step (.code k n) d = some (.code (k + 1) (16 * n + hexValue d)) := by
      have hroom : (k == 6) = false := beq_eq_false_iff_ne.mpr (by omega)
      rw [Quote.step, Quote.codeStep, if_pos hd, hroom]
      rfl
    rw [List.cons_append, Quote.cooked, hstep]
    simp only
    rw [ih hds (by omega), Nat.add_right_comm, Nat.add_assoc]
    rfl

/-- The lexer goes over an escape and stays between the quotes. -/
theorem cooked_of_escaped (h : Escaped c cs) : Quote.text.cooked .body (cs ++ rest) = Quote.text.cooked .body rest := by
  cases h with
  | @letter letter short =>
    have hletters : ∀ pair ∈ shortEscapes, Quote.text.step .backslash pair.2 = some .body := by decide
    have hstep : Quote.text.step .backslash letter = some .body := hletters _ short
    show Quote.text.cooked .backslash (letter :: rest) = _
    rw [Quote.cooked, hstep]
  | itself apart =>
    have hstep : Quote.text.step .body c = some .body := by
      simp only [List.mem_cons, List.not_mem_nil, or_false, not_or] at apart
      obtain ⟨hquote, hslash, hreturn⟩ := apart
      simp [Quote.step, Quote.bodyStep, Quote.admits, hquote, hslash, hreturn]
    rw [List.singleton_append, Quote.cooked, hstep]
  | code =>
    obtain ⟨hdigits, hvalue⟩ := toDigits_hex c.toNat
    have hlength := length_toDigits_hex c
    have hpos : (Nat.toDigits 16 c.toNat).length ≠ 0 := Nat.ne_of_gt Nat.length_toDigits_pos
    have hstep : Quote.text.step (.code (Nat.toDigits 16 c.toNat).length c.toNat) '\x7d' = some .body := by
      have hvalid : c.toNat.isValidChar := c.valid
      simp [Quote.step, Quote.codeStep, Quote.admits, isHexDigit, hpos, hvalid]
    show Quote.text.cooked (.code 0 0) (Nat.toDigits 16 c.toNat ++ ['\x7d'] ++ rest) = _
    rw [List.append_assoc, cooked_digits hdigits (by omega), hvalue, Nat.zero_add, List.singleton_append, Quote.cooked, hstep]

/-! ## Its value -/

theorem value_digits {read : List Char} (h : ∀ c ∈ digits, isHexDigit c = true) :
    (Reading.code read).value (digits ++ rest) = (Reading.code (read ++ digits)).value rest := by
  induction digits generalizing read with
  | nil => rw [List.nil_append, List.append_nil]
  | cons d ds ih =>
    obtain ⟨hd, hds⟩ := List.forall_mem_cons.mp h
    have hstep : (Reading.code read).step d = (.code (read ++ [d]), []) := by
      have hopen : (d == '\x7b') = false := beq_eq_false_iff_ne.mpr fun he => absurd (he ▸ hd) (by decide)
      have hclose : (d == '\x7d') = false := beq_eq_false_iff_ne.mpr fun he => absurd (he ▸ hd) (by decide)
      rw [Reading.step, hopen, hclose]
      rfl
    rw [List.cons_append, Reading.value, hstep, ih hds, List.nil_append, List.append_assoc, List.singleton_append]

/-- The value of an escape is the character. -/
theorem value_of_escaped (h : Escaped c cs) : Reading.plain.value (cs ++ rest) = c :: Reading.plain.value rest := by
  cases h with
  | @letter letter short =>
    have hstep : Reading.escape.step letter = (.plain, [c]) := by
      simp only [shortEscapes, List.mem_cons, Prod.mk.injEq, List.not_mem_nil, or_false] at short
      rcases short with ⟨rfl, rfl⟩ | ⟨rfl, rfl⟩ | ⟨rfl, rfl⟩ | ⟨rfl, rfl⟩ | ⟨rfl, rfl⟩ | ⟨rfl, rfl⟩ <;> rfl
    show Reading.escape.value (letter :: rest) = _
    rw [Reading.value, hstep]
    rfl
  | itself apart =>
    have hstep : Reading.plain.step c = (.plain, [c]) := by
      simp only [List.mem_cons, List.not_mem_nil, or_false, not_or] at apart
      simp [Reading.step, Reading.plainStep, apart]
    rw [List.singleton_append, Reading.value, hstep]
    rfl
  | code =>
    obtain ⟨hdigits, hvalue⟩ := toDigits_hex c.toNat
    show (Reading.code []).value (Nat.toDigits 16 c.toNat ++ ['\x7d'] ++ rest) = _
    rw [List.append_assoc, value_digits hdigits, List.nil_append]
    show Char.ofNat (hexNumber (Nat.toDigits 16 c.toNat)) :: Reading.plain.value rest = _
    rw [hexNumber_eq_hexFrom hdigits, hvalue, Char.ofNat_toNat]

/-! ## A whole text -/

theorem cooked_escape (cs rest : List Char) : Quote.text.cooked .body (escape cs ++ '"' :: rest) = some rest := by
  induction cs with
  | nil => rfl
  | cons c cs ih => rw [escape, List.append_assoc, cooked_of_escaped (escaped_escapeChar c), ih]

theorem decode_escape (cs : List Char) : decode (escape cs) = cs := by
  unfold decode
  induction cs with
  | nil => rfl
  | cons c cs ih => rw [escape, value_of_escaped (escaped_escapeChar c), ih]

/-- A text between double quotes has the text for its value. -/
theorem literalValue_quoted (text : String) : literalValue (quoted text) = text := by
  unfold literalValue quoted
  rw [String.toList_ofList]
  simp [decode_escape]

/-- A text between double quotes is a literal. -/
theorem isLiteral_quoted (text : String) : Syntax.IsLiteral (quoted text) where
  opens := ⟨'"', _, String.toList_ofList, Or.inr rfl⟩
  reads := by
    intro cs hcs
    have hquoted : quotedLiteral ((quoted text).toList ++ cs) = some cs := by
      rw [quoted, String.toList_ofList, List.cons_append, List.append_assoc]
      exact cooked_escape text.toList cs
    rw [Syntax.Lexeme.literal, hquoted, Option.map_some, suffix_of_endsLexeme hcs]
    rfl

end Text

end BuilderSynthesis
