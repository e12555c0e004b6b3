/-
  BuilderSynthesis.Proofs.PrintedTypes — a plain type is read back from its printed text.

  Every token of a plain type that has been read can be printed and read again (`TypeExpr.printable`):
  its names are identifiers, its numbers numerals, and its joint marks belong to operators. So the text
  of the type is read as the type (`readType_printed`).
-/

import BuilderSynthesis.Proofs.TypeReading

namespace BuilderSynthesis.Syntax

/-! ## Parts of a type -/

theorem printable_marks {cs : List Char} (h : ∀ c ∈ cs, isPlainMark c = true ∧ c ≠ '\'') :
    Printable (Token.marks cs) := by
  induction cs with
  | nil => exact .nil
  | cons c rest ih =>
    obtain ⟨hc, hne⟩ := h c List.mem_cons_self
    have hrest := ih fun d hd => h d (List.mem_cons_of_mem _ hd)
    cases rest with
    | nil => exact .mark hc hne .nil
    | cons d more =>
      obtain ⟨hd, -⟩ := h d (List.mem_cons_of_mem _ List.mem_cons_self)
      cases more with
      | nil => exact .joint hc hne hd hrest
      | cons e others => exact .joint hc hne hd hrest

theorem printable_symbol (operator : String)
    (h : (operator.toList.all fun c => isPlainMark c && c != '\'') = true) : Printable (Token.symbol operator) :=
  printable_marks fun c hc => by simpa using List.all_eq_true.mp h c hc

theorem printable_lifetime {name : String} (h : IsLifetime name) : Printable (Token.lifetime name) := by
  obtain ⟨letters, rfl, hl⟩ := h
  rw [Parser.lifetime_tokens]
  exact .lifetime hl .nil

theorem printable_joinTokens {separator : List Token} {trailing : Bool} {parts : List (List Token)}
    (hs : Printable separator) (h : ∀ part ∈ parts, Printable part) : Printable (joinTokens separator trailing parts) := by
  induction parts with
  | nil => exact .nil
  | cons part rest ih =>
    have hpart := h part List.mem_cons_self
    cases rest with
    | nil =>
      cases trailing with
      | true => exact hpart.append hs
      | false => exact hpart.append .nil
    | cons next more =>
      exact (hpart.append hs).append (ih fun p hp => h p (List.mem_cons_of_mem _ hp))

theorem printable_numeral {ts : List Token} (h : isNumeral ts = true) : Printable ts := by
  unfold isNumeral at h
  split at h
  · rename_i text
    simp only [Bool.and_eq_true, Bool.not_eq_true', List.all_eq_true] at h
    exact .literal (IsNumeral.isLiteral ⟨List.isEmpty_eq_false_iff.mp h.1, h.2⟩) .nil
  · cases h

theorem printable_qualified {subject : TypeExpr} {asTrait : Option PathExpr} {rest : List Segment}
    (hsubject : Printable subject.tokens) (htrait : ∀ path ∈ asTrait, Printable path.tokens)
    (hrest : ∀ part ∈ Segment.tokensOfAll rest, Printable part) :
    Printable (TypeExpr.qualified subject asTrait rest).tokens := by
  have has : Printable ((asTrait.map fun path => Token.word "as" :: path.tokens).getD []) := by
    cases asTrait with
    | none => exact .nil
    | some path => exact .word (by decide) (htrait path rfl)
  have hcolons : Printable (Token.symbol "::") := printable_symbol "::" (by decide)
  rw [TypeExpr.tokens_qualified]
  exact (((((printable_symbol "<" (by decide)).append hsubject).append has).append
    (printable_symbol ">" (by decide))).append hcolons).append (printable_joinTokens hcolons hrest)

/-! ## Plain types -/

mutual

theorem TypeExpr.printable : ∀ {t : TypeExpr}, t.isPlain = true → t.Proper → Printable t.tokens
  | .array element length, hplain, hproper => by
    simp only [TypeExpr.isPlain, Bool.and_eq_true] at hplain
    have helement : Printable element.tokens := TypeExpr.printable hplain.1 hproper
    rw [TypeExpr.tokens]
    exact .group ((helement.append (printable_symbol ";" (by decide))).append (printable_numeral hplain.2)) .nil
  | .slice element, hplain, hproper => by
    rw [TypeExpr.tokens]
    have helement : element.isPlain = true := hplain
    exact .group (TypeExpr.printable helement hproper) .nil
  | .tuple elements trailing, hplain, hproper => by
    rw [TypeExpr.tokens]
    exact .group (printable_joinTokens (printable_symbol "," (by decide)) (TypeExpr.allPrintable hplain hproper.2.2)) .nil
  | .paren inner, hplain, hproper => by
    rw [TypeExpr.tokens]
    have hinner : inner.isPlain = true := hplain
    exact .group (TypeExpr.printable hinner hproper) .nil
  | .pointer mutable target, hplain, hproper => by
    rw [TypeExpr.tokens]
    have htarget : target.isPlain = true := hplain
    have hword : IsIdentifier (if mutable then "mut" else "const") := by cases mutable <;> decide
    exact (printable_symbol "*" (by decide)).append (.word hword (TypeExpr.printable htarget hproper))
  | .reference lifetime mutable referent, hplain, hproper => by
    rw [TypeExpr.tokens]
    have hreferent : referent.isPlain = true := hplain
    have hlifetime : Printable ((lifetime.map Token.lifetime).getD []) := by
      cases lifetime with
      | none => exact .nil
      | some name => exact printable_lifetime (hproper.1 name rfl)
    have hmut : Printable (if mutable then [Token.word "mut"] else []) := by
      cases mutable with
      | true => exact .word (by decide) .nil
      | false => exact .nil
    exact (((printable_symbol "&" (by decide)).append hlifetime).append hmut).append (TypeExpr.printable hreferent hproper.2)
  | .never, _, _ => by
    rw [TypeExpr.tokens]
    exact printable_symbol "!" (by decide)
  | .inferred, _, _ => by
    rw [TypeExpr.tokens]
    exact .word (by decide) .nil
  | .path path, hplain, hproper => by
    rw [TypeExpr.tokens]
    exact PathExpr.printable hplain hproper
  | .qualified subject none rest, hplain, hproper => by
    rw [TypeExpr.isPlain_qualified] at hplain
    simp only [Option.all_none, Bool.and_true, Bool.and_eq_true] at hplain
    obtain ⟨hsubject, -, -, hrest⟩ := TypeExpr.proper_qualified.mp hproper
    exact printable_qualified (TypeExpr.printable hplain.1 hsubject) nofun (Segment.allPrintable hplain.2 hrest)
  | .qualified subject (some path) rest, hplain, hproper => by
    rw [TypeExpr.isPlain_qualified] at hplain
    simp only [Option.all_some, Bool.and_eq_true] at hplain
    obtain ⟨hsubject, htrait, -, hrest⟩ := TypeExpr.proper_qualified.mp hproper
    refine printable_qualified (TypeExpr.printable hplain.1.1 hsubject) (fun found hf => ?_) (Segment.allPrintable hplain.2 hrest)
    rw [← Option.some.inj hf]
    exact PathExpr.printable hplain.1.2 (htrait path rfl)

theorem TypeExpr.allPrintable : ∀ {ts : List TypeExpr}, TypeExpr.allPlain ts = true → TypeExpr.AllProper ts →
    ∀ part ∈ TypeExpr.tokensOfAll ts, Printable part
  | [], _, _, _, hp => by cases hp
  | t :: rest, hplain, hproper, part, hp => by
    simp only [TypeExpr.allPlain, Bool.and_eq_true] at hplain
    rcases List.mem_cons.mp hp with rfl | hp
    · exact TypeExpr.printable hplain.1 hproper.1
    · exact TypeExpr.allPrintable hplain.2 hproper.2 part hp

theorem PathExpr.printable : ∀ {path : PathExpr}, path.isOfPlain = true → path.Proper → Printable path.tokens
  | .mk leading segments, hplain, hproper => by
    have hleading : Printable (if leading then Token.symbol "::" else []) := by
      cases leading with
      | true => exact printable_symbol "::" (by decide)
      | false => exact .nil
    rw [PathExpr.tokens]
    exact hleading.append (printable_joinTokens (printable_symbol "::" (by decide)) (Segment.allPrintable hplain hproper.2))

theorem Segment.allPrintable : ∀ {ss : List Segment}, Segment.allOfPlain ss = true → Segment.AllProper ss →
    ∀ part ∈ Segment.tokensOfAll ss, Printable part
  | [], _, _, _, hp => by cases hp
  | .mk name arguments :: rest, hplain, hproper, part, hp => by
    simp only [Segment.allOfPlain, Bool.and_eq_true] at hplain
    rcases List.mem_cons.mp hp with rfl | hp
    · exact .word hproper.1 (Arguments.printable hplain.1.2 hproper.2.2.2.1)
    · exact Segment.allPrintable hplain.2 hproper.2.2.2.2 part hp

theorem Arguments.printable : ∀ {arguments : Arguments}, arguments.areOfPlain = true → arguments.Proper →
    Printable arguments.tokens
  | .none, _, _ => .nil
  | .angled turbofish arguments trailing, hplain, hproper => by
    have hturbofish : Printable (if turbofish then Token.symbol "::" else []) := by
      cases turbofish with
      | true => exact printable_symbol "::" (by decide)
      | false => exact .nil
    have hall : ∀ part ∈ arguments.map Argument.tokens, Printable part := by
      intro part hp
      obtain ⟨a, ha, rfl⟩ := List.mem_map.mp hp
      exact Argument.allPrintable hplain hproper.2 a ha
    rw [angled_tokens _ _ hplain]
    exact hturbofish.append ((printable_symbol "<" (by decide)).append
      ((printable_joinTokens (printable_symbol "," (by decide)) hall).append (printable_symbol ">" (by decide))))

theorem Argument.allPrintable : ∀ {begun : Bool} {as : List Argument}, Argument.allPlain begun as = true →
    Argument.AllProper as → ∀ a ∈ as, Printable a.tokens
  | _, [], _, _, _, ha => by cases ha
  | begun, .lifetime name :: rest, hplain, hproper, a, ha => by
    simp only [Argument.allPlain, Bool.and_eq_true] at hplain
    rcases List.mem_cons.mp ha with rfl | ha
    · exact printable_lifetime hproper.1
    · exact Argument.allPrintable hplain.2 hproper.2 a ha
  | begun, .type type :: rest, hplain, hproper, a, ha => by
    simp only [Argument.allPlain, Bool.and_eq_true] at hplain
    rcases List.mem_cons.mp ha with rfl | ha
    · exact TypeExpr.printable hplain.1 hproper.1
    · exact Argument.allPrintable hplain.2 hproper.2 a ha
  | begun, .constant value :: rest, hplain, hproper, a, ha => by
    simp only [Argument.allPlain, Bool.and_eq_true] at hplain
    rcases List.mem_cons.mp ha with rfl | ha
    · exact printable_numeral hplain.1
    · exact Argument.allPrintable hplain.2 hproper a ha
  | begun, .binding name generics value :: rest, hplain, hproper, a, ha => by
    simp only [Argument.allPlain, Bool.and_eq_true] at hplain
    rcases List.mem_cons.mp ha with rfl | ha
    · exact .word hproper.1.1 (((Arguments.printable hplain.1.1.2 hproper.1.2.2.2).append
        (printable_symbol "=" (by decide))).append (TypeExpr.printable hplain.1.2 hproper.2.1))
    · exact Argument.allPrintable hplain.2 hproper.2.2 a ha

end

/-- The printed text of a plain type is read as that type. -/
theorem readType_printed {t : TypeExpr} (hplain : t.isPlain = true) (hproper : t.Proper) :
    readType (printed t.tokens) = .ok t := by
  refine readType_of_spells hplain hproper ?_
  rw [printed, String.toList_ofList]
  exact spells_printAll (TypeExpr.printable hplain hproper)

end BuilderSynthesis.Syntax
