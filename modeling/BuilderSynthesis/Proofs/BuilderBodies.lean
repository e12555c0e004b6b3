/-
  BuilderSynthesis.Proofs.BuilderBodies — the bodies of the functions of builders.

  The values that a builder computes with are paths, calls, members and structs that are written out, and
  each is an operand (`IsOperand`). Its functions consist of statements over these, so every deep grammar
  reads their bodies (`IsMethodBody`).
-/

import BuilderSynthesis.Proofs.BuilderTypes
import BuilderSynthesis.Proofs.CopiedSlots

namespace BuilderSynthesis

open Syntax Fragment

/-! ## Values -/

theorem separated_eq_commas (parts : List Code) : separated parts = commas false parts := by
  induction parts with
  | nil => rfl
  | cons part rest ih =>
    cases rest with
    | nil => exact (List.append_nil part).symm
    | cons next others => exact congrArg (part ++ Token.symbol "," ++ ·) ih

theorem isPlainName_of_isFree {name : String} (h : IsFree name) : IsPlainName name := by
  refine ⟨h.1, ?_, ne_of_not_isReserved h.2 (by decide)⟩
  rw [isPathName, takesArguments, h.2]
  rfl

/-- Names that lead to a value. -/
def AreValueNames (names : List String) : Prop := names ≠ [] ∧ names ≠ ["crate"] ∧ ∀ name ∈ names, IsPlainName name

instance (names : List String) : Decidable (AreValueNames names) := inferInstanceAs (Decidable (_ ∧ _ ∧ _))

section

variable {names : List String} {inner : List Token → Prop}

theorem AreValueNames.of_isFree {name : String} (h : IsFree name) : AreValueNames [name] :=
  ⟨List.cons_ne_nil _ _, fun he => ne_of_not_isReserved h.2 (by decide) (List.cons.inj he).1,
    List.forall_mem_singleton.mpr (isPlainName_of_isFree h)⟩

theorem AreValueNames.isBare (h : AreValueNames names) (leading : Bool) : (PathExpr.ofNames leading names).IsBare :=
  ⟨leading, names, h.1, h.2.2, rfl⟩

theorem PathExpr.names_ofNames (leading : Bool) (names : List String) : (PathExpr.ofNames leading names).names = names := by
  show List.map Segment.name (names.map (Segment.mk · .none)) = names
  rw [List.map_map]
  exact List.map_id names

theorem AreValueNames.below (h : AreValueNames names) (leading : Bool) : (PathExpr.ofNames leading names).names ≠ ["crate"] := by
  rw [PathExpr.names_ofNames]
  exact h.2.1

theorem isPlainAtom_globalPath (h : AreValueNames names) : IsPlainAtom inner (globalPath names) :=
  globalPath_eq names h.1 ▸ .path (h.isBare true) (h.below true)

theorem isPlainAtom_word {name : String} (h : AreValueNames [name]) : IsPlainAtom inner (words [name]) :=
  .path (h.isBare false) (h.below false)

theorem isPlainTrailers_call {value : Code} (h : inner value) : IsPlainTrailers inner (parens value) :=
  List.append_nil value ▸ .call (List.forall_mem_singleton.mpr h) (fun _ => rfl) .nil

theorem isPlainTrailers_calls {values : List Code} (h : ∀ value ∈ values, inner value) :
    IsPlainTrailers inner (parens (separated values)) :=
  separated_eq_commas values ▸ .call h (fun _ => rfl) .nil

theorem isPlainTrailers_member {name : String} (h : IsFree name) : IsPlainTrailers inner (Token.symbol "." ++ [Token.word name]) :=
  .field h.2 rfl .nil

theorem isPlainTrailers_method {name : String} (h : IsFree name) {rest : Code} (others : IsPlainTrailers inner rest) :
    IsPlainTrailers inner (Token.symbol "." ++ Token.word name :: (parens [] ++ rest)) :=
  .method h.2 (List.forall_mem_nil _) (fun _ => rfl) others

theorem isOperand_globalPath (h : AreValueNames names) : IsOperand (globalPath names) :=
  List.append_nil (globalPath names) ▸ isOperand_of_atom (isPlainAtom_globalPath h) .nil

theorem isOperand_globalCall (h : AreValueNames names) {value : Code} (hvalue : ReadsAlone value) :
    IsOperand (globalPath names ++ parens value) :=
  isOperand_of_atom (isPlainAtom_globalPath h) (isPlainTrailers_call hvalue)

theorem isOperand_word {name : String} (h : AreValueNames [name]) : IsOperand (words [name]) :=
  List.append_nil (words [name]) ▸ isOperand_of_atom (isPlainAtom_word h) .nil

theorem isOperand_nothing : IsOperand (parens []) :=
  isOperand_of_atom (.tuple (List.forall_mem_nil _) fun _ => rfl) .nil

theorem isOperand_member {owner name : String} (h : AreValueNames [owner]) (hname : IsFree name) : IsOperand (member (words [owner]) name) := by
  rw [member, List.append_assoc]
  exact isOperand_of_atom (isPlainAtom_word h) (isPlainTrailers_member hname)

/-- A function of the own value is called. -/
theorem isOperand_method {owner name : String} (h : AreValueNames [owner]) (hname : IsFree name) {rest : Code}
    (others : IsPlainTrailers ReadsAlone rest) : IsOperand (member (words [owner]) name ++ parens [] ++ rest) := by
  rw [member, List.append_assoc, List.append_assoc, List.append_assoc]
  exact isOperand_of_atom (isPlainAtom_word h) (isPlainTrailers_method hname others)

theorem isOperand_call {path : PathExpr} (bare : path.IsBare) (below : path.names ≠ ["crate"]) {values : List Code}
    (h : ∀ value ∈ values, ReadsAlone value) : IsOperand (path.tokens ++ parens (separated values)) :=
  isOperand_of_atom (.path bare below) (isPlainTrailers_calls h)

/-- Values for the fields of a struct. -/
theorem isOperand_struct {path : PathExpr} (bare : path.IsBare) (below : path.names ≠ ["crate"]) {values : List Code} {trailing : Bool}
    (hvalues : ∀ v ∈ values, IsPlainValue ReadsAlone v) (ended : values = [] → trailing = false) :
    IsOperand (path.tokens ++ braces (commas trailing values)) :=
  List.append_nil (_ ++ _) ▸ isOperand_of_atom (.values bare below hvalues ended) .nil

theorem isOperand_new {owner : String} (h : AreValueNames [owner, "new"]) :
    IsOperand (words [owner] ++ Token.symbol "::" ++ words ["new"] ++ parens []) :=
  isOperand_call (h.isBare false) (h.below false) (List.forall_mem_nil _)

variable {value : Code}

theorem isOperand_present (h : ReadsAlone value) : IsOperand (present value) := isOperand_globalCall (by decide) h

theorem isOperand_converted (h : ReadsAlone value) : IsOperand (converted value) := isOperand_globalCall (by decide) h

theorem isOperand_succeeded (h : ReadsAlone value) : IsOperand (succeeded value) := isOperand_globalCall (by decide) h

theorem isOperand_failed (h : ReadsAlone value) : IsOperand (failed value) := isOperand_globalCall (by decide) h

end

/-! ## Slots -/

instance (name : String) : Decidable (IsFree name) := inferInstanceAs (Decidable (_ ∧ _))

namespace Slot

/-- The slot has a free name, its setter takes a plain type, and its default may stand alone. -/
structure IsPlain (s : Slot) : Prop where
  name : IsFree s.name
  value : ∃ type : TypeExpr, type.isPlain = true ∧ type.Proper ∧ s.value = type.tokens
  default : ∀ value ∈ s.default, ReadsAlone value ∧ Printable value

variable {s : Slot}

theorem IsPlain.initialValue (h : s.IsPlain) : IsOperand s.initialValue := by
  unfold Slot.initialValue
  split
  · rename_i value hvalue
    have hread := (h.default value hvalue).1
    split
    · exact isOperand_present (isOperand_converted hread).readsAlone
    · exact isOperand_present hread
  · exact isOperand_globalPath (by decide)

theorem isOperand_filled {value : Code} (h : IsOperand value) : IsOperand (s.filled value) := by
  unfold filled
  split
  · exact h
  · exact isOperand_present h.readsAlone

/-- The error that the slot is empty is a call with two texts. -/
theorem isPlain_missing (unit : String) (s : Slot) : IsPlainExpression (s.missing unit) := by
  have hnames : AreValueNames ["buildergen", "BuildError", "missing_field"] := by decide
  have htext : ∀ written : String, IsPlainExpression (text written) := fun written => .operand (.literal _) .nil
  have hcall : IsPlainTrailers IsPlainExpression (parens (separated [text unit, text s.planned.name])) :=
    isPlainTrailers_calls (List.forall_mem_cons.mpr ⟨htext unit, List.forall_mem_singleton.mpr (htext s.planned.name)⟩)
  exact .operand (isPlainAtom_globalPath hnames) hcall

end Slot

/-! ## Bodies -/

/-- The body of a function of a builder. -/
structure IsMethodBody (body : Code) : Prop where
  reads : IsBody body
  apart : Read.KeepsApart body

theorem isMethodBody_of_statements {statements : List Code} (h : ∀ s ∈ statements, IsStatement s) {last : Code} (hlast : IsLast last) :
    IsMethodBody (statements.flatten ++ last) where
  reads := isBody_of_statements h hlast
  apart us hu := by
    have hopens : opensNext us = true := by
      cases statements with
      | nil => exact List.append_nil us ▸ hlast.opens hu
      | cons first others =>
        rw [List.flatten_cons, List.append_assoc] at hu
        obtain ⟨vs, ws, rfl, hv, -⟩ := Token.Likeness.of_append hu
        exact (h first List.mem_cons_self).opens hv
    rw [Read.endsInnerAttributes, not_stands_of_opensNext hopens (by decide)]
    rfl

theorem isMethodBody_of_isOperand {value : Code} (h : IsOperand value) : IsMethodBody value :=
  @isMethodBody_of_statements [] nofun value h.isLast

namespace Conversion

/-- Values that may stand alone are given to names. -/
def IsPlain (c : Conversion) : Prop := ∀ entry ∈ c.given, isReserved entry.1 = false ∧ ReadsAlone entry.2

theorem flatMap_entryCode (given : List (String × Code)) : given.flatMap entryCode =
    listed (given.map fun entry => Token.word entry.1 :: (Token.symbol ":" ++ entry.2)) := by
  rw [listed, List.flatMap_map]
  rfl

theorem IsPlain.isOperand {c : Conversion} (h : c.IsPlain) : IsOperand c.code := by
  have hfresh : IsOperand freshCode := isOperand_new (by decide)
  cases c with
  | fresh => exact hfresh
  | written given others =>
    have hself : AreValueNames ["Self"] := by decide
    have hvalues : ∀ v ∈ given.map fun entry => Token.word entry.1 :: (Token.symbol ":" ++ entry.2), IsPlainValue ReadsAlone v :=
      List.forall_mem_map.mpr fun entry he => .set (h entry he).1 (h entry he).2
    rw [code, flatMap_entryCode]
    cases others with
    | true => exact isOperand_update (hself.isBare false) (hself.below false) hvalues hfresh.readsAlone
    | false =>
      rw [if_neg Bool.false_ne_true, List.append_nil]
      cases given with
      | nil => exact isOperand_struct (hself.isBare false) (hself.below false) (List.forall_mem_nil _) fun _ => rfl
      | cons entry rest =>
        rw [listed_eq_commas]
        exact isOperand_struct (hself.isBare false) (hself.below false) hvalues fun h => absurd h (List.cons_ne_nil _ _)

end Conversion

namespace Slot

variable {s : Slot} (unit : String)

theorem IsPlain.setterBody (h : s.IsPlain) :
    IsMethodBody (ofSelf s.name ++ Token.symbol "=" ++ s.filled (words ["value"]) ++ semicolon ++ words ["self"]) := by
  have hassign := isStatement_assign (isOperand_member (by decide : AreValueNames ["self"]) h.name)
    (isOperand_filled (s := s) (isOperand_word (by decide : AreValueNames ["value"])))
  have hbody := isMethodBody_of_statements (List.forall_mem_singleton.mpr hassign) (isOperand_word (by decide : AreValueNames ["self"])).isLast
  rwa [List.flatten_singleton, ← List.append_assoc] at hbody

theorem IsPlain.isStatement_check (h : s.IsPlain) : IsStatement (s.check unit) := by
  have hself : AreValueNames ["self"] := by decide
  have hcondition := readsCondition_of_field (hself.isBare false) h.name.2 (by decide : isReserved "is_none" = false)
  have hfailed : IsOperand (failed (s.missing unit)) := isOperand_failed (isPlain_missing unit s).readsAlone
  have hreturn := (isLast_return hfailed).isBody
  exact isStatement_if hcondition hreturn

theorem IsPlain.isStatement_unpack (h : s.IsPlain) : IsStatement (s.unpack unit) := by
  have hvalue := readsValue_orElse ((AreValueNames.of_isFree h.name).isBare false) (by decide : isReserved "ok_or_else" = false)
    (isPlain_missing unit s)
  have hstatement := isStatement_let (readsPattern_name h.name.2) hvalue
  rw [unpack, member]
  simp only [List.append_assoc]
  exact hstatement

end Slot

namespace Pieces

variable {p : Pieces} {target : TypeName} (h : ∀ s ∈ p.slots, s.IsPlain) (unit : String)

/-- The body of the function that builds the finished value. -/
def finishing (p : Pieces) (unit : String) (constructed : Code) : Code :=
  ofSelf "check_required_fields" ++ parens [] ++ Token.symbol "?" ++ semicolon ++
    words ["let", "Self"] ++
      braces (p.slots.flatMap (fun s => words [s.name] ++ comma) ++ (if p.isGeneric then Token.symbol ".." else [])) ++
      Token.symbol "=" ++ words ["self"] ++ semicolon ++
    p.required.flatMap (·.unpack unit) ++ succeeded constructed

theorem started_code (p : Pieces) : p.started.code =
    words ["Self"] ++ braces (p.slots.flatMap (fun s => s.initialized s.initialValue) ++ p.markerValue) := by
  rw [started, Conversion.code, if_neg Bool.false_ne_true, List.append_nil, List.flatMap_append, List.flatMap_map, markerValue_eq]
  rfl

theorem markerEntry_isPlain : ∀ entry ∈ p.markerEntry, isReserved entry.1 = false ∧ ReadsAlone entry.2 := by
  unfold markerEntry
  split
  · have hphantom : IsOperand phantom := isOperand_globalPath (by decide)
    exact List.forall_mem_singleton.mpr ⟨by decide, hphantom.readsAlone⟩
  · nofun

include h

theorem startBody : IsMethodBody
    (words ["Self"] ++ braces (p.slots.flatMap (fun s => s.initialized s.initialValue) ++ p.markerValue)) := by
  have hplain : p.started.IsPlain := by
    intro entry he
    rcases List.mem_append.mp he with he | he
    · obtain ⟨s, hs, rfl⟩ := List.mem_map.mp he
      exact ⟨(h s hs).name.2, (h s hs).initialValue.readsAlone⟩
    · exact markerEntry_isPlain entry he
  exact started_code p ▸ isMethodBody_of_isOperand hplain.isOperand

theorem checksBody : IsMethodBody (p.required.flatMap (·.check unit) ++ succeeded (parens [])) := by
  have hchecks : ∀ statement ∈ p.required.map (·.check unit), IsStatement statement :=
    List.forall_mem_map.mpr fun s hs => (h s (List.mem_filter.mp hs).1).isStatement_check unit
  rw [List.flatMap_def]
  exact isMethodBody_of_statements hchecks (isOperand_succeeded isOperand_nothing.readsAlone).isLast

/-- All slots are taken over into names. -/
theorem isStatement_letSelf : IsStatement (words ["let", "Self"] ++
    braces (p.slots.flatMap (fun s => words [s.name] ++ comma) ++ (if p.isGeneric then Token.symbol ".." else [])) ++
    Token.symbol "=" ++ words ["self"] ++ semicolon) := by
  have hnames : ∀ name ∈ p.slots.map Slot.name, isReserved name = false := List.forall_mem_map.mpr fun s hs => (h s hs).name.2
  have hstatement := isStatement_let (readsPattern_fields hnames p.isGeneric) (isOperand_word (by decide : AreValueNames ["self"])).readsValue
  rw [List.flatMap_map] at hstatement
  exact hstatement

theorem buildBody {constructed : Code} (hconstructed : IsOperand constructed) :
    IsMethodBody (p.finishing unit constructed) := by
  have hcheck := isStatement_run (isOperand_method (by decide : AreValueNames ["self"])
    (by decide : IsFree "check_required_fields") (.question .nil))
  have hunpack : ∀ statement ∈ p.required.map (·.unpack unit), IsStatement statement :=
    List.forall_mem_map.mpr fun s hs => (h s (List.mem_filter.mp hs).1).isStatement_unpack unit
  have hbody := isMethodBody_of_statements (List.forall_mem_cons.mpr ⟨hcheck, List.forall_mem_cons.mpr ⟨isStatement_letSelf h, hunpack⟩⟩)
    (isOperand_succeeded hconstructed.readsAlone).isLast
  rw [List.flatten_cons, List.flatten_cons, ← List.flatMap_def] at hbody
  simp only [finishing, List.append_assoc] at hbody ⊢
  exact hbody

omit h

end Pieces

end BuilderSynthesis
