/-
  BuilderSynthesis.Proofs.PlannedCalls — which constructor a plan calls, and with which arguments.

  The constructor is the first one whose parameters have the names of the fields, each as often as the fields have
  it. Comparing the sorted names says the same (`accepts_iff_sorted`). It is called with its parameters in their
  order, which are the planned fields in some order; so with distinct names each field is passed once
  (`planned_call_is_well_scoped`), and so it is in the code of the builder, where a field is a slot.

  The order of the fields decides nothing but the order of the planned fields (`plan_of_perm`).
-/

import Mathlib.Data.List.Forall2
import Mathlib.Data.List.Sort
import Mathlib.Data.Multiset.Basic
import Mathlib.Data.String.Basic
import BuilderSynthesis.Builder.Code
import BuilderSynthesis.Proofs.Planning

namespace BuilderSynthesis

/-! ## Choosing -/

/-- Names in their lexicographic order. -/
def sortedNames (names : List String) : List String := names.mergeSort (· ≤ ·)

/-- Names are the same in some order exactly if they are the same once sorted. -/
theorem sortedNames_eq_iff {names others : List String} : sortedNames names = sortedNames others ↔ names.Perm others := by
  constructor
  · intro h
    have hnames : (sortedNames names).Perm names := List.mergeSort_perm names _
    have hothers : (sortedNames others).Perm others := List.mergeSort_perm others _
    rw [h] at hnames
    exact hnames.symm.trans hothers
  · intro h
    have hperm : (sortedNames names).Perm (sortedNames others) :=
      ((List.mergeSort_perm names _).trans h).trans (List.mergeSort_perm others _).symm
    exact hperm.eq_of_sortedLE List.sortedLE_mergeSort List.sortedLE_mergeSort

theorem Constructor.accepts_iff_sorted {c : Constructor} {names : List String} :
    c.accepts names = true ↔ sortedNames c.parameterNames = sortedNames names := by
  rw [accepts, List.isPerm_iff, sortedNames_eq_iff]

namespace Request

variable {r : Request} {c : Constructor} {plan : BuilderPlan} {problems : List Diagnostic}

/-- The first constructor of a request whose parameters have the names of the fields. -/
def FirstAccepting (r : Request) (c : Constructor) : Prop :=
  ∃ before after, r.constructors = before ++ c :: after ∧ (c.parameterNames : Multiset String) = r.names ∧
    ∀ other ∈ before, (other.parameterNames : Multiset String) ≠ r.names

theorem accepting?_eq_some_iff : Constructor.accepting? r.constructors r.names = some c ↔ r.FirstAccepting c := by
  have haccepts (d : Constructor) : d.accepts r.names = true ↔ (d.parameterNames : Multiset String) = r.names := by
    rw [Constructor.accepts, List.isPerm_iff, Multiset.coe_eq_coe]
  simp only [Constructor.accepting?, List.find?_eq_some_iff_append, FirstAccepting, haccepts, Bool.not_eq_true',
    ← Bool.not_eq_true]
  constructor
  · rintro ⟨hc, before, after, hsplit, hbefore⟩
    exact ⟨before, after, hsplit, hc, hbefore⟩
  · rintro ⟨before, after, hsplit, hc, hbefore⟩
    exact ⟨hc, before, after, hsplit, hbefore⟩

theorem accepting?_eq_sorted :
    Constructor.accepting? r.constructors r.names =
      r.constructors.find? fun c => sortedNames c.parameterNames == sortedNames r.names := by
  refine congrArg (List.find? · r.constructors) (funext fun c => ?_)
  rw [Bool.eq_iff_iff, Constructor.accepts_iff_sorted, beq_iff_eq]

/-! ## The call -/

theorem function_of_call {function : String} {arguments : List String} (h : construction c = .call function arguments) :
    c.kind = .function function ∧ arguments = c.parameterNames := by
  unfold construction at h
  split at h
  · rename_i name hname
    cases h
    exact ⟨hname, rfl⟩
  · cases h

/-! ## The order of the fields -/

/-- With its fields in another order, a request has the same constructor. -/
theorem constructor_of_perm {fields : List Parameter} (hperm : fields.Perm r.fields) (h : r.constructor = .ok c) :
    ({ r with fields } : Request).constructor = .ok c := by
  obtain ⟨hunit, hfields, haccepts⟩ := constructor_eq_ok h
  have hchecked : fields.findSome? r.fieldProblem? = none := by
    rw [List.findSome?_eq_none_iff] at hfields ⊢
    intro f hf
    exact hfields f (hperm.mem_iff.mp hf)
  have hnames : ({ r with fields } : Request).names.Perm r.names := hperm.map _
  have haccepted : Constructor.accepting? r.constructors ({ r with fields } : Request).names = some c := by
    rw [← haccepts]
    refine congrArg (List.find? · r.constructors) (funext fun d => ?_)
    rw [Bool.eq_iff_iff, Constructor.accepts, Constructor.accepts, List.isPerm_iff, List.isPerm_iff]
    exact ⟨fun hd => hd.trans hnames, fun hd => hd.trans hnames.symm⟩
  exact constructor_of_checks hunit hchecked haccepted

/-- With its fields in another order, a request has the same plan with the planned fields in that order. -/
theorem plan_of_perm {fields : List Parameter} (hperm : fields.Perm r.fields) (h : r.plan = .ok (plan, problems)) :
    ∃ other reported, ({ r with fields } : Request).plan = .ok (other, reported) ∧
      other.construction = plan.construction ∧ other.fields.Perm plan.fields ∧
      ∀ i j : Nat, fields[i]? = r.fields[j]? → other.fields[i]? = plan.fields[j]? := by
  obtain ⟨c, hc, hfields, hconstruction⟩ := fields_of_plan h
  have hchosen := constructor_of_perm hperm hc
  obtain ⟨other, reported, hother⟩ := exists_plan hchosen
  obtain ⟨d, hd, hothers, hcalled⟩ := fields_of_plan hother
  obtain rfl : c = d := Except.ok.inj (hchosen.symm.trans hd)
  have hplanned : other.fields = fields.map fun p => (r.field c p).1 := hothers
  refine ⟨other, reported, hother, hcalled.trans hconstruction.symm, ?_, fun i j hij => ?_⟩
  · rw [hplanned, hfields]
    exact hperm.map _
  · rw [hplanned, hfields, List.getElem?_map, List.getElem?_map, hij]

end Request

/-! ## The code of the call -/

theorem forall₂_of_mapM {ε α β : Type} {f : α → Except ε β} {as : List α} {bs : List β} (h : as.mapM f = .ok bs) :
    List.Forall₂ (fun a b => f a = .ok b) as bs := by
  induction as generalizing bs with
  | nil =>
    cases h
    exact .nil
  | cons a rest ih =>
    rw [List.mapM_cons] at h
    obtain ⟨b, hb, h⟩ := exists_of_bind h
    obtain ⟨others, hothers, h⟩ := exists_of_bind h
    cases h
    exact .cons hb (ih hothers)

namespace Pieces

open Syntax

theorem readPart_eq_ok {α : Type} {part text : String} {read : String → Except Problem α} {a : α} :
    readPart part read text = .ok a ↔ read text = .ok a := by
  unfold readPart
  cases read text <;> simp

/-- A slot has the name of its field, as code. -/
theorem name_of_slot {f : PlannedField} {s : Slot} (h : slot f = .ok s) : readIdentifier f.name = .ok s.name := by
  obtain ⟨name, hname, h⟩ := exists_of_bind h
  obtain ⟨value, -, h⟩ := exists_of_bind h
  obtain ⟨held, -, h⟩ := exists_of_bind h
  obtain ⟨default, -, h⟩ := exists_of_bind h
  cases h
  exact readPart_eq_ok.mp hname

/-- The slots are made from the fields, one by one. -/
theorem made_of_ofPlan {plan : BuilderPlan} {p : Pieces} (h : ofPlan plan = .ok p) :
    List.Forall₂ (fun f s => slot f = .ok s) plan.fields p.slots := by
  obtain ⟨generics, -, h⟩ := exists_of_bind h
  obtain ⟨clause, -, h⟩ := exists_of_bind h
  obtain ⟨slots, hslots, h⟩ := exists_of_bind h
  obtain ⟨unit, -, h⟩ := exists_of_bind h
  obtain ⟨v, -, h⟩ := exists_of_bind h
  obtain ⟨target, -, h⟩ := exists_of_bind h
  cases h
  exact forall₂_of_mapM hslots

theorem slots_of_ofPlan {plan : BuilderPlan} {p : Pieces} (h : ofPlan plan = .ok p) :
    List.Forall₂ (fun name word => readIdentifier name = .ok word) plan.fieldNames (p.slots.map Slot.name) := by
  rw [BuilderPlan.fieldNames, List.forall₂_map_left_iff, List.forall₂_map_right_iff]
  exact (made_of_ofPlan h).imp fun f s => name_of_slot

/-- Words that are read from names in some order are the words of the names in that order. -/
theorem perm_of_read {names others words slots : List String} (hperm : names.Perm others)
    (hwords : List.Forall₂ (fun name word => readIdentifier name = .ok word) names words)
    (hslots : List.Forall₂ (fun name word => readIdentifier name = .ok word) others slots) : words.Perm slots := by
  refine List.rel_perm_imp ?_ hwords hslots hperm
  intro name word other hword hother
  exact Except.ok.inj (hword.symm.trans hother)

/-- The code calls a function of the struct with the names of all slots, each as often as there is a slot of it. -/
def CallsWithSlots (p : Pieces) (code : Fragment.Code) : Prop :=
  ∃ (name : String) (words : List String), words.Perm (p.slots.map Slot.name) ∧
    code = p.target ++ Token.symbol "::" ++ Fragment.words [name] ++
      Fragment.parens (Fragment.separated (words.map fun word => Fragment.words [word]))

theorem callsWithSlots_of_constructed {plan : BuilderPlan} {p : Pieces} {function : String} {arguments : List String}
    {code : Fragment.Code} (hp : ofPlan plan = .ok p) (hperm : arguments.Perm plan.fieldNames)
    (h : p.constructed (.call function arguments) = .ok code) : p.CallsWithSlots code := by
  obtain ⟨name, -, h⟩ := exists_of_bind h
  obtain ⟨words, hwords, h⟩ := exists_of_bind h
  cases h
  refine ⟨name, words, ?_, rfl⟩
  exact perm_of_read hperm ((forall₂_of_mapM hwords).imp fun _ _ => readPart_eq_ok.mp) (slots_of_ofPlan hp)

end Pieces

namespace Request

variable {r : Request} {plan : BuilderPlan} {problems : List Diagnostic}

/-- A plan has the fields of its request in their order, and constructs as the first constructor does that takes
exactly these. A function is called with its parameters in their order, which are the planned fields in some order,
and in the code of the builder its arguments are the slots. With its fields in another order, the request has the
same plan with the planned fields in that order. -/
theorem planned_call_is_well_scoped (h : r.plan = .ok (plan, problems)) :
    plan.fieldNames = r.names ∧
    (∃ c, r.FirstAccepting c ∧ plan.construction = construction c ∧
      (r.constructors.find? fun d => sortedNames d.parameterNames == sortedNames r.names) = some c ∧
      ∀ function arguments, plan.construction = .call function arguments →
        c.kind = .function function ∧ arguments = c.parameterNames ∧ arguments.Perm plan.fieldNames ∧
        (plan.fieldNames.Nodup → ∀ f ∈ plan.fields, arguments.count f.name = 1) ∧
        ∀ p code, Pieces.ofPlan plan = .ok p → p.constructed plan.construction = .ok code → p.CallsWithSlots code) ∧
    ∀ fields : List Parameter, fields.Perm r.fields → ∃ other reported,
      ({ r with fields } : Request).plan = .ok (other, reported) ∧ other.construction = plan.construction ∧
      other.fields.Perm plan.fields ∧ ∀ i j : Nat, fields[i]? = r.fields[j]? → other.fields[i]? = plan.fields[j]? := by
  obtain ⟨c, hc, -, hconstruction⟩ := fields_of_plan h
  have haccepting := (constructor_eq_ok hc).2.2
  have hnames := fieldNames_of_plan h
  refine ⟨hnames, ⟨c, accepting?_eq_some_iff.mp haccepting, hconstruction, ?_, ?_⟩, fun fields hperm => plan_of_perm hperm h⟩
  · rw [← accepting?_eq_sorted, haccepting]
  · intro function arguments hcall
    obtain ⟨hkind, harguments⟩ := function_of_call (hconstruction.symm.trans hcall)
    have hperm : arguments.Perm plan.fieldNames := by
      rw [harguments, hnames]
      exact (mem_of_constructor hc).2
    refine ⟨hkind, harguments, hperm, fun hnodup f hf => ?_, fun p code hp hcode => ?_⟩
    · rw [hperm.count_eq]
      exact List.count_eq_one_of_mem hnodup (List.mem_map_of_mem hf)
    · rw [hcall] at hcode
      exact Pieces.callsWithSlots_of_constructed hp hperm hcode

/-! ### A range -/

def bound (name : String) (line : Nat) : Parameter := ⟨name, .primitive "u32", .none, ⟨"lib.rs", line, 5⟩⟩

/-- A function of a range. -/
def rangeFunction (name : String) (parameters : List Parameter) : Constructor :=
  ⟨.function name, parameters, .everywhere, .crateRoot 0, ⟨"lib.rs", 6, 5⟩⟩

/-- A struct of two bounds, with a function for a third value before the one that takes the bounds the other way
round. -/
def rangeRequest : Request where
  target := ⟨"Range", "Range", none, none⟩
  suffix := defaultSuffix
  visibility := .everywhere
  fields := [bound "low" 2, bound "high" 3]
  constructors := [rangeFunction "stepped" [bound "low" 6, bound "high" 6, bound "step" 6],
    rangeFunction "new" [bound "high" 9, bound "low" 9], rangeFunction "swapped" [bound "low" 12, bound "high" 12]]
  accessors := []
  entryPoint := true
  module := .crateRoot 0
  location := ⟨"lib.rs", 1, 1⟩

/-- The second function is called, whichever way round the fields are asked for. -/
theorem planned_call_is_well_scoped_of_a_range :
    ∃ plan problems other reported, rangeRequest.plan = .ok (plan, problems) ∧
      plan.construction = .call "new" ["high", "low"] ∧ ["high", "low"].Perm plan.fieldNames ∧
      ({ rangeRequest with fields := rangeRequest.fields.reverse } : Request).plan = .ok (other, reported) ∧
      other.construction = plan.construction ∧ other.fields.Perm plan.fields := by
  have hchosen : rangeRequest.constructor = .ok (rangeFunction "new" [bound "high" 9, bound "low" 9]) := by rfl
  obtain ⟨plan, problems, hp⟩ := exists_plan hchosen
  obtain ⟨c, hc, -, hconstruction⟩ := fields_of_plan hp
  obtain rfl := Except.ok.inj (hc.symm.trans hchosen)
  obtain ⟨-, ⟨d, -, -, -, hcalls⟩, hperms⟩ := planned_call_is_well_scoped hp
  obtain ⟨-, -, hperm, -⟩ := hcalls "new" ["high", "low"] hconstruction
  obtain ⟨other, reported, hother, hsame, hfields, -⟩ := hperms _ (List.reverse_perm _)
  exact ⟨plan, problems, other, reported, hp, hconstruction, hperm, hother, hsame, hfields⟩

end Request

end BuilderSynthesis
