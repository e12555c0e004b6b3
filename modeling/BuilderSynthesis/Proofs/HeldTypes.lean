/-
  BuilderSynthesis.Proofs.HeldTypes — the types that builders hold.

  A builder holds for each field its declared type or the type that the constructor takes
  (`held_of_constructor`), whatever the modifiers ask for. So a builder whose fields are the parameters of its
  constructor, as they stand, holds exactly the types of these parameters: a modifier that would change one is
  reported and dropped (`called_fields_are_typed`).
-/

import Mathlib.Data.List.Forall2
import BuilderSynthesis.Proofs.AcceptedModifiers
import BuilderSynthesis.Proofs.BuilderRuns

namespace BuilderSynthesis

/-- A declared type is optional exactly if its descriptor says so. -/
theorem Descriptor.canonical_nullable (type : TypeRef) : (canonical type).nullable = type.isNullable := by
  unfold TypeRef.isNullable
  cases h : type.optional? with
  | none => rw [canonical_of_not_optional h, structural_nullable, Option.isSome_none]
  | some inner =>
    rw [canonical_of_optional h]
    rcases structural inner with ⟨base, arguments, n, m⟩
    rfl

namespace Request

open Descriptor

variable {r : Request} {c : Constructor} {f p : Parameter}

/-! ## One field -/

/-- The constructor of a request takes every field. -/
theorem exists_parameter (h : r.constructor = .ok c) (hf : f ∈ r.fields) : ∃ p, c.parameter? f.name = some p := by
  have hname : f.name ∈ c.parameterNames := (mem_of_constructor h).2.mem_iff.mpr (List.mem_map_of_mem hf)
  obtain ⟨p, hp, he⟩ := List.mem_map.mp hname
  exact Option.isSome_iff_exists.mp (List.find?_isSome.mpr ⟨p, hp, by simp [he]⟩)

/-- A builder holds for each field the declared type or the one that the constructor takes. -/
theorem held_of_constructor (h : r.constructor = .ok c) (hf : f ∈ r.fields) :
    ∃ p, c.parameter? f.name = some p ∧
      ((r.field c f).1.descriptor = canonical f.type ∨ (r.field c f).1.descriptor = canonical p.type) := by
  obtain ⟨p, hp⟩ := exists_parameter h hf
  have hheld : (r.field c f).1.descriptor = (r.fieldDescriptor c f).1 := rfl
  refine ⟨p, hp, ?_⟩
  rw [hheld]
  rcases r.fieldDescriptor_cases hp with ⟨hkept, hsame⟩ | ⟨hdropped, -⟩
  · rw [hkept]
    exact hsame
  · rw [hdropped]
    exact .inl rfl

/-! ## Parameters as they stand -/

/-- A planned field is made for a parameter of the constructor of a struct, and this is what was reported. -/
structure Serves (target : String) (reported : List Diagnostic) (f : PlannedField) (p : Parameter) : Prop where
  name : f.name = p.name
  descriptor : f.descriptor = canonical p.type
  required : f.required = !p.type.isNullable
  dropped : modified p ≠ canonical p.type → droppedModifiers target p (canonical p.type) ∈ reported

/-- A parameter of a constructor is found by its name, if no other one has it. -/
theorem parameter?_of_mem (hnodup : c.parameterNames.Nodup) (hp : p ∈ c.parameters) : c.parameter? p.name = some p := by
  unfold Constructor.parameter?
  rw [find?_named hnodup (List.Subset.refl _) hp, if_pos hp]

theorem serves_field (r : Request) (hnodup : c.parameterNames.Nodup) (hp : p ∈ c.parameters) :
    Serves r.target.name (r.field c p).2 (r.field c p).1 p := by
  have hheld : (r.field c p).1.descriptor = (r.fieldDescriptor c p).1 := rfl
  have hcases := r.fieldDescriptor_cases (parameter?_of_mem hnodup hp)
  have hdescriptor : (r.field c p).1.descriptor = canonical p.type := by
    rw [hheld]
    rcases hcases with ⟨hkept, hsame⟩ | ⟨hdropped, -⟩
    · rw [hkept]
      exact hsame.elim id id
    · rw [hdropped]
  refine ⟨rfl, hdescriptor, ?_, ?_⟩
  · have hrequired : (r.field c p).1.required = !(r.field c p).1.descriptor.nullable := rfl
    rw [hrequired, hdescriptor, canonical_nullable]
  · intro hchanged
    have hreported : droppedModifiers r.target.name p (canonical p.type) ∈ (r.fieldDescriptor c p).2 := by
      rcases hcases with ⟨-, hsame⟩ | ⟨hdropped, -⟩
      · exact absurd (hsame.elim id id) hchanged
      · rw [hdropped]
        exact List.mem_append_right _ List.mem_cons_self
    exact List.mem_append_left _ (List.mem_append_left _ hreported)

end Request

namespace Directive

variable {d : Directive} {host : Host} {r : Request}

/-- The constructor whose parameters a directive takes for the fields: the one it stands on, or the first that its
module can reach. -/
def called? (d : Directive) (host : Host) : Option Constructor :=
  match d.kind with
  | .constructor typeName function =>
    (host.findType typeName d.module).bind fun t => (host.constructors t).find? (·.isNamed function)
  | .external path _ true _ =>
    (host.findType path d.module).bind fun t => (host.constructors t).find? (·.isAccessibleFrom d.module)
  | _ => none

/-- A directive on a constructor, or one for a struct elsewhere that is to use its constructors. -/
def TakesParameters (d : Directive) : Prop :=
  (∃ typeName function, d.kind = .constructor typeName function) ∨ ∃ path suffix v, d.kind = .external path suffix true v

/-- The constructor that is called is the only one of the request, and its parameters are the fields. -/
theorem called_of_requested (hd : d.TakesParameters) (hr : d.requested host = .ok r) :
    ∃ c, d.called? host = some c ∧ r.constructors = [c] ∧ r.fields = c.parameters := by
  rcases hd with ⟨typeName, function, hk⟩ | ⟨path, suffix, v, hk⟩
  · rw [requested, hk] at hr
    obtain ⟨t, ht, hr⟩ := exists_of_bind hr
    split at hr
    · cases hr
    · rename_i c hc
      cases hr
      refine ⟨c, ?_, rfl, rfl⟩
      rw [called?, hk]
      exact (congrArg (Option.bind · _) (namedStruct_eq_ok ht)).trans hc
  · rw [requested, hk] at hr
    obtain ⟨t, ht, hr⟩ := exists_of_bind hr
    dsimp only at hr
    split at hr
    · cases hr
    · rename_i c others hfilter
      cases hr
      refine ⟨c, ?_, rfl, rfl⟩
      have hfirst : (host.constructors t).find? (·.isAccessibleFrom d.module) = some c := by
        rw [← List.head?_filter]
        exact congrArg List.head? hfilter
      rw [called?, hk]
      exact (congrArg (Option.bind · _) (namedStruct_eq_ok ht)).trans hfirst

end Directive

/-- The plan of an outcome is that of the request its directive makes, and its reports are those of planning. -/
theorem Host.planned_of_mem_route {host : Host} {o : Outcome} {plan : BuilderPlan} (ho : o ∈ host.route)
    (hp : o.result = .ok plan) : ∃ r, o.directive.requested host = .ok r ∧ r.plan = .ok (plan, o.planning) := by
  obtain ⟨before, hbefore, hdirective, hresult, hplanning⟩ := Outcome.exists_of_mem_withClashes ho
  obtain ⟨d, -, rfl⟩ := List.mem_map.mp hbefore
  rw [Outcome.directive_ofDirective] at hdirective
  rw [hresult] at hp
  rw [hdirective, hplanning]
  unfold Outcome.ofDirective at hp ⊢
  split at hp
  · cases hp
  · rename_i made planning hmade
    cases hp
    obtain ⟨r, hr, hplan⟩ := exists_of_bind hmade
    exact ⟨r, hr, hplan⟩

open Request in
/-- The fields of a builder for a constructor are its parameters in their order. If no two of them have one name,
the builder holds for each exactly the type that the constructor takes, requires it exactly if that type is not
optional, and modifiers that would change it are reported. In every plan, a field has its declared type or the one
of the constructor's parameter. -/
theorem called_fields_are_typed (host : Host) :
    (∀ o ∈ host.route, ∀ plan, o.result = .ok plan → o.directive.TakesParameters →
      ∃ c, o.directive.called? host = some c ∧ plan.construction = construction c ∧ plan.fieldNames = c.parameterNames ∧
        (c.parameterNames.Nodup → List.Forall₂ (Serves plan.target.name o.diagnostics) plan.fields c.parameters)) ∧
    ∀ (r : Request) (plan : BuilderPlan) (problems : List Diagnostic), r.plan = .ok (plan, problems) →
      ∃ c, r.constructor = .ok c ∧ List.Forall₂ (fun f p => ∃ taken, c.parameter? p.name = some taken ∧
        (f.descriptor = Descriptor.canonical p.type ∨ f.descriptor = Descriptor.canonical taken.type)) plan.fields r.fields := by
  refine ⟨fun o ho plan hp hd => ?_, fun r plan problems hp => ?_⟩
  · obtain ⟨r, hr, hplan⟩ := Host.planned_of_mem_route ho hp
    obtain ⟨c, hcalled, hconstructors, hfields⟩ := Directive.called_of_requested hd hr
    obtain ⟨d, hchosen, hplanned, hconstruction⟩ := fields_of_plan hplan
    obtain ⟨e, he, hproblems⟩ := planning_eq_ok hplan
    obtain rfl : d = c := by simpa [hconstructors] using (mem_of_constructor hchosen).1
    obtain rfl : d = e := Except.ok.inj (hchosen.symm.trans he)
    rw [hfields] at hplanned hproblems
    refine ⟨d, hcalled, hconstruction, ?_, fun hnodup => ?_⟩
    · rw [fieldNames_of_plan hplan, names, hfields]
      rfl
    · rw [hplanned, List.forall₂_map_left_iff, List.forall₂_same, (plan_eq_ok hplan).2.1]
      intro p hparameter
      have hserves := serves_field r hnodup hparameter
      refine ⟨hserves.name, hserves.descriptor, hserves.required, fun hchanged => ?_⟩
      refine List.mem_append_left _ ?_
      rw [hproblems]
      exact List.mem_flatMap.mpr ⟨p, hparameter, hserves.dropped hchanged⟩
  · obtain ⟨c, hc, hfields, -⟩ := fields_of_plan hp
    refine ⟨c, hc, ?_⟩
    rw [hfields, List.forall₂_map_left_iff, List.forall₂_same]
    exact fun p hparameter => held_of_constructor hc hparameter

/-! ### A queue -/

/-- A list whose elements are to be optional, and an optional text. -/
def queueParameters : List Parameter :=
  [⟨"tags", .path "Vec" [.primitive "u8"], ⟨true, false, none⟩, ⟨"lib.rs", 8, 12⟩⟩,
   ⟨"label", .path "Option" [.path "String" []], .none, ⟨"lib.rs", 8, 30⟩⟩]

def queueConstructor : Constructor := ⟨.function "new", queueParameters, .everywhere, .crateRoot 0, ⟨"lib.rs", 8, 5⟩⟩

def queueDirective : Directive := ⟨.constructor "Queue" "new", .crateRoot 0, ⟨"lib.rs", 7, 5⟩⟩

/-- A struct with a directive on the function that makes it. -/
def queues : Host :=
  .ofEntries [queueDirective]
    [⟨"Queue", ⟨"Queue", .crateRoot 0, .everywhere, none, none, .named, [], ⟨"lib.rs", 1, 1⟩⟩, [queueConstructor], []⟩]

/-- The builder holds the list as it is taken, and the modifier is reported. -/
theorem called_fields_are_typed_of_a_queue :
    ∃ o ∈ queues.route, ∃ plan, o.result = .ok plan ∧ o.directive.TakesParameters ∧
      queueConstructor.parameterNames.Nodup ∧
      List.Forall₂ (Request.Serves plan.target.name o.diagnostics) plan.fields queueConstructor.parameters ∧
      ∃ p ∈ queueConstructor.parameters, Request.modified p ≠ Descriptor.canonical p.type := by
  have hplans : (queues.route.any fun o => o.directive == queueDirective && o.plan?.isSome) = true := by decide +kernel
  obtain ⟨o, ho, h⟩ := List.any_eq_true.mp hplans
  obtain ⟨hdirective, hplan⟩ := Bool.and_eq_true_iff.mp h
  obtain ⟨plan, hplan⟩ := Option.isSome_iff_exists.mp hplan
  rw [beq_iff_eq] at hdirective
  have hp := Outcome.result_of_plan? hplan
  have htakes : o.directive.TakesParameters := .inl ⟨"Queue", "new", by rw [hdirective]; rfl⟩
  obtain ⟨c, hcalled, -, -, hserves⟩ := (called_fields_are_typed queues).1 o ho plan hp htakes
  have hqueue : queueDirective.called? queues = some queueConstructor := by rfl
  obtain rfl : c = queueConstructor := Option.some.inj (hcalled.symm.trans (hdirective ▸ hqueue))
  have hnodup : queueConstructor.parameterNames.Nodup := by decide
  exact ⟨o, ho, plan, hp, htakes, hnodup, hserves hnodup, _, List.mem_cons_self, by decide⟩

end BuilderSynthesis
