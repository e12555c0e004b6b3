/-
  BuilderSynthesis.Proofs.Planning — what every plan of a host has been checked for.

  What a directive asks for is read off its kind once (`Directive.asks_of_requested`), and so is what a
  plan takes over from a request and why there is none (`Request.exists_of_plan`,
  `Request.reason_of_plan`).

  A plan exists only for a request that was not refused, so its unit reads as one identifier and is
  never empty (`exists_identifier_of_mem_plans`). Its required fields are those whose type does not
  allow them to be absent (`required_eq`).
-/

import BuilderSynthesis.Route.Outcome

namespace BuilderSynthesis

/-- A computation that succeeds has succeeded in its first step. -/
theorem exists_of_bind {ε α β : Type} {x : Except ε α} {f : α → Except ε β} {b : β} (h : (x >>= f) = .ok b) :
    ∃ a, x = .ok a ∧ f a = .ok b := by
  cases x with
  | error e => cases h
  | ok a => exact ⟨a, rfl, h⟩

/-- The plans of all directives that have one. -/
def Host.plans (host : Host) : List BuilderPlan := host.route.filterMap Outcome.plan?

namespace Request

theorem unitProblem?_eq_none {r : Request} (h : r.unitProblem? = none) :
    ∃ name, Syntax.readIdentifier r.unit = .ok name := by
  unfold unitProblem? at h
  split at h
  · rename_i name hn
    exact ⟨name, hn⟩
  · cases h

/-- A constructor is chosen only for a request that nothing refuses. -/
theorem constructor_eq_ok {r : Request} {c : Constructor} (h : r.constructor = .ok c) :
    r.unitProblem? = none ∧ r.fields.findSome? r.fieldProblem? = none ∧
      Constructor.accepting? r.constructors r.names = some c := by
  unfold constructor at h
  split at h
  · cases h
  · rename_i hn
    split at h
    · rename_i hc
      cases h
      obtain ⟨hu, hf⟩ := Option.or_eq_none_iff.mp ((Option.orElse_eq_or ..).symm.trans hn)
      exact ⟨hu, hf, hc⟩
    · cases h

theorem constructor_of_checks {r : Request} {c : Constructor} (hunit : r.unitProblem? = none)
    (hfields : r.fields.findSome? r.fieldProblem? = none)
    (haccepts : Constructor.accepting? r.constructors r.names = some c) : r.constructor = .ok c := by
  unfold constructor
  rw [hunit, hfields]
  simp [haccepts]

/-- A plan takes its parts over from the request and from the constructor that was chosen, and what is reported on
the way to it comes from its fields. -/
theorem exists_of_plan {r : Request} {plan : BuilderPlan} {planning : List Diagnostic} (h : r.plan = .ok (plan, planning)) :
    ∃ c, r.constructor = .ok c ∧
      plan = ⟨r.unit, r.target, r.visibility, r.fields.map fun f => (r.field c f).1, construction c, r.entryPoint,
        r.module, r.location⟩ ∧
      planning = r.fields.flatMap fun f => (r.field c f).2 := by
  unfold Request.plan at h
  split at h
  · cases h
  · rename_i c hc
    cases h
    refine ⟨c, hc, ?_, List.flatMap_map ..⟩
    rw [List.map_map]
    rfl

theorem planning_eq_ok {r : Request} {plan : BuilderPlan} {planning : List Diagnostic}
    (h : r.plan = .ok (plan, planning)) :
    ∃ c, r.constructor = .ok c ∧ planning = r.fields.flatMap fun f => (r.field c f).2 := by
  obtain ⟨c, hc, -, hplanning⟩ := exists_of_plan h
  exact ⟨c, hc, hplanning⟩

theorem plan_eq_ok {r : Request} {plan : BuilderPlan} {planning : List Diagnostic} (h : r.plan = .ok (plan, planning)) :
    plan.unit = r.unit ∧ plan.target = r.target ∧ ∃ name, Syntax.readIdentifier r.unit = .ok name := by
  obtain ⟨c, hc, rfl, -⟩ := exists_of_plan h
  exact ⟨rfl, rfl, unitProblem?_eq_none (constructor_eq_ok hc).1⟩

theorem visibility_of_plan {r : Request} {plan : BuilderPlan} {planning : List Diagnostic}
    (h : r.plan = .ok (plan, planning)) : plan.visibility = r.visibility := by
  obtain ⟨c, -, rfl, -⟩ := exists_of_plan h
  rfl

theorem location_of_plan {r : Request} {plan : BuilderPlan} {planning : List Diagnostic}
    (h : r.plan = .ok (plan, planning)) : plan.location = r.location := by
  obtain ⟨c, -, rfl, -⟩ := exists_of_plan h
  rfl

/-- Every field of a plan is planned from one of the request. -/
theorem exists_field_of_mem {r : Request} {plan : BuilderPlan} {planning : List Diagnostic}
    (h : r.plan = .ok (plan, planning)) {f : PlannedField} (hf : f ∈ plan.fields) :
    ∃ c, ∃ p ∈ r.fields, f = (r.field c p).1 := by
  obtain ⟨c, -, rfl, -⟩ := exists_of_plan h
  obtain ⟨p, hp, he⟩ := List.mem_map.mp hf
  exact ⟨c, p, hp, he.symm⟩

/-- The fields of a plan are those of the request in their order, and it constructs as the constructor
that was chosen does. -/
theorem fields_of_plan {r : Request} {plan : BuilderPlan} {planning : List Diagnostic}
    (h : r.plan = .ok (plan, planning)) :
    ∃ c, r.constructor = .ok c ∧ plan.fields = r.fields.map (fun p => (r.field c p).1) ∧
      plan.construction = construction c := by
  obtain ⟨c, hc, rfl, -⟩ := exists_of_plan h
  exact ⟨c, hc, rfl, rfl⟩

/-- A request is refused for its name, for a field, or because no constructor takes what it asks for. -/
theorem reason_of_plan {r : Request} {problem : Diagnostic} (h : r.plan = .error problem) :
    r.unitProblem? = some problem ∨ (∃ f ∈ r.fields, r.fieldProblem? f = some problem) ∨ problem = r.constructorProblem := by
  unfold Request.plan at h
  split at h
  · rename_i refused hc
    cases h
    unfold constructor at hc
    split at hc
    · rename_i first hfirst
      cases hc
      rcases Option.or_eq_some_iff.mp ((Option.orElse_eq_or ..).symm.trans hfirst) with hu | ⟨-, hf⟩
      · exact Or.inl hu
      · exact Or.inr (Or.inl (List.exists_of_findSome?_eq_some hf))
    · split at hc
      · cases hc
      · cases hc
        exact Or.inr (Or.inr rfl)
  · cases h

theorem fieldNames_of_plan {r : Request} {plan : BuilderPlan} {planning : List Diagnostic}
    (h : r.plan = .ok (plan, planning)) : plan.fieldNames = r.names := by
  obtain ⟨c, -, hfields, -⟩ := fields_of_plan h
  rw [BuilderPlan.fieldNames, hfields, List.map_map]
  rfl

theorem exists_plan {r : Request} {c : Constructor} (h : r.constructor = .ok c) :
    ∃ plan problems, r.plan = .ok (plan, problems) := by
  unfold Request.plan
  rw [h]
  exact ⟨_, _, rfl⟩

/-- The constructor that is chosen is one of the request, and takes the names of its fields. -/
theorem mem_of_constructor {r : Request} {c : Constructor} (h : r.constructor = .ok c) :
    c ∈ r.constructors ∧ c.parameterNames.Perm r.names := by
  obtain ⟨-, -, ha⟩ := constructor_eq_ok h
  unfold Constructor.accepting? at ha
  have haccepts : c.accepts r.names = true := by simpa using List.find?_some ha
  exact ⟨List.mem_of_find?_eq_some ha, List.isPerm_iff.mp haccepts⟩

theorem memberwise_of_literal {c : Constructor} (h : construction c = .literal) : c.kind = .memberwise := by
  unfold construction at h
  split at h
  · cases h
  · assumption

/-- The report about modifiers that make of the type of a field one that the constructor does not take. -/
def droppedModifiers (target : String) (f : Parameter) (accepted : Descriptor) : Diagnostic :=
  .error ("modifiers turn `" ++ f.name ++ "` into `" ++ (Descriptor.describe f.type f.modifiers f.location).1.text ++
    "`, but `" ++ target ++ "` is constructed from `" ++ accepted.text ++ "`; building it as `" ++
    (Descriptor.canonical f.type).text ++ "`") f.location

/-- The modified type of a field is kept if it is the declared one or the one that the constructor takes. Otherwise
the declared one is kept, and the modifiers are reported. -/
theorem fieldDescriptor_cases (r : Request) {c : Constructor} {f p : Parameter} (hp : c.parameter? f.name = some p) :
    (r.fieldDescriptor c f = Descriptor.describe f.type f.modifiers f.location ∧
      ((Descriptor.describe f.type f.modifiers f.location).1 = Descriptor.canonical f.type ∨
        (Descriptor.describe f.type f.modifiers f.location).1 = Descriptor.canonical p.type)) ∨
    (r.fieldDescriptor c f = (Descriptor.canonical f.type, (Descriptor.describe f.type f.modifiers f.location).2 ++
        [droppedModifiers r.target.name f (Descriptor.canonical p.type)]) ∧
      (Descriptor.describe f.type f.modifiers f.location).1 ≠ Descriptor.canonical f.type ∧
      (Descriptor.describe f.type f.modifiers f.location).1 ≠ Descriptor.canonical p.type) := by
  unfold fieldDescriptor droppedModifiers
  rw [hp, Option.map_some]
  rcases Descriptor.describe f.type f.modifiers f.location with ⟨described, problems⟩
  by_cases hdeclared : described = Descriptor.canonical f.type
  · exact .inl ⟨by simp [hdeclared], .inl hdeclared⟩
  · by_cases haccepted : described = Descriptor.canonical p.type
    · exact .inl ⟨by simp [haccepted], .inr haccepted⟩
    · exact .inr ⟨by simp [hdeclared, Ne.symm haccepted], hdeclared, haccepted⟩

/-- A field is copied through the property of its name, if that has the type that the builder holds. -/
theorem accessor_of_copy {r : Request} {f : Parameter} {descriptor : Descriptor} {kind : AccessorKind}
    (h : (r.fieldCopy f descriptor).1 = some kind) :
    ∃ a, r.accessors.find? (·.property == f.name) = some a ∧ a.kind = kind ∧ Descriptor.canonical a.type = descriptor := by
  unfold fieldCopy at h
  split at h
  · cases h
  · rename_i a ha
    simp only at h
    split at h
    · rename_i hread
      exact ⟨a, ha, Option.some.inj h, beq_iff_eq.mp hread⟩
    · cases h

theorem exists_accessor_of_copy {r : Request} {f : Parameter} {descriptor : Descriptor} {kind : AccessorKind}
    (h : (r.fieldCopy f descriptor).1 = some kind) : ∃ a ∈ r.accessors, a.property = f.name ∧ a.kind = kind := by
  obtain ⟨a, ha, hkind, -⟩ := accessor_of_copy h
  exact ⟨a, List.mem_of_find?_eq_some ha, by simpa using List.find?_some ha, hkind⟩

end Request

namespace Directive

theorem namedStruct_eq_ok {d : Directive} {host : Host} {path : String} {t : DeclaredType}
    (h : d.namedStruct host path = .ok t) : host.findType path d.module = some t := by
  unfold namedStruct at h
  split at h
  · cases h
  · rename_i found hf
    split at h
    · cases h
      exact hf
    · cases h

theorem named_of_namedStruct {d : Directive} {host : Host} {path : String} {t : DeclaredType}
    (h : d.namedStruct host path = .ok t) : t.shape = .named := by
  unfold namedStruct at h
  split at h
  · cases h
  · split at h
    · rename_i hshape
      cases h
      exact beq_iff_eq.mp hshape
    · cases h

/-- The request of a directive for a struct elsewhere, which calls constructors that its module can reach. -/
def externalRequest (d : Directive) (host : Host) (t : DeclaredType) (path : String) (suffix : Option String)
    (useConstructors : Bool) (visibility : Visibility) (primary : Constructor) (others : List Constructor) : Request where
  target := target t path
  suffix := suffix.getD Request.defaultSuffix
  visibility
  fields := if useConstructors then primary.parameters else eligible (metadata host t)
  constructors := if useConstructors then [primary] else primary :: others
  accessors := host.accessors t d.module
  entryPoint := false
  module := d.module
  location := d.location

theorem exists_of_requestedExternally {d : Directive} {host : Host} {path : String} {suffix : Option String}
    {useConstructors : Bool} {v : Visibility} {r : Request}
    (h : d.requestedExternally host path suffix useConstructors v = .ok r) :
    ∃ t primary others, d.namedStruct host path = .ok t ∧
      (host.constructors t).filter (·.isAccessibleFrom d.module) = primary :: others ∧
      r = d.externalRequest host t path suffix useConstructors v primary others := by
  obtain ⟨t, hn, h⟩ := exists_of_bind h
  dsimp only at h
  split at h
  · cases h
  · rename_i primary others hreachable
    cases h
    exact ⟨t, primary, others, hn, hreachable, rfl⟩

/-- The request of a directive for a struct, by the kind of the directive. -/
inductive Asks (d : Directive) (host : Host) (t : DeclaredType) : Request → Prop where
  | type {name} (kind : d.kind = .type name) (found : d.namedStruct host name = .ok t) :
      Asks d host t (d.ownRequest host t (eligible (metadata host t)) (host.constructors t))
  | constructor {typeName function chosen} (kind : d.kind = .constructor typeName function)
      (found : d.namedStruct host typeName = .ok t) (named : (metadata host t).named? function = some chosen) :
      Asks d host t (d.ownRequest host t chosen.parameters [chosen])
  | external {path suffix useConstructors v primary others} (kind : d.kind = .external path suffix useConstructors v)
      (found : d.namedStruct host path = .ok t)
      (reachable : (host.constructors t).filter (·.isAccessibleFrom d.module) = primary :: others) :
      Asks d host t (d.externalRequest host t path suffix useConstructors v primary others)

theorem asks_of_requested {d : Directive} {host : Host} {r : Request} (h : d.requested host = .ok r) : ∃ t, Asks d host t r := by
  unfold requested at h
  split at h
  case h_1 name hk =>
    obtain ⟨t, hn, h⟩ := exists_of_bind h
    cases h
    exact ⟨t, .type hk hn⟩
  case h_2 typeName function hk =>
    obtain ⟨t, hn, h⟩ := exists_of_bind h
    split at h
    · cases h
    · rename_i chosen hchosen
      cases h
      exact ⟨t, .constructor hk hn hchosen⟩
  case h_3 path suffix useConstructors v hk =>
    obtain ⟨t, primary, others, hn, hreachable, rfl⟩ := exists_of_requestedExternally h
    exact ⟨t, .external hk hn hreachable⟩
  case h_4 => cases h

end Directive

namespace Outcome

/-- The plan of a directive is that of the request it makes. -/
theorem ofDirective_eq_ok {host : Host} {d : Directive} {plan : BuilderPlan}
    (h : (ofDirective host d).result = .ok plan) :
    ∃ request planning, d.requested host = .ok request ∧ request.plan = .ok (plan, planning) := by
  unfold ofDirective at h
  split at h
  · cases h
  · rename_i p planning hp
    cases h
    obtain ⟨request, hr, hplan⟩ := exists_of_bind hp
    exact ⟨request, planning, hr, hplan⟩

theorem result_of_plan? {o : Outcome} {plan : BuilderPlan} (h : o.plan? = some plan) : o.result = .ok plan := by
  unfold plan? at h
  cases hr : o.result with
  | error problem => simp [hr, Except.toOption] at h
  | ok found => simpa [hr, Except.toOption] using h

/-- Comparing plans changes none. -/
theorem plans_withClashes (seen : List BuilderPlan) (outcomes : List Outcome) :
    (withClashes seen outcomes).map Outcome.result = outcomes.map Outcome.result := by
  induction outcomes generalizing seen with
  | nil => rfl
  | cons o rest ih =>
    unfold withClashes
    split
    · rw [List.map_cons, List.map_cons, ih]
    · rw [List.map_cons, List.map_cons, ih]

/-- Comparing plans leaves all of an outcome but what is said about the comparison. -/
theorem exists_of_mem_withClashes {seen : List BuilderPlan} {outcomes : List Outcome} {o : Outcome}
    (h : o ∈ withClashes seen outcomes) :
    ∃ before ∈ outcomes, o.directive = before.directive ∧ o.result = before.result ∧ o.planning = before.planning := by
  induction outcomes generalizing seen with
  | nil => cases h
  | cons first rest ih =>
    unfold withClashes at h
    split at h
    · rcases List.mem_cons.mp h with rfl | h
      · exact ⟨o, List.mem_cons_self, rfl, rfl, rfl⟩
      · obtain ⟨before, hb, he⟩ := ih h
        exact ⟨before, List.mem_cons_of_mem _ hb, he⟩
    · rcases List.mem_cons.mp h with rfl | h
      · exact ⟨first, List.mem_cons_self, rfl, rfl, rfl⟩
      · obtain ⟨before, hb, he⟩ := ih h
        exact ⟨before, List.mem_cons_of_mem _ hb, he⟩

theorem directive_ofDirective (host : Host) (d : Directive) : (ofDirective host d).directive = d := by
  unfold ofDirective
  split <;> rfl

end Outcome

namespace Host

theorem mem_directives_of_mem_routed {host : Host} {d : Directive} (h : d ∈ host.routed) : d ∈ host.directives := by
  rcases List.mem_append.mp h with h | h
  · exact (List.mem_filter.mp h).1
  · exact (List.mem_filter.mp h).1

/-- What becomes of a directive is what it comes to by itself. -/
theorem ofDirective_of_mem_route {host : Host} {o : Outcome} (h : o ∈ host.route) :
    o.directive ∈ host.directives ∧ o.result = (Outcome.ofDirective host o.directive).result := by
  obtain ⟨before, hb, hdirective, hresult, -⟩ := Outcome.exists_of_mem_withClashes h
  obtain ⟨d, hd, rfl⟩ := List.mem_map.mp hb
  rw [Outcome.directive_ofDirective] at hdirective
  rw [hdirective]
  exact ⟨mem_directives_of_mem_routed hd, hresult⟩

theorem results_route (host : Host) :
    host.route.map Outcome.result = host.routed.map fun d => (Outcome.ofDirective host d).result := by
  unfold route
  rw [Outcome.plans_withClashes, List.map_map]
  rfl

theorem exists_directive_of_mem_plans {host : Host} {plan : BuilderPlan} (h : plan ∈ host.plans) :
    ∃ d ∈ host.directives, (Outcome.ofDirective host d).result = .ok plan := by
  obtain ⟨o, ho, hp⟩ := List.mem_filterMap.mp h
  obtain ⟨hd, hresult⟩ := ofDirective_of_mem_route ho
  exact ⟨o.directive, hd, hresult.symm.trans (Outcome.result_of_plan? hp)⟩

/-- The unit of every plan is an identifier. -/
theorem exists_identifier_of_mem_plans {host : Host} {plan : BuilderPlan} (h : plan ∈ host.plans) :
    ∃ name, Syntax.readIdentifier plan.unit = .ok name := by
  obtain ⟨d, -, he⟩ := exists_directive_of_mem_plans h
  obtain ⟨request, planning, -, hp⟩ := Outcome.ofDirective_eq_ok he
  obtain ⟨hu, -, hn⟩ := Request.plan_eq_ok hp
  exact hu ▸ hn

/-- A field is required exactly if it cannot be absent. -/
theorem required_eq {host : Host} {plan : BuilderPlan} (h : plan ∈ host.plans) {f : PlannedField}
    (hf : f ∈ plan.fields) : f.required = !f.descriptor.nullable := by
  obtain ⟨d, -, he⟩ := exists_directive_of_mem_plans h
  obtain ⟨request, planning, -, hp⟩ := Outcome.ofDirective_eq_ok he
  obtain ⟨c, p, -, rfl⟩ := Request.exists_field_of_mem hp hf
  rfl

theorem unit_ne_empty {host : Host} {plan : BuilderPlan} (h : plan ∈ host.plans) : plan.unit ≠ "" := by
  intro he
  obtain ⟨name, hn⟩ := exists_identifier_of_mem_plans h
  have hempty : (Syntax.readIdentifier "").isOk = false := by decide +kernel
  rw [he] at hn
  rw [hn] at hempty
  cases hempty

end Host

end BuilderSynthesis
