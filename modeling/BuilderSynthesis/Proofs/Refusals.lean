/-
  BuilderSynthesis.Proofs.Refusals — when a request is planned.

  A request is checked for its unit, then for the name and the type of one field after the other, and at
  last for a constructor (`conditions`). It is planned when all of these hold. It is refused with a report
  about the first one that does not (`FirstViolated`), and then nothing else is reported: a collection that
  planning shares with others stays as it was (`planInto`).

  Modifiers and accessors are not looked at before a request is planned. What a request is without them
  (`bare`) decides whether it is refused and with which report, and which constructor is called.
  `plan_succeeds_iff` puts this together.
-/

import Mathlib.Data.List.Basic
import BuilderSynthesis.Proofs.Planning

namespace BuilderSynthesis

namespace Request

/-! ## Conditions -/

/-- What is asked of a request. -/
inductive Condition where
  | unit
  | name (f : Parameter)
  | type (f : Parameter)
  | constructor

namespace Condition

def Holds (r : Request) : Condition → Prop
  | .unit => ∃ name, Syntax.readIdentifier (r.target.name ++ r.suffix) = .ok name
  | .name f => f.name ∉ reservedNames
  | .type f => ¬ f.type.isImplTrait
  | .constructor => ∃ c ∈ r.constructors, c.parameterNames.Perm r.names

instance (r : Request) (v : Condition) : Decidable (v.Holds r) :=
  match v with
  | .unit =>
    match h : Syntax.readIdentifier (r.target.name ++ r.suffix) with
    | Except.ok read => isTrue ⟨read, h⟩
    | Except.error _ => isFalse fun ⟨_, hread⟩ => by cases h.symm.trans hread
  | .name f => inferInstanceAs (Decidable (f.name ∉ reservedNames))
  | .type f => inferInstanceAs (Decidable (¬ f.type.isImplTrait))
  | .constructor => inferInstanceAs (Decidable (∃ c ∈ r.constructors, c.parameterNames.Perm r.names))

/-- What is said about a condition that does not hold. -/
def report (r : Request) : Condition → Diagnostic
  | .unit => .error ("`" ++ (r.target.name ++ r.suffix) ++ "` is not a valid builder name") r.location
  | .name f =>
    .error ("field `" ++ f.name ++ "` collides with the builder method of the same name; rename it to get a builder for `" ++
      r.target.name ++ "`") f.location
  | .type f => .error ("field `" ++ f.name ++ "` has an `impl Trait` type, which a builder cannot store") f.location
  | .constructor =>
    .error ("no constructor of `" ++ r.target.name ++ "` accepts exactly (" ++ ", ".intercalate r.names ++ ")") r.location

end Condition

/-- The conditions in the order in which they are checked. -/
def conditions (r : Request) : List Condition :=
  .unit :: r.fields.flatMap (fun f => [.name f, .type f]) ++ [.constructor]

/-- A condition does not hold, and all that are checked before it do. -/
def FirstViolated (r : Request) (v : Condition) : Prop :=
  ∃ before after, r.conditions = before ++ v :: after ∧ (∀ w ∈ before, w.Holds r) ∧ ¬ v.Holds r

variable {r : Request}

/-- The report about a condition, if it does not hold. -/
def violation? (r : Request) (v : Condition) : Option Diagnostic :=
  if v.Holds r then none else some (v.report r)

theorem violation?_eq_none {v : Condition} : r.violation? v = none ↔ v.Holds r := by
  simp [violation?]

theorem violation?_eq_some {v : Condition} {problem : Diagnostic} :
    r.violation? v = some problem ↔ ¬ v.Holds r ∧ v.report r = problem := by
  by_cases h : v.Holds r <;> simp [violation?, h]

theorem findSome?_violation? {problem : Diagnostic} :
    r.conditions.findSome? r.violation? = some problem ↔ ∃ v, r.FirstViolated v ∧ problem = v.report r := by
  rw [List.findSome?_eq_some_iff]
  constructor
  · rintro ⟨before, v, after, hsplit, hv, hbefore⟩
    obtain ⟨hfails, rfl⟩ := violation?_eq_some.mp hv
    exact ⟨v, ⟨before, after, hsplit, fun w hw => violation?_eq_none.mp (hbefore w hw), hfails⟩, rfl⟩
  · rintro ⟨v, ⟨before, after, hsplit, hbefore, hfails⟩, rfl⟩
    exact ⟨before, v, after, hsplit, violation?_eq_some.mpr ⟨hfails, rfl⟩,
      fun w hw => violation?_eq_none.mpr (hbefore w hw)⟩

/-! ### One check for each condition -/

theorem violation?_unit : r.violation? .unit = r.unitProblem? := by
  unfold unitProblem?
  split
  · rename_i name hname
    exact violation?_eq_none.mpr ⟨name, hname⟩
  · rename_i problem hproblem
    refine violation?_eq_some.mpr ⟨?_, rfl⟩
    rintro ⟨name, hname⟩
    cases hname.symm.trans hproblem

theorem violation?_field (f : Parameter) : [Condition.name f, .type f].findSome? r.violation? = r.fieldProblem? f := by
  unfold fieldProblem?
  by_cases hname : f.name ∈ reservedNames
  · have hviolated : r.violation? (.name f) = some (Condition.report r (.name f)) :=
      violation?_eq_some.mpr ⟨not_not_intro hname, rfl⟩
    simp [hviolated, hname, Condition.report]
  · have hholds : r.violation? (.name f) = none := violation?_eq_none.mpr hname
    by_cases htype : f.type.isImplTrait
    · have hviolated : r.violation? (.type f) = some (Condition.report r (.type f)) :=
        violation?_eq_some.mpr ⟨not_not_intro htype, rfl⟩
      simp [hholds, hviolated, hname, htype, Condition.report]
    · have hstored : r.violation? (.type f) = none := violation?_eq_none.mpr htype
      simp [hholds, hstored, hname, htype]

theorem accepting?_eq_none_iff :
    Constructor.accepting? r.constructors r.names = none ↔ ¬ Condition.constructor.Holds r := by
  simp [Constructor.accepting?, Condition.Holds, Constructor.accepts, List.isPerm_iff]

theorem violation?_constructor :
    r.violation? .constructor =
      if (Constructor.accepting? r.constructors r.names).isSome then none else some r.constructorProblem := by
  cases h : Constructor.accepting? r.constructors r.names with
  | none => exact violation?_eq_some.mpr ⟨accepting?_eq_none_iff.mp h, rfl⟩
  | some c =>
    refine violation?_eq_none.mpr ?_
    by_contra hno
    cases h.symm.trans (accepting?_eq_none_iff.mpr hno)

/-! ### All checks -/

theorem findSome?_conditions :
    r.conditions.findSome? r.violation? =
      (r.unitProblem? <|> r.fields.findSome? r.fieldProblem?).or (r.violation? .constructor) := by
  have hfields : (r.fields.flatMap fun f => [Condition.name f, .type f]).findSome? r.violation? =
      r.fields.findSome? r.fieldProblem? := by
    induction r.fields with
    | nil => rfl
    | cons f rest ih =>
      rw [List.flatMap_cons, List.findSome?_append, ih, violation?_field, List.findSome?_cons]
      cases r.fieldProblem? f <;> rfl
  rw [conditions, List.findSome?_append, List.findSome?_cons, hfields, violation?_unit]
  cases r.unitProblem? <;> simp

/-- A request is refused with the report about the first condition that does not hold. -/
theorem constructor_eq_error_iff {problem : Diagnostic} :
    r.constructor = .error problem ↔ ∃ v, r.FirstViolated v ∧ problem = v.report r := by
  rw [← findSome?_violation?, findSome?_conditions, violation?_constructor]
  unfold constructor
  cases r.unitProblem? <|> r.fields.findSome? r.fieldProblem? with
  | some first => simp
  | none => cases Constructor.accepting? r.constructors r.names <;> simp

theorem forall_conditions_iff :
    (∀ v ∈ r.conditions, v.Holds r) ↔
      Condition.unit.Holds r ∧ (∀ f ∈ r.fields, f.name ∉ reservedNames) ∧ (∀ f ∈ r.fields, ¬ f.type.isImplTrait) ∧
        Condition.constructor.Holds r := by
  simp only [conditions, List.cons_append, List.mem_cons, List.mem_append, List.mem_flatMap, List.not_mem_nil, or_false]
  constructor
  · intro h
    exact ⟨h _ (.inl rfl), fun f hf => h (.name f) (.inr (.inl ⟨f, hf, .inl rfl⟩)),
      fun f hf => h (.type f) (.inr (.inl ⟨f, hf, .inr rfl⟩)), h _ (.inr (.inr rfl))⟩
  · rintro ⟨hunit, hnames, htypes, hconstructor⟩ v (rfl | ⟨f, hf, rfl | rfl⟩ | rfl)
    · exact hunit
    · exact hnames f hf
    · exact htypes f hf
    · exact hconstructor

/-- A request is planned when all conditions hold. -/
theorem exists_constructor_iff : (∃ c, r.constructor = .ok c) ↔ ∀ v ∈ r.conditions, v.Holds r := by
  have hnone : (∀ v ∈ r.conditions, v.Holds r) ↔ r.conditions.findSome? r.violation? = none := by
    simp [List.findSome?_eq_none_iff, violation?_eq_none]
  rw [hnone]
  cases h : r.constructor with
  | error problem =>
    have hsome := findSome?_violation?.mpr (constructor_eq_error_iff.mp h)
    simp [hsome]
  | ok c =>
    cases hfirst : r.conditions.findSome? r.violation? with
    | none => simp
    | some problem => cases h.symm.trans (constructor_eq_error_iff.mpr (findSome?_violation?.mp hfirst))

/-! ## A shared collection -/

/-- A computation that may stop and that adds to a collection of reports. -/
abbrev Reporting := ExceptT Diagnostic (StateM (List Diagnostic))

def stopAt : Option Diagnostic → Reporting Unit
  | some problem => throw problem
  | none => pure ()

/-- Plans a field and adds what is reported about it to the collection. -/
def addField (r : Request) (c : Constructor) (f : Parameter) : Reporting PlannedField := do
  modify (· ++ (r.field c f).2)
  return (r.field c f).1

/-- Planning with a collection in which others report as well. The checks come one after the other, and one
that fails ends the planning there. -/
def planInto (r : Request) : Reporting BuilderPlan := do
  stopAt r.unitProblem?
  r.fields.forM fun f => stopAt (r.fieldProblem? f)
  match Constructor.accepting? r.constructors r.names with
  | none => throw r.constructorProblem
  | some c =>
    let fields ← r.fields.mapM (r.addField c)
    return { unit := r.unit, target := r.target, visibility := r.visibility, fields, construction := construction c,
             entryPoint := r.entryPoint, module := r.module, location := r.location }

theorem run_bind {α β : Type} (x : Reporting α) (f : α → Reporting β) (collected : List Diagnostic) :
    (x >>= f).run collected =
      match x.run collected with
      | (.error problem, more) => (.error problem, more)
      | (.ok a, more) => (f a).run more := by
  change ExceptT.bindCont f (x.run collected).1 (x.run collected).2 = _
  rcases x.run collected with ⟨problem | a, more⟩ <;> rfl

theorem run_stopAt (problem? : Option Diagnostic) (collected : List Diagnostic) :
    (stopAt problem?).run collected = (match problem? with | some problem => .error problem | none => .ok (), collected) := by
  cases problem? <;> rfl

theorem run_checkFields (fields : List Parameter) (collected : List Diagnostic) :
    (fields.forM fun f => stopAt (r.fieldProblem? f)).run collected =
      (stopAt (fields.findSome? r.fieldProblem?)).run collected := by
  induction fields generalizing collected with
  | nil => rfl
  | cons f rest ih =>
    change (stopAt (r.fieldProblem? f) >>= fun _ => rest.forM fun f => stopAt (r.fieldProblem? f)).run collected = _
    rw [run_bind, run_stopAt, List.findSome?_cons]
    cases r.fieldProblem? f with
    | some problem => rfl
    | none => exact ih collected

theorem run_addFields (c : Constructor) (fields : List Parameter) (collected : List Diagnostic) :
    (fields.mapM (r.addField c)).run collected =
      (.ok (fields.map fun f => (r.field c f).1), collected ++ fields.flatMap fun f => (r.field c f).2) := by
  induction fields generalizing collected with
  | nil => rw [List.flatMap_nil, List.append_nil]; rfl
  | cons f rest ih =>
    rw [List.mapM_cons, run_bind]
    change (rest.mapM (r.addField c) >>= fun fs => pure ((r.field c f).1 :: fs)).run (collected ++ (r.field c f).2) = _
    rw [run_bind, ih, List.flatMap_cons, List.append_assoc]
    rfl

/-- Planning with a collection is planning: a refusal leaves the collection as it is, and a plan adds to it what
is reported about the fields. -/
theorem run_planInto (collected : List Diagnostic) :
    r.planInto.run collected =
      match r.plan with
      | .error problem => (.error problem, collected)
      | .ok (plan, problems) => (.ok plan, collected ++ problems) := by
  unfold planInto Request.plan constructor
  rw [run_bind, run_stopAt]
  cases r.unitProblem? with
  | some problem => rfl
  | none =>
    dsimp only
    rw [run_bind, run_checkFields, run_stopAt]
    cases hfields : r.fields.findSome? r.fieldProblem? with
    | some problem => simp
    | none =>
      cases Constructor.accepting? r.constructors r.names with
      | none => rfl
      | some c =>
        dsimp only
        rw [run_bind, run_addFields, ← List.flatMap_map (r.field c) Prod.snd]
        simp
        rfl

/-! ## Modifiers and accessors -/

end Request

/-- A parameter without modifiers. -/
def Parameter.bare (p : Parameter) : Parameter := { p with modifiers := .none }

/-- A constructor without the modifiers of its parameters. -/
def Constructor.bare (c : Constructor) : Constructor := { c with parameters := c.parameters.map Parameter.bare }

@[simp] theorem Constructor.parameterNames_bare (c : Constructor) : c.bare.parameterNames = c.parameterNames := by
  simp [parameterNames, bare, Parameter.bare]

theorem Constructor.accepting?_bare (constructors : List Constructor) (names : List String) :
    accepting? (constructors.map bare) names = (accepting? constructors names).map bare := by
  simp [accepting?, accepts, Function.comp_def]

namespace Request

/-- A request without modifiers and accessors. -/
def bare (r : Request) : Request :=
  { r with fields := r.fields.map Parameter.bare, constructors := r.constructors.map Constructor.bare, accessors := [] }

@[simp] theorem names_bare (r : Request) : r.bare.names = r.names := by simp [names, bare, Parameter.bare]

@[simp] theorem construction_bare (c : Constructor) : construction c.bare = construction c := by
  unfold construction
  rw [Constructor.parameterNames_bare]
  rfl

/-- Modifiers and accessors are not looked at when a constructor is chosen. -/
theorem constructor_bare (r : Request) : r.bare.constructor = r.constructor.map Constructor.bare := by
  have hunit : r.bare.unitProblem? = r.unitProblem? := rfl
  have hfields : r.bare.fields.findSome? r.bare.fieldProblem? = r.fields.findSome? r.fieldProblem? := by
    simp only [bare, List.findSome?_map]
    rfl
  have hproblem : r.bare.constructorProblem = r.constructorProblem := by
    simp only [constructorProblem, names_bare]
    rfl
  have haccepting : Constructor.accepting? r.bare.constructors r.bare.names =
      (Constructor.accepting? r.constructors r.names).map Constructor.bare := by
    rw [names_bare]
    exact Constructor.accepting?_bare ..
  unfold constructor
  rw [hunit, hfields, hproblem, haccepting]
  cases r.unitProblem? <|> r.fields.findSome? r.fieldProblem? with
  | some problem => rfl
  | none => cases Constructor.accepting? r.constructors r.names <;> rfl

variable {r s : Request}

theorem plan_eq_error_iff {problem : Diagnostic} : r.plan = .error problem ↔ r.constructor = .error problem := by
  unfold Request.plan
  cases r.constructor <;> simp

theorem exists_plan_iff : (∃ plan problems, r.plan = .ok (plan, problems)) ↔ ∃ c, r.constructor = .ok c := by
  unfold Request.plan
  cases r.constructor <;> simp

/-- A plan constructs as the constructor that was chosen does, and has the fields that were asked for. -/
theorem plan_of_constructor {c : Constructor} (h : r.constructor = .ok c) :
    ∃ plan problems, r.plan = .ok (plan, problems) ∧ plan.fieldNames = r.names ∧ plan.construction = construction c := by
  obtain ⟨plan, problems, hp⟩ := exists_plan h
  obtain ⟨d, hd, -, hconstruction⟩ := fields_of_plan hp
  obtain rfl : c = d := Except.ok.inj (h.symm.trans hd)
  exact ⟨plan, problems, hp, fieldNames_of_plan hp, hconstruction⟩

/-- Requests that are the same without modifiers and accessors are both refused, with the same report, or both
planned, with the same names and the same construction. -/
theorem plans_of_bare_eq (h : r.bare = s.bare) :
    (∃ problem, r.plan = .error problem ∧ s.plan = .error problem) ∨
      ∃ plan problems other reported, r.plan = .ok (plan, problems) ∧ s.plan = .ok (other, reported) ∧
        plan.fieldNames = other.fieldNames ∧ plan.construction = other.construction := by
  have hnames : r.names = s.names := by rw [← names_bare, h, names_bare]
  have hconstructor : r.constructor.map Constructor.bare = s.constructor.map Constructor.bare := by
    rw [← constructor_bare, h, constructor_bare]
  cases hr : r.constructor with
  | error problem =>
    cases hs : s.constructor with
    | error other =>
      rw [hr, hs] at hconstructor
      cases hconstructor
      exact .inl ⟨problem, plan_eq_error_iff.mpr hr, plan_eq_error_iff.mpr hs⟩
    | ok d =>
      rw [hr, hs] at hconstructor
      cases hconstructor
  | ok c =>
    cases hs : s.constructor with
    | error other =>
      rw [hr, hs] at hconstructor
      cases hconstructor
    | ok d =>
      rw [hr, hs] at hconstructor
      have hbare : c.bare = d.bare := Except.ok.inj hconstructor
      obtain ⟨plan, problems, hp, hfields, hmade⟩ := plan_of_constructor hr
      obtain ⟨other, reported, ho, hothers, hcalled⟩ := plan_of_constructor hs
      refine .inr ⟨plan, problems, other, reported, hp, ho, ?_, ?_⟩
      · rw [hfields, hothers, hnames]
      · rw [hmade, hcalled, ← construction_bare, hbare, construction_bare]

/-! ## Acceptance -/

/-- A request is planned exactly when its unit is an identifier, no field has the name of a builder's method or an
`impl Trait` type, and some constructor takes exactly its fields. Otherwise the report is about the first of these
that does not hold, in the order of the checks, and a collection of reports stays as it was. Modifiers and
accessors have no part in this. -/
theorem plan_succeeds_iff (r : Request) :
    ((∃ plan problems, r.plan = .ok (plan, problems)) ↔
      (∃ name, Syntax.readIdentifier (r.target.name ++ r.suffix) = .ok name) ∧
        (∀ f ∈ r.fields, f.name ∉ reservedNames) ∧ (∀ f ∈ r.fields, ¬ f.type.isImplTrait) ∧
        ∃ c ∈ r.constructors, c.parameterNames.Perm r.names) ∧
    (∀ problem, r.plan = .error problem ↔ ∃ v, r.FirstViolated v ∧ problem = v.report r) ∧
    (∀ collected, r.planInto.run collected =
      match r.plan with
      | .error problem => (.error problem, collected)
      | .ok (plan, problems) => (.ok plan, collected ++ problems)) ∧
    ∀ s : Request, r.bare = s.bare →
      (∃ problem, r.plan = .error problem ∧ s.plan = .error problem) ∨
        ∃ plan problems other reported, r.plan = .ok (plan, problems) ∧ s.plan = .ok (other, reported) ∧
          plan.fieldNames = other.fieldNames ∧ plan.construction = other.construction := by
  refine ⟨?_, fun problem => ?_, run_planInto, fun s => plans_of_bare_eq⟩
  · rw [exists_plan_iff, exists_constructor_iff]
    exact forall_conditions_iff
  · rw [plan_eq_error_iff]
    exact constructor_eq_error_iff

/-- The parameters of the function that makes a pair. -/
def pairParameters (modifiers : Modifiers) : List Parameter :=
  [⟨"b", .path "Option" [.path "String" []], .none, ⟨"lib.rs", 3, 5⟩⟩, ⟨"a", .primitive "u8", modifiers, ⟨"lib.rs", 2, 5⟩⟩]

/-- A struct of a number and an optional text. -/
def pairRequest (modifiers : Modifiers) (accessors : List Accessor) : Request where
  target := ⟨"Pair", "Pair", none, none⟩
  suffix := defaultSuffix
  visibility := .everywhere
  fields := (pairParameters modifiers).reverse
  constructors := [⟨.function "new", pairParameters .none, .everywhere, .crateRoot 0, ⟨"lib.rs", 7, 5⟩⟩]
  accessors
  entryPoint := true
  module := .crateRoot 0
  location := ⟨"lib.rs", 1, 1⟩

/-- The number of the pair has nothing that fits it. -/
def misfits : Modifiers := ⟨true, true, some "f("⟩

/-- It is read as a text. -/
def textAccessor : Accessor := ⟨"a", .field, .path "String" []⟩

/-- Modifiers and an accessor that do not fit leave the builder as it is without them. -/
theorem plan_succeeds_of_a_pair :
    ∃ plan problems other reported, (pairRequest .none []).plan = .ok (plan, problems) ∧
      (pairRequest misfits [textAccessor]).plan = .ok (other, reported) ∧
      plan.fieldNames = other.fieldNames ∧ plan.construction = other.construction := by
  obtain ⟨haccepted, -, -, hothers⟩ := plan_succeeds_iff (pairRequest .none [])
  have hunit : Syntax.readIdentifier "PairBuilder" = .ok "PairBuilder" := by rfl
  obtain ⟨plan, problems, hp⟩ := haccepted.mpr ⟨⟨_, hunit⟩, by decide, by decide, _, List.mem_cons_self, by decide⟩
  have hbare : (pairRequest .none []).bare = (pairRequest misfits [textAccessor]).bare := rfl
  rcases hothers _ hbare with ⟨problem, hrefused, -⟩ | hplanned
  · cases hrefused.symm.trans hp
  · exact hplanned

/-- Both modifiers and the default are reported, and that the field is not copied. -/
example : (pairRequest misfits [textAccessor]).plan.toOption.map (fun p => p.2.map Diagnostic.severity) =
    some [.error, .error, .error, .note] := by decide +kernel

end Request

end BuilderSynthesis
