/-
  BuilderSynthesis.Proofs.Clashes — what routing says about plans with one unit.

  Two plans of one unit that go into one module define the builder there twice, and the later one
  should carry an error for it; one that only replaces the builders of other modules should carry a
  note; any other plan nothing (`SaysClashes`).

  Routing compares a plan with the last one before it that has its unit, and with no other
  (`clash_route`). So the note and the silence are always right, and the error is given exactly when
  the last plan of the unit, among those before, goes into the same module (`says_clashes_iff`). With
  a plan for another module in between it is left out
  (`a_module_in_between_hides_the_clash`).
-/

import BuilderSynthesis.Proofs.Emission
import BuilderSynthesis.Proofs.Planning

namespace BuilderSynthesis

theorem find?_reverse (plans : List BuilderPlan) (holds : BuilderPlan → Bool) :
    plans.reverse.find? holds = lastPlan? plans holds := by
  unfold lastPlan?
  rw [← List.head?_filter, List.filter_reverse, List.head?_reverse]

/-! ## What is said -/

/-- The error that a plan and one of its module with its unit define the builder twice. -/
def SaysTwice (plan : BuilderPlan) (d : Diagnostic) : Prop :=
  ∃ earlier : BuilderPlan, earlier.module = plan.module ∧ d = Outcome.clashOf earlier plan

/-- The diagnostics of a plan as they should be, given the plans before it and what its directive
reports by itself. -/
structure SaysClashes (earlier : List BuilderPlan) (plan : BuilderPlan) (alone said : List Diagnostic) : Prop where
  twice : (∃ p ∈ earlier, p.unit = plan.unit ∧ p.module = plan.module) → ∃ d ∈ said, SaysTwice plan d
  replaced : (∃ p ∈ earlier, p.unit = plan.unit) →
    (∀ p ∈ earlier, p.unit = plan.unit → p.module ≠ plan.module) →
      ∃ note : Diagnostic, note.isError = false ∧ said = alone ++ [note] ∧
        ∃ p ∈ earlier, p.unit = plan.unit ∧ note = Outcome.clashOf p plan
  fresh : (∀ p ∈ earlier, p.unit ≠ plan.unit) → said = alone

theorem isError_clashOf (earlier plan : BuilderPlan) :
    (Outcome.clashOf earlier plan).isError = (earlier.module == plan.module) := by
  unfold Outcome.clashOf
  split
  · rename_i h
    rw [h]
    rfl
  · rename_i h
    rw [Bool.eq_false_iff.mpr h]
    rfl

/-! ## What planning says -/

/-- Told apart from an error about a unit that is defined twice. -/
def IsOther (d : Diagnostic) : Prop :=
  d.severity = .note ∨ d.message.toList.head? ≠ some '`' ∨ d.message.toList.getLast? ≠ some 'x'

theorem not_saysTwice_of_isOther {d : Diagnostic} (h : IsOther d) (plan : BuilderPlan) : ¬ SaysTwice plan d := by
  rintro ⟨earlier, hm, rfl⟩
  unfold Outcome.clashOf at h
  rw [if_pos (beq_iff_eq.mpr hm)] at h
  rcases h with h | h | h
  · cases h
  · refine h ?_
    simp only [Diagnostic.error, String.append_assoc]
    rw [head?_toList_append _ (by decide)]
    decide
  · refine h ?_
    simp only [Diagnostic.error]
    rw [getLast?_toList_append _ (by decide)]
    decide

theorem isOther_message (e : Descriptor.AdjustmentError) (location : Location) : IsOther (.error e.message location) := by
  have hlast : ∀ text : String, (text ++ "`").toList.getLast? ≠ some 'x' := by
    intro text
    rw [getLast?_toList_append text (by decide)]
    decide
  refine Or.inr (Or.inr ?_)
  cases e with
  | noTypeArgument found => exact hlast _
  | notACollection found => exact hlast _

theorem isOther_adjustIf {asked : Bool} {adjust : Descriptor → Except Descriptor.AdjustmentError Descriptor}
    {location : Location} {d : Descriptor} {problem : Diagnostic}
    (h : problem ∈ (Descriptor.adjustIf asked adjust location d).2) : IsOther problem := by
  unfold Descriptor.adjustIf at h
  split at h
  · split at h
    · cases h
    · rename_i e _
      rw [List.mem_singleton.mp h]
      exact isOther_message e location
  · cases h

theorem isOther_fieldDescriptor {r : Request} {c : Constructor} {f : Parameter} {problem : Diagnostic}
    (h : problem ∈ (r.fieldDescriptor c f).2) : IsOther problem := by
  have hdescribe : ∀ p ∈ (Descriptor.describe f.type f.modifiers f.location).2, IsOther p := by
    intro p hp
    rcases List.mem_append.mp hp with hp | hp
    · exact isOther_adjustIf hp
    · exact isOther_adjustIf hp
  unfold Request.fieldDescriptor at h
  simp only at h
  split at h
  · split at h
    · rcases List.mem_append.mp h with h | h
      · exact hdescribe problem h
      · rw [List.mem_singleton.mp h]
        right; left
        simp only [Diagnostic.error, String.append_assoc]
        rw [head?_toList_append _ (by decide)]
        decide
    · exact hdescribe problem h
  · exact hdescribe problem h

theorem isOther_default {raw name : String} {descriptor : Descriptor} {location : Location} {problem : Diagnostic}
    (h : problem ∈ (Default.expression raw descriptor name location).2) : IsOther problem := by
  unfold Default.expression at h
  simp only at h
  split at h
  · cases h
  · split at h
    · cases h
    · rw [List.mem_singleton.mp h]
      right; left
      simp only [Diagnostic.error, String.append_assoc]
      rw [head?_toList_append _ (by decide)]
      decide

theorem isOther_fieldCopy {r : Request} {f : Parameter} {descriptor : Descriptor} {problem : Diagnostic}
    (h : problem ∈ (r.fieldCopy f descriptor).2) : IsOther problem := by
  unfold Request.fieldCopy at h
  split at h
  · cases h
  · simp only at h
    split at h
    · cases h
    · rw [List.mem_singleton.mp h]
      exact Or.inl rfl

theorem isOther_field {r : Request} {c : Constructor} {f : Parameter} {problem : Diagnostic}
    (h : problem ∈ (r.field c f).2) : IsOther problem := by
  unfold Request.field at h
  simp only [List.mem_append] at h
  rcases h with (h | h) | h
  · exact isOther_fieldDescriptor h
  · split at h
    · exact isOther_default h
    · cases h
  · exact isOther_fieldCopy h

/-- Planning alone never says that a builder is defined twice. -/
theorem isOther_ofDirective {host : Host} {d : Directive} {problem : Diagnostic}
    (h : problem ∈ (Outcome.ofDirective host d).diagnostics) : IsOther problem := by
  unfold Outcome.ofDirective at h
  split at h
  · cases h
  · rename_i plan planning hp
    have hm : problem ∈ planning := by simpa [Outcome.diagnostics] using h
    cases hr : d.requested host with
    | error e =>
      rw [hr] at hp
      cases hp
    | ok r =>
      rw [hr] at hp
      obtain ⟨c, -, rfl⟩ := Request.planning_eq_ok hp
      obtain ⟨f, -, hf⟩ := List.mem_flatMap.mp hm
      exact isOther_field hf

/-! ## Comparing with the last plan of the unit -/

namespace Outcome

/-- An outcome compared with the plans before it, the last one first. -/
def compared (seen : List BuilderPlan) (o : Outcome) : Outcome :=
  match o.result with
  | .error _ => o
  | .ok plan => { o with clash := (seen.find? (·.unit == plan.unit)).map (clashOf · plan) }

theorem withClashes_cons (seen : List BuilderPlan) (o : Outcome) (rest : List Outcome) :
    withClashes seen (o :: rest) = o.compared seen :: withClashes (o.plan?.toList ++ seen) rest := by
  rw [withClashes]
  unfold compared plan?
  cases o.result <;> rfl

theorem getElem?_withClashes (seen : List BuilderPlan) (outcomes : List Outcome) (j : Nat) :
    (withClashes seen outcomes)[j]? =
      outcomes[j]?.map (compared (((outcomes.take j).filterMap plan?).reverse ++ seen)) := by
  induction outcomes generalizing seen j with
  | nil => simp [withClashes]
  | cons o rest ih =>
    rw [withClashes_cons]
    cases j with
    | zero => rfl
    | succ j =>
      rw [List.getElem?_cons_succ, List.getElem?_cons_succ, List.take_succ_cons, ih]
      congr 2
      cases ho : o.plan? with
      | none => rw [List.filterMap_cons_none ho]; rfl
      | some plan => rw [List.filterMap_cons_some ho, List.reverse_cons, List.append_assoc]; rfl

end Outcome

namespace Host

/-- The plans of the outcomes before a place. -/
def plansBefore (host : Host) (j : Nat) : List BuilderPlan := (host.route.take j).filterMap Outcome.plan?

theorem plansBefore_eq (host : Host) (j : Nat) :
    host.plansBefore j = ((host.routed.map (Outcome.ofDirective host)).take j).filterMap Outcome.plan? := by
  have hresults : ∀ outcomes : List Outcome,
      outcomes.filterMap Outcome.plan? = (outcomes.map Outcome.result).filterMap Except.toOption := by
    intro outcomes
    rw [List.filterMap_map]
    rfl
  unfold plansBefore
  rw [hresults, hresults, List.map_take, List.map_take, results_route, List.map_map]
  rfl

end Host

variable {host : Host} {j : Nat} {o : Outcome} {plan : BuilderPlan}

/-- What is said about a plan is decided by the last plan before it that has its unit. -/
theorem clash_route (hj : host.route[j]? = some o) (hp : o.plan? = some plan) :
    o.clash = (lastPlan? (host.plansBefore j) (·.unit == plan.unit)).map (Outcome.clashOf · plan) ∧
      o.planning = (Outcome.ofDirective host o.directive).diagnostics := by
  unfold Host.route at hj
  rw [Outcome.getElem?_withClashes, List.append_nil, ← Host.plansBefore_eq, List.getElem?_map, Option.map_map,
    Option.map_eq_some_iff] at hj
  obtain ⟨d, -, rfl⟩ := hj
  have hdirective : (Outcome.ofDirective host d).directive = d ∧ (Outcome.ofDirective host d).clash = none := by
    unfold Outcome.ofDirective
    split <;> exact ⟨rfl, rfl⟩
  simp only [Function.comp_apply] at hp ⊢
  unfold Outcome.compared at hp ⊢
  cases hr : (Outcome.ofDirective host d).result with
  | error e =>
    rw [hr] at hp
    simp [Outcome.plan?, hr, Except.toOption] at hp
  | ok found =>
    rw [hr] at hp
    obtain rfl : found = plan := by simpa [Outcome.plan?, Except.toOption] using hp
    simp only [hdirective.1, Outcome.diagnostics, hdirective.2, find?_reverse, Option.toList_none, List.append_nil,
      and_self]

/-- What routing adds to what a directive reports by itself. -/
theorem diagnostics_route (hj : host.route[j]? = some o) (hp : o.plan? = some plan) :
    o.diagnostics = (Outcome.ofDirective host o.directive).diagnostics ++
      ((lastPlan? (host.plansBefore j) (·.unit == plan.unit)).map (Outcome.clashOf · plan)).toList := by
  obtain ⟨hclash, hplanning⟩ := clash_route hj hp
  rw [Outcome.diagnostics, hclash, hplanning]

/-- A plan is said to be defined twice exactly if the last plan of its unit before it has its module. -/
theorem exists_saysTwice_iff (hj : host.route[j]? = some o) (hp : o.plan? = some plan) :
    (∃ d ∈ o.diagnostics, SaysTwice plan d) ↔
      ∃ last, lastPlan? (host.plansBefore j) (·.unit == plan.unit) = some last ∧ last.module = plan.module := by
  have hsaid := diagnostics_route hj hp
  constructor
  · rintro ⟨d, hd, hs⟩
    rw [hsaid] at hd
    rcases List.mem_append.mp hd with hd | hd
    · exact absurd hs (not_saysTwice_of_isOther (isOther_ofDirective hd) plan)
    · rw [Option.mem_toList, Option.map_eq_some_iff] at hd
      obtain ⟨last, hl, rfl⟩ := hd
      refine ⟨last, hl, ?_⟩
      obtain ⟨earlier, hm, he⟩ := hs
      have hiff := isError_clashOf last plan
      rw [he, isError_clashOf, hm, beq_self_eq_true] at hiff
      exact beq_iff_eq.mp hiff.symm
  · rintro ⟨last, hl, hm⟩
    refine ⟨Outcome.clashOf last plan, ?_, last, hm, rfl⟩
    rw [hsaid, hl]
    exact List.mem_append_right _ (List.mem_singleton.mpr rfl)

/-- Routing says what it should about a plan exactly if no plan before it has its unit and module, or
the last one before it that has its unit has its module. -/
theorem says_clashes_iff (hj : host.route[j]? = some o) (hp : o.plan? = some plan) :
    SaysClashes (host.plansBefore j) plan (Outcome.ofDirective host o.directive).diagnostics o.diagnostics ↔
      ((∃ p ∈ host.plansBefore j, p.unit = plan.unit ∧ p.module = plan.module) →
        ∃ last, lastPlan? (host.plansBefore j) (·.unit == plan.unit) = some last ∧ last.module = plan.module) := by
  have hsaid := diagnostics_route hj hp
  constructor
  · intro h hsame
    exact (exists_saysTwice_iff hj hp).mp (h.twice hsame)
  · intro h
    refine ⟨fun hsame => (exists_saysTwice_iff hj hp).mpr (h hsame), fun hunit hother => ?_, fun hfresh => ?_⟩
    · cases hl : lastPlan? (host.plansBefore j) (·.unit == plan.unit) with
      | none =>
        obtain ⟨p, hm, hu⟩ := hunit
        rw [lastPlan?_eq_none_iff] at hl
        exact absurd (beq_iff_eq.mpr hu) (hl p hm)
      | some last =>
        obtain ⟨hm, hu⟩ := mem_of_lastPlan? hl
        rw [beq_iff_eq] at hu
        refine ⟨Outcome.clashOf last plan, ?_, ?_, last, hm, hu, rfl⟩
        · rw [isError_clashOf]
          exact beq_eq_false_iff_ne.mpr (hother last hm hu)
        · rw [hsaid, hl]
          rfl
    · have hl : lastPlan? (host.plansBefore j) (·.unit == plan.unit) = none := by
        rw [lastPlan?_eq_none_iff]
        intro p hm hu
        exact hfresh p hm (beq_iff_eq.mp hu)
      rw [hsaid, hl]
      exact List.append_nil _

/-! ### A module in between -/

/-- A struct whose builder is asked for at the crate root, in another module, and at the crate root
again. -/
def alternating : Host :=
  let pair : DeclaredType := ⟨"Pair", .crateRoot 0, .everywhere, none, none, .named, [], ⟨"src/lib.rs", 1, 1⟩⟩
  let asked (segments : List String) (line : Nat) : Directive :=
    ⟨.external "Pair" none false .everywhere, ⟨0, segments⟩, ⟨"src/lib.rs", line, 1⟩⟩
  .ofEntries [asked [] 3, asked ["other"] 5, asked [] 7] [⟨"Pair", pair, [pair.memberwise], []⟩]

/-- The unit of a plan and the module that takes it in. -/
def BuilderPlan.place (plan : BuilderPlan) : String × ModulePath := (plan.unit, plan.module)

theorem says_clashes_of_another_module :
    ∃ o plan, alternating.route[1]? = some o ∧ o.plan? = some plan ∧
      SaysClashes (alternating.plansBefore 1) plan (Outcome.ofDirective alternating o.directive).diagnostics
        o.diagnostics := by
  have hplan : (alternating.route[1]?.bind Outcome.plan?).map BuilderPlan.place =
      some ("PairBuilder", ⟨0, ["other"]⟩) := by decide +kernel
  have hbefore : (alternating.plansBefore 1).map BuilderPlan.place = [("PairBuilder", ⟨0, []⟩)] := by decide +kernel
  obtain ⟨plan, hbind, hplace⟩ := Option.map_eq_some_iff.mp hplan
  obtain ⟨o, hj, hp⟩ := Option.bind_eq_some_iff.mp hbind
  refine ⟨o, plan, hj, hp, (says_clashes_iff hj hp).mpr ?_⟩
  rintro ⟨p, hm, -, hmodule⟩
  have hin := List.mem_map_of_mem (f := BuilderPlan.place) hm
  rw [hbefore, List.mem_singleton] at hin
  rw [(Prod.mk.inj hplace).2, (Prod.mk.inj hin).2] at hmodule
  exact absurd hmodule (by decide)

/-- The plan of the first directive is not seen any more, though the third one goes into its module. -/
theorem a_module_in_between_hides_the_clash :
    ∃ o plan, alternating.route[2]? = some o ∧ o.plan? = some plan ∧
      (∃ p ∈ alternating.plansBefore 2, p.unit = plan.unit ∧ p.module = plan.module) ∧
      ¬ SaysClashes (alternating.plansBefore 2) plan (Outcome.ofDirective alternating o.directive).diagnostics
        o.diagnostics := by
  have hplan : (alternating.route[2]?.bind Outcome.plan?).map BuilderPlan.place =
      some ("PairBuilder", ⟨0, []⟩) := by decide +kernel
  have hbefore : (alternating.plansBefore 2).map BuilderPlan.place =
      [("PairBuilder", ⟨0, []⟩), ("PairBuilder", ⟨0, ["other"]⟩)] := by decide +kernel
  obtain ⟨plan, hbind, hplace⟩ := Option.map_eq_some_iff.mp hplan
  obtain ⟨o, hj, hp⟩ := Option.bind_eq_some_iff.mp hbind
  obtain ⟨hunit, hmodule⟩ := Prod.mk.inj hplace
  cases hb : alternating.plansBefore 2 with
  | nil => rw [hb] at hbefore; cases hbefore
  | cons first rest =>
    rw [hb, List.map_cons, List.cons.injEq] at hbefore
    obtain ⟨hfirst, hrest⟩ := hbefore
    obtain ⟨second, rfl, hsecond⟩ := List.map_eq_singleton_iff.mp hrest
    have hsame : ∃ p ∈ [first, second], p.unit = plan.unit ∧ p.module = plan.module := by
      refine ⟨first, List.mem_cons_self, ?_, ?_⟩
      · rw [hunit, (Prod.mk.inj hfirst).1]
      · rw [hmodule, (Prod.mk.inj hfirst).2]
    refine ⟨o, plan, hj, hp, hsame, fun h => ?_⟩
    obtain ⟨last, hl, hm⟩ := (exists_saysTwice_iff hj hp).mp (h.twice hsame)
    have hlast : lastPlan? [first, second] (·.unit == plan.unit) = some second := by
      rw [lastPlan?_cons, lastPlan?_cons, hunit, (Prod.mk.inj hsecond).1]
      rfl
    rw [hb, hlast] at hl
    cases hl
    rw [hmodule, (Prod.mk.inj hsecond).2] at hm
    exact absurd hm (by decide)

end BuilderSynthesis
