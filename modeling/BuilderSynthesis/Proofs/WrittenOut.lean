/-
  BuilderSynthesis.Proofs.WrittenOut — builders that write their struct out.

  A struct is written out only if no function constructs it, and then its builder sees all its fields.
  So the builder has exactly the fields of the struct, each with its declared type whatever modifiers
  were written, and reads each of them back (`literal_plan_is_complete`). The fields are told apart by
  their names, so these have to be different.
-/

import BuilderSynthesis.Proofs.AnchoredPaths
import BuilderSynthesis.Proofs.ExternalBuilders
import BuilderSynthesis.Proofs.FinishedValues

namespace BuilderSynthesis

open Syntax

/-- What a module declares can be named there. -/
theorem Visibility.admits_owner (v : Visibility) (module : ModulePath) : v.admits module module = true := by
  unfold admits
  cases v with
  | everywhere => rfl
  | restricted text => exact beq_self_eq_true module.root
  | inherited =>
    unfold ModulePath.isWithin
    rw [beq_self_eq_true, Bool.true_and, List.isPrefixOf_iff_prefix.mpr (List.prefix_refl _)]

/-- Fields with different names are found by them. -/
theorem DeclaredType.find?_field {t : DeclaredType} (nodup : t.fieldNames.Nodup) {f : FieldDecl} (hf : f ∈ t.fields) :
    t.fields.find? (·.name == f.name) = some f := by
  rw [find?_named nodup (List.Subset.refl _) hf, if_pos hf]

/-! ## What can be read of a struct -/

namespace SourceTree

variable {tree : SourceTree} {t : DeclaredType} {user : ModulePath}

/-- Where all fields are visible, each is read by its own name. -/
theorem find?_accessors (nodup : t.fieldNames.Nodup) (hv : ∀ f ∈ t.fields, f.visibility.admits t.module user = true)
    {f : FieldDecl} (hf : f ∈ t.fields) :
    (tree.accessors t user).find? (·.property == f.name) = some ⟨f.name, .field, f.type⟩ := by
  have hin := tree.mem_accessors_of_field hf (hv f hf)
  exact (find?_named (tree.nodup_accessors nodup) (List.Subset.refl _) hin).trans (if_pos hin)

end SourceTree

/-! ## What is requested -/

namespace Directive

variable {d : Directive} {tree : SourceTree} {path : String} {t : DeclaredType} {r : Request}

/-- The path of the struct that a directive on a struct, or for a struct elsewhere, asks for. -/
def structPath? (d : Directive) : Option String :=
  match d.kind with
  | .type name => some name
  | .external target .. => some target
  | _ => none

theorem exists_struct_of_requested {host : Host} (hpath : d.structPath? = some path) (hr : d.requested host = .ok r) :
    ∃ t, host.findType path d.module = some t := by
  obtain ⟨t, ha⟩ := asks_of_requested hr
  unfold structPath? at hpath
  cases ha with
  | type hk hn =>
    rw [hk] at hpath
    cases hpath
    exact ⟨t, namedStruct_eq_ok hn⟩
  | constructor hk =>
    rw [hk] at hpath
    cases hpath
  | external hk hn =>
    rw [hk] at hpath
    cases hpath
    exact ⟨t, namedStruct_eq_ok hn⟩

/-- Fields of a struct with modifiers of their own. -/
def declaredParameters (t : DeclaredType) (modifiers : FieldDecl → Modifiers) : List Parameter :=
  t.fields.map fun f => ⟨f.name, f.type, modifiers f, f.location⟩

/-- All fields of a struct take part if it is written out. -/
theorem eligible_of_memberwise (h : tree.constructors t = [t.memberwise]) :
    eligible (metadata tree.host t) = declaredParameters t (metadata tree.host t).effective := by
  have hall : t.fields.filter (metadata tree.host t).isEligible = t.fields := by
    refine List.filter_eq_self.mpr fun f hf => ?_
    have hparameters : (metadata tree.host t).constructors = [t.memberwise] := h
    unfold Metadata.isEligible Metadata.parameter?
    rw [hparameters, List.flatMap_singleton, List.find?_isSome]
    exact ⟨f.toParameter, List.mem_map_of_mem hf, beq_self_eq_true f.name⟩
  exact congrArg (List.map _) hall

/-- The request for a struct that is written out: there is no other way to construct it, and it asks
for all fields where all are visible. -/
theorem requested_of_memberwise (hs : tree.IsScanned) (hd : d ∈ tree.directives) (hpath : d.structPath? = some path)
    (ht : tree.findType path d.module = some t) (hr : d.requested tree.host = .ok r)
    (hm : ∃ c ∈ r.constructors, c.kind = .memberwise) :
    (∀ c ∈ r.constructors, c = t.memberwise) ∧ (∃ modifiers, r.fields = declaredParameters t modifiers) ∧
      r.accessors = tree.accessors t d.module ∧ ∀ f ∈ t.fields, f.visibility.admits t.module d.module = true := by
  have hsingle : ∀ c ∈ tree.constructors t, c.kind = .memberwise →
      c = t.memberwise ∧ tree.constructors t = [t.memberwise] := by
    intro c hc hk
    rcases SourceTree.constructors_cases hs hc with ⟨function, hf⟩ | h
    · cases hf.symm.trans hk
    · exact h
  have honly : tree.constructors t = [t.memberwise] → ∀ c ∈ tree.host.constructors t, c = t.memberwise := by
    intro hall c hc
    have hin : c ∈ [t.memberwise] := hall ▸ hc
    exact List.mem_singleton.mp hin
  obtain ⟨c, hc, hk⟩ := hm
  unfold structPath? at hpath
  split at hpath
  · -- On a struct: it lies in the directive's own module.
    rename_i name hkind
    cases hpath
    rw [requested, hkind] at hr
    obtain ⟨u, hu, hr⟩ := exists_of_bind hr
    obtain rfl : u = t := Option.some.inj ((namedStruct_eq_ok hu).symm.trans ht)
    cases hr
    obtain ⟨hname, hown⟩ := SourceTree.exists_declared_of_type hs hd hkind
    obtain ⟨-, hall⟩ := hsingle c hc hk
    refine ⟨honly hall, ⟨_, eligible_of_memberwise hall⟩, rfl, fun f _ => ?_⟩
    rw [SourceTree.module_of_findType hname hown ht]
    exact f.visibility.admits_owner d.module
  · -- For a struct elsewhere: only what the directive's module can reach is called.
    rename_i target suffix useConstructors v hkind
    cases hpath
    rw [requested, hkind] at hr
    obtain ⟨u, hu, -, haccessors, hconstructors, hfields⟩ := requestedExternally_eq_ok hr
    obtain rfl : u = t := Option.some.inj (hu.symm.trans ht)
    obtain ⟨hin, haccessible⟩ := hconstructors c hc
    obtain ⟨rfl, hall⟩ := hsingle c hin hk
    have hmemberwise : ∀ other ∈ r.constructors, other = u.memberwise :=
      fun other ho => honly hall other (hconstructors other ho).1
    refine ⟨hmemberwise, ?_, haccessors, ?_⟩
    · rcases hfields with hfields | ⟨other, ho, hfields⟩
      · exact ⟨_, hfields.trans (eligible_of_memberwise hall)⟩
      · exact ⟨FieldDecl.modifiers, hfields.trans (hmemberwise other ho ▸ rfl)⟩
    · rw [DeclaredType.memberwise_isAccessibleFrom, Bool.and_eq_true_iff] at haccessible
      exact List.all_eq_true.mp haccessible.2
  · cases hpath

end Directive

/-! ## What is planned -/

namespace Request

variable {r : Request} {t : DeclaredType}

/-- A field that the struct takes as it is declared keeps its declared type: modifiers that change it
are dropped. -/
theorem fieldDescriptor_of_declared {c : Constructor} {f : Parameter} {p : Parameter} (hp : c.parameter? f.name = some p)
    (htype : p.type = f.type) : (r.fieldDescriptor c f).1 = Descriptor.canonical f.type := by
  rcases r.fieldDescriptor_cases hp with ⟨hkept, hsame⟩ | ⟨hdropped, -⟩
  · rw [hkept]
    exact hsame.elim id fun haccepted => haccepted.trans (congrArg Descriptor.canonical htype)
  · rw [hdropped]

/-- A field of a struct that is written out where all its fields are visible. -/
theorem field_of_memberwise {tree : SourceTree} {user : ModulePath} (haccessors : r.accessors = tree.accessors t user)
    (nodup : t.fieldNames.Nodup) (hv : ∀ f ∈ t.fields, f.visibility.admits t.module user = true) {d : FieldDecl}
    (hd : d ∈ t.fields) (modifiers : Modifiers) {f : PlannedField}
    (hf : f = (r.field t.memberwise ⟨d.name, d.type, modifiers, d.location⟩).1) :
    f.name = d.name ∧ f.descriptor = Descriptor.canonical d.type ∧ f.copy = some .field := by
  have hparameter : t.memberwise.parameter? d.name = some d.toParameter := by
    unfold Constructor.parameter? DeclaredType.memberwise
    rw [List.find?_map]
    exact congrArg (Option.map _) (t.find?_field nodup hd)
  have hdescriptor : (r.fieldDescriptor t.memberwise ⟨d.name, d.type, modifiers, d.location⟩).1 =
      Descriptor.canonical d.type := fieldDescriptor_of_declared hparameter rfl
  subst hf
  refine ⟨rfl, hdescriptor, ?_⟩
  show (r.fieldCopy _ (r.fieldDescriptor t.memberwise _).1).1 = some .field
  unfold fieldCopy
  rw [haccessors, SourceTree.find?_accessors nodup hv hd, hdescriptor]
  simp

end Request

section Literal

variable {tree : SourceTree} {o : Outcome} {path : String} {t : DeclaredType} {plan : BuilderPlan}

/-- The fields of a plan that writes its struct out are those of the struct. -/
theorem fields_of_literal (hs : tree.IsScanned) (ho : o ∈ tree.host.route) (hpath : o.directive.structPath? = some path)
    (ht : tree.findType path o.directive.module = some t) (nodup : t.fieldNames.Nodup) (hp : o.result = .ok plan)
    (hl : plan.construction = .literal) :
    plan.fields.map (fun f => (f.name, f.descriptor, f.copy)) =
      t.fields.map fun d => (d.name, Descriptor.canonical d.type, some .field) := by
  obtain ⟨hd, hresult⟩ := Host.ofDirective_of_mem_route ho
  obtain ⟨r, planning, hr, hplan⟩ := Outcome.ofDirective_eq_ok (hresult ▸ hp)
  obtain ⟨c, hc, hfields, hconstruction⟩ := Request.fields_of_plan hplan
  have hin := (Request.mem_of_constructor hc).1
  obtain ⟨honly, ⟨modifiers, hrequested⟩, haccessors, hv⟩ := Directive.requested_of_memberwise hs hd hpath ht hr
    ⟨c, hin, Request.memberwise_of_literal (hconstruction.symm.trans hl)⟩
  rw [hfields, hrequested, Directive.declaredParameters, honly c hin, List.map_map, List.map_map]
  refine List.map_congr_left fun d hd => ?_
  obtain ⟨hname, hdescriptor, hcopy⟩ := Request.field_of_memberwise haccessors nodup hv hd (modifiers d) rfl
  exact Prod.ext hname (Prod.ext hdescriptor hcopy)

/-- Such a plan copies the whole struct. -/
theorem suits_of_literal (hs : tree.IsScanned) (ho : o ∈ tree.host.route) (hpath : o.directive.structPath? = some path)
    (ht : tree.findType path o.directive.module = some t) (nodup : t.fieldNames.Nodup) (hp : o.result = .ok plan)
    (hl : plan.construction = .literal) :
    plan.fieldNames = t.fieldNames ∧ plan.Suits t ∧ plan.CopiesAll t := by
  have hfields := fields_of_literal hs ho hpath ht nodup hp hl
  have hnames : plan.fieldNames = t.fieldNames := by
    have h := congrArg (List.map Prod.fst) hfields
    rw [List.map_map, List.map_map] at h
    exact h
  have hplanned : ∀ f ∈ plan.fields, ∃ d ∈ t.fields, (d.name, Descriptor.canonical d.type, some .field) =
      (f.name, f.descriptor, f.copy) := by
    intro f hf
    have hm : (f.name, f.descriptor, f.copy) ∈ plan.fields.map fun f => (f.name, f.descriptor, f.copy) :=
      List.mem_map.mpr ⟨f, hf, rfl⟩
    rw [hfields] at hm
    exact List.mem_map.mp hm
  have hmem : plan ∈ tree.host.plans := by
    refine List.mem_filterMap.mpr ⟨o, ho, ?_⟩
    unfold Outcome.plan?
    rw [hp]
    rfl
  refine ⟨hnames, ⟨hnames ▸ nodup, ?_, Or.inl ⟨hl, fun f hf => ?_⟩⟩, fun d hd => ?_⟩
  · rw [hnames, BuilderPlan.declaredOrder, hl]
  · obtain ⟨d, hd, he⟩ := hplanned f hf
    obtain ⟨hname, hdescriptor, hcopy⟩ : d.name = f.name ∧ Descriptor.canonical d.type = f.descriptor ∧
        some .field = f.copy := by simpa using he
    refine ⟨?_, fun other ho hother => ?_⟩
    · unfold PlannedField.isRead
      rw [← hcopy]
    · obtain rfl : other = d := List.inj_on_of_nodup_map nodup ho hd (hother.trans hname.symm)
      rw [Host.required_eq hmem hf, hdescriptor]
  · have hm : (d.name, Descriptor.canonical d.type, some .field) ∈
        t.fields.map fun d => (d.name, Descriptor.canonical d.type, some AccessorKind.field) :=
      List.mem_map.mpr ⟨d, hd, rfl⟩
    rw [← hfields] at hm
    obtain ⟨f, hf, he⟩ := List.mem_map.mp hm
    obtain ⟨hname, -, hcopy⟩ : f.name = d.name ∧ f.descriptor = Descriptor.canonical d.type ∧
        f.copy = some .field := by simpa using he
    exact ⟨f, hf, hname, hcopy ▸ Option.some_ne_none _⟩

end Literal

namespace BuilderPlan

variable {V T : Type} {plan : BuilderPlan} {m : Meaning V T}

/-- What such a builder builds is the struct with a value for each field of the plan. -/
theorem exists_values_of_run (nodup : plan.fieldNames.Nodup) (hl : plan.construction = .literal) {start : Start T}
    {calls : Calls V} {x : T} (h : plan.run m start calls = .ok x) :
    ∃ values : List (String × Option V), values.map (·.1) = plan.fieldNames ∧ x = m.literal values := by
  have hnone : ∀ f ∈ plan.fields, ¬ f.IsMissing m start calls := by
    intro f hf hmissing
    obtain ⟨e, he⟩ := exists_error_of_isMissing nodup hf hmissing
    cases he.symm.trans h
  rw [run_eq_ok nodup hnone, assembled, hl] at h
  cases h
  exact ⟨_, List.map_map .., rfl⟩

end BuilderPlan

/-- A builder that writes its struct out has all fields of the struct, in order and with their declared
types, and reads each of them back. So what it builds names every field, and a finished value is
copied as a whole. -/
theorem literal_plan_is_complete {tree : SourceTree} {o : Outcome} {path : String} {plan : BuilderPlan}
    (hs : tree.IsScanned) (ho : o ∈ tree.host.route) (hpath : o.directive.structPath? = some path)
    (hp : o.result = .ok plan) (hl : plan.construction = .literal) :
    ∃ t, tree.findType path o.directive.module = some t ∧ (t.fieldNames.Nodup →
      plan.fields.map (fun f => (f.name, f.descriptor, f.copy)) =
          t.fields.map (fun d => (d.name, Descriptor.canonical d.type, some .field)) ∧
        ∀ (V T : Type) (m : Meaning V T),
          (∀ start calls x, plan.run m start calls = .ok x →
            ∃ values : List (String × Option V), values.map (·.1) = t.fieldNames ∧ x = m.literal values) ∧
          (m.ReadsBack → ∀ x, t.HasValue m x → plan.run m (.finished x) [] = .ok x)) := by
  obtain ⟨r, planning, hr, -⟩ := Outcome.ofDirective_eq_ok ((Host.ofDirective_of_mem_route ho).2 ▸ hp)
  obtain ⟨t, ht⟩ := Directive.exists_struct_of_requested hpath hr
  refine ⟨t, ht, fun nodup => ?_⟩
  obtain ⟨hnames, hsuits, hcopies⟩ := suits_of_literal hs ho hpath ht nodup hp hl
  refine ⟨fields_of_literal hs ho hpath ht nodup hp hl, fun V T m => ⟨fun start calls x hx => ?_, fun hm x hx => ?_⟩⟩
  · rw [← hnames]
    exact BuilderPlan.exists_values_of_run hsuits.1 hl hx
  · exact BuilderPlan.run_finished hm hsuits hcopies hx

/-! ### Modifiers that do not count -/

namespace SourceTree

/-- A struct in another module with a modifier that its declaration does not allow. -/
def tallies : SourceTree :=
  .ofSources [("lib.rs", "mod inner { pub struct Tally { #[builder(nullable_element)] pub names: Vec<u8>, pub best: Option<u8> } } #[builder_of(target = inner::Tally)] struct Marker;")]

/-- A plan for the struct of a path writes it out. -/
def writesOut (tree : SourceTree) (path : String) : Bool :=
  tree.host.route.any fun o => o.directive.structPath? == some path && o.plan?.any (·.construction == .literal) &&
    (tree.findType path o.directive.module).any fun t =>
      decide t.fieldNames.Nodup && t.fieldNames == ["names", "best"]

set_option maxRecDepth 100000 in
theorem tallies_writesOut : tallies.writesOut "inner::Tally" = true :=
  (congrArg (writesOut · "inner::Tally") (ofSources_ofList [("lib.rs", _)])).trans (by decide +kernel)

end SourceTree

open SourceTree in
theorem literal_plan_is_complete_for_tallies :
    ∃ o ∈ tallies.host.route, ∃ plan t, o.result = .ok plan ∧
      tallies.findType "inner::Tally" o.directive.module = some t ∧ t.fieldNames = ["names", "best"] ∧
      plan.fields.map (fun f => (f.name, f.descriptor, f.copy)) =
        t.fields.map (fun d => (d.name, Descriptor.canonical d.type, some .field)) := by
  obtain ⟨o, ho, h⟩ := List.any_eq_true.mp tallies_writesOut
  obtain ⟨hasked, htype⟩ := Bool.and_eq_true_iff.mp h
  obtain ⟨hpath, hplan⟩ := Bool.and_eq_true_iff.mp hasked
  obtain ⟨plan, hp, hl⟩ := (Option.any_eq_true ..).mp hplan
  obtain ⟨t, ht, hnames⟩ := (Option.any_eq_true ..).mp htype
  obtain ⟨nodup, hnames⟩ := Bool.and_eq_true_iff.mp hnames
  have hresult := Outcome.result_of_plan? hp
  obtain ⟨u, hu, hcomplete⟩ :=
    literal_plan_is_complete (isScanned_ofSources _) ho (beq_iff_eq.mp hpath) hresult (beq_iff_eq.mp hl)
  obtain rfl : u = t := Option.some.inj (hu.symm.trans ht)
  exact ⟨o, ho, plan, u, hresult, hu, beq_iff_eq.mp hnames, (hcomplete (of_decide_eq_true nodup)).1⟩

end BuilderSynthesis
