/-
  BuilderSynthesis.Proofs.ExternalBuilders — what a builder for a struct elsewhere can reach.

  Such a builder lies in the module of its directive. It constructs the struct only in a way that this
  module can use, and copies only through fields and getters that it can see
  (`external_plan_is_reachable`). Writing a struct out takes all its fields and the struct itself, so
  then the struct can be named there (`external_target_is_visible_of_literal`). A function that
  constructs it is judged by its own visibility alone: one that is open to all makes a builder of a
  struct that the module cannot name (`an_open_function_gives_a_private_struct_a_builder`).
-/

import BuilderSynthesis.Proofs.NarrowestVisibility
import BuilderSynthesis.Proofs.Planning
import BuilderSynthesis.Proofs.ReadableProperties

namespace BuilderSynthesis

namespace SourceTree

variable {tree : SourceTree} {t : DeclaredType} {user : ModulePath}

/-! ## What can be read -/

/-- A property of a struct can be read from a module in a way: its field is visible there, or a getter
of it can be called. -/
def Reads (tree : SourceTree) (t : DeclaredType) (user : ModulePath) (property : String) : AccessorKind → Prop
  | .field => ∃ f ∈ t.fields, f.name = property ∧ f.visibility.admits t.module user = true
  | .getter method => ∃ b ∈ tree.blocksOf t, ∃ g ∈ b.getters,
      g.property = property ∧ g.method = method ∧ g.visibility.admits b.module user = true

/-- An accessor for a module reads its property there. -/
theorem reads_of_mem_accessors {a : Accessor} (h : a ∈ tree.accessors t user) :
    tree.Reads t user a.property a.kind := by
  rcases mem_accessors_iff.mp h with hfield | ⟨-, hfirst⟩
  · obtain ⟨f, hf, hv, rfl⟩ := DeclaredType.mem_fieldAccessors_iff.mp hfield
    exact ⟨f, hf, rfl, hv⟩
  · obtain ⟨o, ho, rfl⟩ := Option.map_eq_some_iff.mp hfirst
    have hsuits : o.suits o.property user = true := (List.find?_eq_some_iff_append.mp ho).1
    obtain ⟨b, hb, hin⟩ := List.mem_flatMap.mp (List.mem_of_find?_eq_some ho)
    obtain ⟨g, hg, rfl⟩ := List.mem_map.mp hin
    exact ⟨b, hb, g, hg, rfl, rfl, (Offer.suits_iff.mp hsuits).2⟩

end SourceTree

/-! ## What is requested -/

namespace Directive

variable {d : Directive} {host : Host} {path : String} {suffix : Option String} {useConstructors : Bool} {v : Visibility}

/-- A builder for a struct elsewhere is requested with constructors that the directive's module can
reach, and with the fields that some constructor takes or the first of these. -/
theorem requestedExternally_eq_ok {r : Request}
    (h : d.requestedExternally host path suffix useConstructors v = .ok r) :
    ∃ t, host.findType path d.module = some t ∧ t.shape = .named ∧ r.accessors = host.accessors t d.module ∧
      (∀ c ∈ r.constructors, c ∈ host.constructors t ∧ c.isAccessibleFrom d.module = true) ∧
      (r.fields = eligible (metadata host t) ∨ ∃ c ∈ r.constructors, r.fields = c.parameters) := by
  obtain ⟨t, primary, others, hn, hreachable, rfl⟩ := exists_of_requestedExternally h
  refine ⟨t, namedStruct_eq_ok hn, named_of_namedStruct hn, rfl, fun c hc => ?_, ?_⟩
  · have hin : c ∈ (host.constructors t).filter (·.isAccessibleFrom d.module) := by
      rw [hreachable]
      cases useConstructors with
      | true => exact List.mem_singleton.mp hc ▸ List.mem_cons_self
      | false => exact hc
    exact List.mem_filter.mp hin
  · cases useConstructors with
    | true => exact Or.inr ⟨primary, List.mem_cons_self, rfl⟩
    | false => exact Or.inl rfl

end Directive

/-! ## What is planned -/

section External

variable {tree : SourceTree} {o : Outcome} {path : String} {suffix : Option String} {useConstructors : Bool}
  {v : Visibility} {plan : BuilderPlan}

/-- An external plan follows a constructor that the directive's module can reach, and copies by what
can be read there. -/
theorem exists_constructor_of_external (ho : o ∈ tree.host.route)
    (hk : o.directive.kind = .external path suffix useConstructors v) (hp : o.result = .ok plan) :
    ∃ t, tree.findType path o.directive.module = some t ∧
      (∃ c ∈ tree.constructors t, c.isAccessibleFrom o.directive.module = true ∧
        plan.construction = Request.construction c) ∧
      ∀ f ∈ plan.fields, ∀ kind, f.copy = some kind → tree.Reads t o.directive.module f.name kind := by
  obtain ⟨r, planning, hr, hplan⟩ := Outcome.ofDirective_eq_ok ((Host.ofDirective_of_mem_route ho).2 ▸ hp)
  rw [Directive.requested, hk] at hr
  obtain ⟨t, ht, -, haccessors, hconstructors, -⟩ := Directive.requestedExternally_eq_ok hr
  obtain ⟨c, hc, hfields, hconstruction⟩ := Request.fields_of_plan hplan
  obtain ⟨hin, haccessible⟩ := hconstructors c (Request.mem_of_constructor hc).1
  refine ⟨t, ht, ⟨c, hin, haccessible, hconstruction⟩, fun f hf kind hcopy => ?_⟩
  rw [hfields] at hf
  obtain ⟨p, -, rfl⟩ := List.mem_map.mp hf
  obtain ⟨a, ha, hproperty, hkind⟩ := Request.exists_accessor_of_copy hcopy
  rw [haccessors] at ha
  have hreads := SourceTree.reads_of_mem_accessors ha
  rw [hproperty, hkind] at hreads
  exact hreads

/-- Where an external plan writes the struct out, the struct is its only constructor, and the module
of the directive reaches it. -/
theorem memberwise_of_literal_external (hs : tree.IsScanned) (ho : o ∈ tree.host.route)
    (hk : o.directive.kind = .external path suffix useConstructors v) (hp : o.result = .ok plan)
    (hl : plan.construction = .literal) :
    ∃ t, tree.findType path o.directive.module = some t ∧ tree.constructors t = [t.memberwise] ∧
      t.memberwise.isAccessibleFrom o.directive.module = true := by
  obtain ⟨t, ht, ⟨c, hc, haccessible, hconstruction⟩, -⟩ := exists_constructor_of_external ho hk hp
  rcases SourceTree.constructors_cases hs hc with ⟨function, hfunction⟩ | ⟨rfl, hall⟩
  · have hmemberwise := Request.memberwise_of_literal (hconstruction.symm.trans hl)
    rw [hfunction] at hmemberwise
    cases hmemberwise
  · exact ⟨t, ht, hall, haccessible⟩

/-- A builder for a struct elsewhere constructs it by a constructor that its module can reach. If it
writes the struct out, it can see every field. What it copies it reads through fields and getters that
it can see. -/
theorem external_plan_is_reachable (hs : tree.IsScanned) (ho : o ∈ tree.host.route)
    (hk : o.directive.kind = .external path suffix useConstructors v) (hp : o.result = .ok plan) :
    ∃ t, tree.findType path o.directive.module = some t ∧
      (∃ c ∈ tree.constructors t, c.isAccessibleFrom o.directive.module = true ∧
        plan.construction = Request.construction c) ∧
      (plan.construction = .literal → ∀ f ∈ t.fields, f.visibility.admits t.module o.directive.module = true) ∧
      ∀ f ∈ plan.fields, ∀ kind, f.copy = some kind → tree.Reads t o.directive.module f.name kind := by
  obtain ⟨t, ht, hconstruction, hcopies⟩ := exists_constructor_of_external ho hk hp
  refine ⟨t, ht, hconstruction, fun hl => ?_, hcopies⟩
  obtain ⟨u, hu, -, haccessible⟩ := memberwise_of_literal_external hs ho hk hp hl
  obtain rfl : u = t := Option.some.inj (hu.symm.trans ht)
  rw [DeclaredType.memberwise_isAccessibleFrom, Bool.and_eq_true_iff] at haccessible
  exact List.all_eq_true.mp haccessible.2

/-- A struct that is written out can be named where its builder is. A struct that is constructed by a
function need not be: only the function has to be accessible. -/
theorem external_target_is_visible_of_literal (hs : tree.IsScanned) (ho : o ∈ tree.host.route)
    (hk : o.directive.kind = .external path suffix useConstructors v) (hp : o.result = .ok plan) :
    ∃ t, tree.findType path o.directive.module = some t ∧
      (plan.construction = .literal → t.visibility.admits t.module o.directive.module = true) ∧
      ∀ function arguments, plan.construction = .call function arguments →
        ∃ c ∈ tree.constructors t, c.kind = .function function ∧ c.isAccessibleFrom o.directive.module = true := by
  obtain ⟨t, ht, ⟨c, hc, haccessible, hconstruction⟩, -⟩ := exists_constructor_of_external ho hk hp
  refine ⟨t, ht, fun hl => ?_, fun function arguments hcall => ?_⟩
  · obtain ⟨u, hu, -, hmemberwise⟩ := memberwise_of_literal_external hs ho hk hp hl
    obtain rfl : u = t := Option.some.inj (hu.symm.trans ht)
    rw [DeclaredType.memberwise_isAccessibleFrom, Bool.and_eq_true_iff] at hmemberwise
    exact hmemberwise.1
  · refine ⟨c, hc, ?_, haccessible⟩
    have hmade := hconstruction.symm.trans hcall
    unfold Request.construction at hmade
    split at hmade
    · rename_i name hname
      cases hmade
      exact hname
    · cases hmade

end External

/-! ## A closed module -/

namespace SourceTree

/-- Asked for a path from the root of a crate, the sources give a plan that is constructed in a way. -/
def constructsAs (tree : SourceTree) (path : String) (construction : Construction) : Bool :=
  tree.host.route.any fun o => o.directive == ⟨.external path none false .inherited, .crateRoot 0, o.directive.location⟩ &&
    o.plan?.any (·.construction == construction)

theorem exists_of_constructsAs {tree : SourceTree} {path : String} {construction : Construction}
    (h : tree.constructsAs path construction = true) :
    ∃ o ∈ tree.host.route, ∃ plan, o.result = .ok plan ∧ plan.construction = construction ∧
      o.directive.kind = .external path none false .inherited ∧ o.directive.module = .crateRoot 0 := by
  obtain ⟨o, ho, h⟩ := List.any_eq_true.mp h
  obtain ⟨hd, h⟩ := Bool.and_eq_true_iff.mp h
  obtain ⟨plan, hp, hc⟩ := (Option.any_eq_true ..).mp h
  rw [beq_iff_eq] at hd
  exact ⟨o, ho, plan, Outcome.result_of_plan? hp, beq_iff_eq.mp hc, by rw [hd], by rw [hd]⟩

/-- A module with an open struct, and with a private one that an open function constructs. Builders for
both are asked for outside. -/
def chamber : SourceTree :=
  .ofSources [("lib.rs", "mod inner { pub struct Open { pub a: u8 } struct Secret { a: u8 } impl Secret { pub fn new(a: u8) -> Self { Self { a } } } } #[builder_of(target = inner::Open)] struct First; #[builder_of(target = inner::Secret)] struct Second;")]

/-- Both get one, though the private struct cannot be named there. -/
def letsOut (tree : SourceTree) : Bool :=
  tree.constructsAs "inner::Open" .literal && tree.constructsAs "inner::Secret" (.call "new" ["a"]) &&
    (tree.findType "inner::Secret" (.crateRoot 0)).any fun t => !t.visibility.admits t.module (.crateRoot 0)

set_option maxRecDepth 100000 in
theorem chamber_letsOut : chamber.letsOut = true :=
  (congrArg letsOut (ofSources_ofList [("lib.rs", _)])).trans (by decide +kernel)

end SourceTree

open SourceTree

theorem external_plan_is_reachable_for_an_open_struct :
    ∃ o ∈ chamber.host.route, ∃ plan, o.result = .ok plan ∧ plan.construction = .literal ∧
      ∃ t, chamber.findType "inner::Open" o.directive.module = some t ∧
        ∀ f ∈ t.fields, f.visibility.admits t.module o.directive.module = true := by
  obtain ⟨hplans, -⟩ := Bool.and_eq_true_iff.mp chamber_letsOut
  obtain ⟨o, ho, plan, hp, hl, hk, -⟩ := exists_of_constructsAs (Bool.and_eq_true_iff.mp hplans).1
  obtain ⟨t, ht, -, hvisible, -⟩ := external_plan_is_reachable (isScanned_ofSources _) ho hk hp
  exact ⟨o, ho, plan, hp, hl, t, ht, hvisible hl⟩

theorem external_target_is_visible_for_an_open_struct :
    ∃ o ∈ chamber.host.route, ∃ plan, o.result = .ok plan ∧ plan.construction = .literal ∧
      ∃ t, chamber.findType "inner::Open" o.directive.module = some t ∧
        t.visibility.admits t.module o.directive.module = true := by
  obtain ⟨hplans, -⟩ := Bool.and_eq_true_iff.mp chamber_letsOut
  obtain ⟨o, ho, plan, hp, hl, hk, -⟩ := exists_of_constructsAs (Bool.and_eq_true_iff.mp hplans).1
  obtain ⟨t, ht, hvisible, -⟩ := external_target_is_visible_of_literal (isScanned_ofSources _) ho hk hp
  exact ⟨o, ho, plan, hp, hl, t, ht, hvisible hl⟩

theorem an_open_function_gives_a_private_struct_a_builder :
    ∃ o ∈ chamber.host.route, ∃ plan, o.result = .ok plan ∧
      o.directive.kind = .external "inner::Secret" none false .inherited ∧
      ∃ t, chamber.findType "inner::Secret" o.directive.module = some t ∧
        t.visibility.admits t.module o.directive.module = false := by
  obtain ⟨hplans, hhidden⟩ := Bool.and_eq_true_iff.mp chamber_letsOut
  obtain ⟨o, ho, plan, hp, -, hk, hm⟩ := exists_of_constructsAs (Bool.and_eq_true_iff.mp hplans).2
  obtain ⟨t, ht, hv⟩ := (Option.any_eq_true ..).mp hhidden
  refine ⟨o, ho, plan, hp, hk, t, hm ▸ ht, ?_⟩
  rw [hm]
  exact Bool.not_eq_true' _ ▸ hv

end BuilderSynthesis
