/-
  BuilderSynthesis.Proofs.OwnStructs — builders that are asked for on their own struct.

  A directive on a struct finds a struct of that name in its own module. The fields of the builder are
  those that some constructor takes, each with the modifiers of the field and of the first parameter of
  its name (`type_directive_plans_its_struct`).

  A directive on a function stands in a block of functions of a type, which may lie in another module
  than the type. The lookup from there and the rule for which blocks belong to a struct fit together:
  a struct of the same name beside the block would have been found instead. So the block belongs to the
  struct that is found, and its constructors are reached (`constructor_directive_reaches_its_constructor`).
-/

import Mathlib.Data.List.Forall2
import BuilderSynthesis.Proofs.AnchoredPaths
import BuilderSynthesis.Proofs.Paths
import BuilderSynthesis.Proofs.Planning

namespace BuilderSynthesis

open Syntax

/-! ## Refusals -/

theorem head?_of_refusal {first rest : String} {location : Location} {c : Char} (hne : first.toList ≠ [])
    (hc : first.toList.head? ≠ some c) : (Diagnostic.error (first ++ rest) location).message.toList.head? ≠ some c := by
  rw [Diagnostic.error, head?_toList_append _ hne]
  exact hc

/-- No reason to refuse a request begins like a failed lookup. -/
theorem Request.head?_of_plan {r : Request} {problem : Diagnostic} (h : r.plan = .error problem) :
    problem.message.toList.head? ≠ some 'c' := by
  have hunit : ∀ p, r.unitProblem? = some p → p.message.toList.head? ≠ some 'c' := by
    intro p hp
    unfold unitProblem? at hp
    split at hp
    · cases hp
    · cases hp
      rw [String.append_assoc]
      exact head?_of_refusal (by decide) (by decide)
  have hfield : ∀ f p, r.fieldProblem? f = some p → p.message.toList.head? ≠ some 'c' := by
    intro f p hp
    unfold fieldProblem? at hp
    split at hp
    · cases hp
      simp only [String.append_assoc]
      exact head?_of_refusal (by decide) (by decide)
    · split at hp
      · cases hp
        simp only [String.append_assoc]
        exact head?_of_refusal (by decide) (by decide)
      · cases hp
  rcases reason_of_plan h with hu | ⟨f, -, hf⟩ | rfl
  · exact hunit _ hu
  · exact hfield f _ hf
  · unfold constructorProblem
    simp only [String.append_assoc]
    exact head?_of_refusal (by decide) (by decide)

/-- A refused directive is refused where it asks or where it is planned. -/
theorem Outcome.ofDirective_eq_error {host : Host} {d : Directive} {problem : Diagnostic}
    (h : (ofDirective host d).result = .error problem) :
    d.requested host = .error problem ∨ ∃ r, d.requested host = .ok r ∧ r.plan = .error problem := by
  unfold ofDirective at h
  split at h
  · rename_i e he
    cases h
    cases hr : d.requested host with
    | error first =>
      rw [hr] at he
      cases he
      exact Or.inl rfl
    | ok r =>
      rw [hr] at he
      exact Or.inr ⟨r, rfl, he⟩
  · cases h

/-! ## Directives on structs -/

/-- A parameter asks for a field of a struct with these constructors: the modifiers are those of the
field, together with those of the first parameter of its name, whose default wins. -/
structure Parameter.AsksFor (p : Parameter) (constructors : List Constructor) (f : FieldDecl) : Prop where
  name : p.name = f.name
  type : p.type = f.type
  location : p.location = f.location
  modifiers : ∃ first, (constructors.flatMap Constructor.parameters).find? (·.name == f.name) = some first ∧
    p.modifiers.nullableElement = (f.modifiers.nullableElement || first.modifiers.nullableElement) ∧
    p.modifiers.mutable = (f.modifiers.mutable || first.modifiers.mutable) ∧
    p.modifiers.default = first.modifiers.default.or f.modifiers.default

/-- The fields whose name some constructor has for a parameter. -/
def DeclaredType.takenFields (t : DeclaredType) (constructors : List Constructor) : List FieldDecl :=
  t.fields.filter fun f => constructors.any fun c => c.parameterNames.contains f.name

namespace Directive

variable {t : DeclaredType} {constructors : List Constructor}

theorem isEligible_eq (fields : List FieldDecl) (constructors : List Constructor) (f : FieldDecl) :
    Metadata.isEligible ⟨fields, constructors⟩ f = constructors.any fun c => c.parameterNames.contains f.name := by
  rw [Bool.eq_iff_iff]
  unfold Metadata.isEligible Metadata.parameter? Constructor.parameterNames
  simp only [List.find?_isSome, List.mem_flatMap, List.any_eq_true, List.contains_eq_mem, List.mem_map, decide_eq_true_eq,
    beq_iff_eq]
  constructor
  · rintro ⟨p, ⟨c, hc, hp⟩, hn⟩
    exact ⟨c, hc, p, hp, hn⟩
  · rintro ⟨c, hc, p, hp, hn⟩
    exact ⟨p, ⟨c, hc, hp⟩, hn⟩

/-- What is asked for on a struct are its taken fields, one after the other. -/
theorem asksFor_eligible (t : DeclaredType) (constructors : List Constructor) :
    List.Forall₂ (fun f p => Parameter.AsksFor p constructors f) (t.takenFields constructors)
      (eligible ⟨t.fields, constructors⟩) := by
  have htaken : (Metadata.mk t.fields constructors).eligible = t.takenFields constructors :=
    List.filter_congr fun f _ => isEligible_eq t.fields constructors f
  unfold eligible
  rw [htaken, List.forall₂_map_right_iff, List.forall₂_same]
  intro f hf
  have hsome : (Metadata.mk t.fields constructors).isEligible f = true := by
    rw [isEligible_eq]
    exact (List.mem_filter.mp hf).2
  obtain ⟨first, hfirst⟩ := Option.isSome_iff_exists.mp hsome
  have heffective : (Metadata.mk t.fields constructors).effective f = f.modifiers.unitedWith first.modifiers := by
    unfold Metadata.effective
    rw [hfirst]
  refine ⟨rfl, rfl, rfl, first, hfirst, ?_⟩
  rw [heffective]
  exact ⟨rfl, rfl, Option.orElse_eq_or ..⟩

end Directive

/-- A directive on a struct finds a struct of that name in its own module, so it is never refused for want
of one. A plan names the struct by its bare name, and has the fields that some constructor takes, in the
order in which they are declared. -/
theorem type_directive_plans_its_struct {tree : SourceTree} {o : Outcome} {name : String} (hs : tree.IsScanned)
    (ho : o ∈ tree.host.route) (hk : o.directive.kind = .type name) :
    ∃ t ∈ tree.types, tree.findType name o.directive.module = some t ∧ t.name = name ∧ t.module = o.directive.module ∧
      (∀ problem, o.result = .error problem →
        problem.message ≠ "cannot find type `" ++ name ++ "` in the scanned sources") ∧
      ∀ plan, o.result = .ok plan → plan.target.path = name ∧
        plan.fieldNames = (t.takenFields (tree.constructors t)).map FieldDecl.name ∧
        ∃ (r : Request) (c : Constructor), c ∈ tree.constructors t ∧
          List.Forall₂ (fun f p => Parameter.AsksFor p (tree.constructors t) f) (t.takenFields (tree.constructors t)) r.fields ∧
          plan.fields = r.fields.map fun p => (r.field c p).1 := by
  obtain ⟨hd, hresult⟩ := Host.ofDirective_of_mem_route ho
  obtain ⟨hname, hown⟩ := SourceTree.exists_declared_of_type hs hd hk
  obtain ⟨t, hin, ht, htname, hmodule⟩ := SourceTree.exists_findType_own hname hown
  have hrequested : o.directive.requested tree.host = o.directive.requestedByType tree.host name := by
    rw [Directive.requested, hk]
  refine ⟨t, hin, ht, htname, hmodule, fun problem hp => ?_, fun plan hp => ?_⟩
  · have hhead : problem.message.toList.head? ≠ some 'c' := by
      rcases Outcome.ofDirective_eq_error (hresult.symm.trans hp) with he | ⟨r, -, hplan⟩
      · rw [hrequested] at he
        unfold Directive.requestedByType at he
        cases hn : o.directive.namedStruct tree.host name with
        | ok found =>
          rw [hn] at he
          cases he
        | error first =>
          rw [hn] at he
          cases he
          unfold Directive.namedStruct at hn
          rw [show tree.host.findType name o.directive.module = some t from ht] at hn
          dsimp only at hn
          split at hn
          · cases hn
          · cases hn
            simp only [String.append_assoc]
            exact head?_of_refusal (by decide) (by decide)
      · exact Request.head?_of_plan hplan
    rintro heq
    refine hhead ?_
    rw [heq, String.append_assoc, head?_toList_append _ (by decide)]
    decide
  · obtain ⟨r, planning, hr, hplan⟩ := Outcome.ofDirective_eq_ok (hresult.symm.trans hp)
    rw [hrequested] at hr
    obtain ⟨found, hfound, hr⟩ := exists_of_bind hr
    obtain rfl : found = t := Option.some.inj ((Directive.namedStruct_eq_ok hfound).symm.trans ht)
    cases hr
    obtain ⟨c, hc, hfields, -⟩ := Request.fields_of_plan hplan
    obtain ⟨-, htarget, -⟩ := Request.plan_eq_ok hplan
    have hasks := Directive.asksFor_eligible found (tree.constructors found)
    refine ⟨?_, ?_, _, c, (Request.mem_of_constructor hc).1, hasks, hfields⟩
    · rw [htarget]
      show Directive.localPath found o.directive.module = name
      rw [Directive.localPath, if_pos (beq_iff_eq.mpr hmodule), htname]
    · have hnames : ∀ {fs : List FieldDecl} {ps : List Parameter},
          List.Forall₂ (fun f p => Parameter.AsksFor p (tree.constructors found) f) fs ps →
            ps.map Parameter.name = fs.map FieldDecl.name := by
        intro fs ps h
        induction h with
        | nil => rfl
        | cons h _ ih => rw [List.map_cons, List.map_cons, h.name, ih]
      rw [BuilderPlan.fieldNames, hfields, List.map_map]
      exact hnames hasks

namespace SourceTree

/-- A struct whose constructor takes two of its fields, in another order. -/
def scores : SourceTree :=
  .ofSources [("lib.rs", "#[derive(Builder)] struct Score \x7b #[builder(mutable)] tags: Vec<u8>, best: u8, total: u8 \x7d impl Score \x7b fn new(#[builder(default = 1)] best: u8, tags: Vec<u8>) -> Self \x7b\x7d \x7d")]

/-- A plan is made for a directive of this kind, and has these fields. -/
def plansFields (tree : SourceTree) (kind : DirectiveKind) (names : List String) : Bool :=
  tree.host.route.any fun o => o.directive.kind == kind && o.plan?.any (·.fieldNames == names)

set_option maxRecDepth 100000 in
theorem scores_plansFields : scores.plansFields (.type "Score") ["tags", "best"] = true :=
  (congrArg (plansFields · (.type "Score") ["tags", "best"]) (ofSources_ofList [("lib.rs", _)])).trans (by decide +kernel)

end SourceTree

open SourceTree in
theorem type_directive_plans_its_struct_of_scores :
    ∃ o ∈ scores.host.route, ∃ plan t, o.result = .ok plan ∧ scores.findType "Score" o.directive.module = some t ∧
      t.module = o.directive.module ∧ plan.target.path = "Score" ∧
      (t.takenFields (scores.constructors t)).map FieldDecl.name = ["tags", "best"] := by
  obtain ⟨o, ho, h⟩ := List.any_eq_true.mp scores_plansFields
  obtain ⟨hkind, hplan⟩ := Bool.and_eq_true_iff.mp h
  obtain ⟨plan, hp, hnames⟩ := (Option.any_eq_true ..).mp hplan
  have hresult := Outcome.result_of_plan? hp
  obtain ⟨t, -, ht, -, hmodule, -, hplans⟩ :=
    type_directive_plans_its_struct (isScanned_ofSources _) ho (beq_iff_eq.mp hkind)
  obtain ⟨hpath, hfields, -⟩ := hplans plan hresult
  exact ⟨o, ho, plan, t, hresult, ht, hmodule, hpath, hfields.symm.trans (beq_iff_eq.mp hnames)⟩

/-! ## Directives on functions -/

namespace Scan

variable {file : String} {module : ModulePath} {typeName function : String} {d : Directive}

/-- The parameters of a constructor are those of a function, each a plain binding, in order. -/
def BindsEach (inputs : List FunctionInput) (parameters : List Parameter) : Prop :=
  List.Forall₂ (fun input p => ∃ attributes nameAt tokens type,
    input = .typed attributes (.binding p.name nameAt false false) tokens type ∧ p.type = TypeRef.ofType type)
    inputs parameters

/-- A directive stands on a function of a block of functions of a type, and the function is this
constructor of the type. -/
structure Annotates (file : String) (parts : List (ModulePath × Item)) (d : Directive) (typeName : String)
    (f : FunctionItem) (c : Constructor) : Prop where
  stands : ∃ attributes ofTrait subject functions,
    (d.module, Item.functions attributes ofTrait subject functions) ∈ parts ∧
      blockName? ofTrait subject = some typeName ∧ f ∈ functions
  marked : ∃ attr ∈ f.attributes ++ f.innerAttributes, isBuilder attr = true ∧ d.location = locate file attr.position
  named : d.kind = .constructor typeName f.signature.name
  reads : (candidate file d.module typeName f).1 = .constructor c
  called : c.kind = .function f.signature.name
  binds : BindsEach f.signature.inputs c.parameters

theorem bindsEach_of_constructorParameters {inputs : List FunctionInput} {parameters : List Parameter}
    (h : (constructorParameters file inputs).1 = .ok parameters) : BindsEach inputs parameters := by
  induction inputs generalizing parameters with
  | nil =>
    cases h
    exact .nil
  | cons input rest ih =>
    cases input with
    | receiver reference mutable tokens => cases h
    | typed attributes pattern tokens type =>
      unfold constructorParameters at h
      split at h
      · simp only at h
        cases hr : (constructorParameters file rest).1 with
        | error unfit =>
          rw [hr] at h
          cases h
        | ok others =>
          rw [hr] at h
          cases h
          exact .cons ⟨_, _, _, _, rfl, rfl⟩ (ih hr)
      · cases h

theorem bindsEach_of_candidate {f : FunctionItem} {c : Constructor}
    (h : (candidate file module typeName f).1 = .constructor c) : BindsEach f.signature.inputs c.parameters :=
  bindsEach_of_constructorParameters (parameters_of_candidate h).2

/-- A directive on a function becomes one for a constructor only where the function is one. -/
theorem constructor_of_functionDirective {name : Option String} {f : FunctionItem} {found : Candidate} {attr : Attribute}
    (h : functionDirective name f found attr = some (.constructor typeName function)) :
    isBuilder attr = true ∧ name = some typeName ∧ f.signature.name = function ∧ ∃ c, found = .constructor c := by
  unfold functionDirective at h
  simp only at h
  split at h
  · cases h
  · split at h
    · rename_i hmark
      split at h
      · cases h
        exact ⟨hmark, rfl, rfl, _, rfl⟩
      · cases h
      · cases h
    · cases h

theorem constructor_not_mem_itemDirectives {v : Visibility} {own : DirectiveKind} {attrs : List Attribute}
    (hk : d.kind = .constructor typeName function) (hown : own ≠ .constructor typeName function) :
    .directive d ∉ itemDirectives file module v own attrs := by
  intro h
  rcases (directive_of_mem_itemDirectives h).2 with ho | ho
  · exact hown (ho.symm.trans hk)
  · unfold Directive.isExternal at ho
    rw [hk] at ho
    cases ho

theorem annotates_of_mem_blockFindings {name : Option String} {functions : List FunctionItem}
    (hd : .directive d ∈ blockFindings file module name functions) (hk : d.kind = .constructor typeName function) :
    d.module = module ∧ name = some typeName ∧ ∃ f ∈ functions, ∃ c,
      (∃ attr ∈ f.attributes ++ f.innerAttributes, isBuilder attr = true ∧ d.location = locate file attr.position) ∧
      f.signature.name = function ∧ (candidate file module typeName f).1 = .constructor c ∧
      ∃ b, .block b ∈ blockFindings file module name functions ∧ b.typeName = typeName ∧ b.module = module ∧
        c ∈ b.constructors := by
  have hfunction : ∃ f ∈ functions, .directive d ∈ (functionFindings file module name f).2 := by
    have hread : ∀ {findings : List Finding},
        findings = ((functions.map fun f => (f, functionFindings file module name f)).flatMap (·.2.2)) →
          .directive d ∈ findings → ∃ f ∈ functions, .directive d ∈ (functionFindings file module name f).2 := by
      rintro _ rfl hin
      obtain ⟨read, hr, hf⟩ := List.mem_flatMap.mp hin
      obtain ⟨f, hfs, rfl⟩ := List.mem_map.mp hr
      exact ⟨f, hfs, hf⟩
    unfold blockFindings at hd
    cases name with
    | none => exact hread rfl hd
    | some type =>
      rcases List.mem_append.mp hd with hd | hd
      · exact hread rfl hd
      · exact Finding.noConfusion (List.mem_singleton.mp hd)
  obtain ⟨f, hf, hd⟩ := hfunction
  rcases List.mem_append.mp hd with hd | hd
  · rcases List.mem_append.mp hd with hd | hd
    · obtain ⟨problem, -, he⟩ := List.mem_map.mp hd
      cases he
    · obtain ⟨attr, hattr, ha⟩ := List.mem_filterMap.mp hd
      obtain ⟨kind, hkind, he⟩ := Option.map_eq_some_iff.mp ha
      cases he
      obtain ⟨hmark, rfl, hname, c, hc⟩ := constructor_of_functionDirective (hkind.trans (congrArg some hk))
      refine ⟨rfl, rfl, f, hf, c, ⟨attr, hattr, hmark, rfl⟩, hname, hc, _,
        List.mem_append_right _ (List.mem_singleton.mpr rfl), rfl, rfl, ?_⟩
      refine List.mem_filterMap.mpr ⟨_, List.mem_map.mpr ⟨f, hf, rfl⟩, ?_⟩
      have hread : (functionFindings file module (some typeName) f).1 = .constructor c := hc
      simp only [hread]
  · split at hd
    · exact Finding.noConfusion (List.mem_singleton.mp hd)
    · cases hd

/-- A directive for a constructor stands on a function of a block, which is found together with it. -/
theorem annotates_of_mem_outerFindings {parts : List (ModulePath × Item)} {item : Item} (hp : (module, item) ∈ parts)
    (hd : .directive d ∈ outerFindings file module item) (hk : d.kind = .constructor typeName function) :
    ∃ f c, Annotates file parts d typeName f c ∧ f.signature.name = function ∧
      (∃ attributes ofTrait subject functions, item = .functions attributes ofTrait subject functions ∧
        blockName? ofTrait subject = some typeName) ∧
      ∃ b, .block b ∈ outerFindings file module item ∧ b.typeName = typeName ∧ b.module = d.module ∧
        c ∈ b.constructors := by
  cases item with
  | functions attributes ofTrait subject functions =>
    rcases List.mem_append.mp hd with hd | hd
    · exact absurd hd (constructor_not_mem_itemDirectives hk DirectiveKind.noConfusion)
    · obtain ⟨hm, hname, f, hf, c, hmarked, hfn, hc, b, hb, hbn, hbm, hcb⟩ := annotates_of_mem_blockFindings hd hk
      subst hm
      exact ⟨f, c, ⟨⟨_, _, _, _, hp, hname, hf⟩, hmarked, hfn ▸ hk, hc, kind_of_candidate hc, bindsEach_of_candidate hc⟩,
        hfn, ⟨_, _, _, _, rfl, hname⟩, b, List.mem_append_right _ hb, hbn, hbm, hcb⟩
  | struct s =>
    rcases List.mem_append.mp hd with hd | hd
    · rcases List.mem_append.mp hd with hd | hd
      · exact absurd hd (constructor_not_mem_itemDirectives hk DirectiveKind.noConfusion)
      · obtain ⟨problem, -, he⟩ := List.mem_map.mp hd
        cases he
    · exact Finding.noConfusion (List.mem_singleton.mp hd)
  | module attributes v name content => exact absurd hd (constructor_not_mem_itemDirectives hk DirectiveKind.noConfusion)
  | function f => exact absurd hd (constructor_not_mem_itemDirectives hk DirectiveKind.noConfusion)
  | named kind attributes v name => exact absurd hd (constructor_not_mem_itemDirectives hk DirectiveKind.noConfusion)
  | plain => cases hd

end Scan

namespace SourceTree

/-- The constructors of one name that the blocks of a crate give for structs of one name. -/
def constructorsNamed (tree : SourceTree) (root : Nat) (typeName function : String) : List Constructor :=
  ((tree.blocks.filter fun b => b.typeName == typeName && b.module.root == root).flatMap FunctionBlock.constructors).filter
    (·.isNamed function)

/-- A directive of a tree stands on a function, which is this constructor. -/
def Annotates (tree : SourceTree) (d : Directive) (typeName : String) (c : Constructor) : Prop :=
  ∃ file module items f, tree.HasFile file module items ∧
    Scan.Annotates file (Item.partsOfAll module items) d typeName f c

variable {tree : SourceTree} {d : Directive} {typeName function : String}

/-- The function that a directive stands on has been found, as a constructor of a block in the module of
the directive. -/
theorem exists_annotated (hs : tree.IsScanned) (hd : d ∈ tree.directives) (hk : d.kind = .constructor typeName function) :
    IsName typeName ∧ ∃ c, tree.Annotates d typeName c ∧ c.isNamed function = true ∧
      ∃ b ∈ tree.blocks, b.typeName = typeName ∧ b.module = d.module ∧ c ∈ b.constructors := by
  obtain ⟨finding, hf, he⟩ := List.mem_filterMap.mp hd
  obtain rfl : finding = .directive d := by
    cases finding with
    | directive found => exact congrArg Finding.directive (Option.some.inj he)
    | _ => cases he
  obtain ⟨file, module, items, hfile, hin⟩ := exists_file_of_mem hs hf rfl
  rw [Scan.itemsFindings_eq] at hin
  obtain ⟨⟨inner, item⟩, hpart, hin⟩ := List.mem_flatMap.mp hin
  obtain ⟨f, c, hannotates, hname, hitem, b, hb, hbn, hbm, hcb⟩ :=
    Scan.annotates_of_mem_outerFindings hpart hin hk
  refine ⟨?_, c, ⟨file, module, items, f, hfile, hannotates⟩, ?_, b, ?_, hbn, hbm, hcb⟩
  · obtain ⟨cs, hreads⟩ := hfile.reads
    obtain ⟨outer, ho, hinner⟩ := Item.mem_partsOfAll_iff.mp hpart
    have hproper := throughout_of_readFile hreads outer ho _ _ hinner
    obtain ⟨attributes, ofTrait, subject, functions, rfl, hblock⟩ := hitem
    exact isName_of_blockName? hproper.2.1 hblock
  · rw [Constructor.isNamed, hannotates.called, hname]
    exact beq_self_eq_true _
  · refine List.mem_filterMap.mpr ⟨.block b, hfile.found.subset ?_, rfl⟩
    rw [Scan.itemsFindings_eq]
    exact List.mem_flatMap.mpr ⟨_, hpart, hb⟩

/-- A block belongs to the struct that is found from its module: one of the same name beside the block
would be found instead. -/
theorem mem_blocksOf_of_findType (hn : IsName typeName) {t : DeclaredType} {b : FunctionBlock} (hb : b ∈ tree.blocks)
    (hbn : b.typeName = typeName) (ht : tree.findType typeName b.module = some t)
    (hroot : t.module.root = b.module.root) : b ∈ tree.blocksOf t := by
  obtain ⟨-, htn⟩ := mem_types_of_findType hn ht
  refine List.mem_filter.mpr ⟨hb, ?_⟩
  by_cases hm : b.module = t.module
  · simp [hbn, htn, hm]
  · have hno : ¬ ∃ a ∈ tree.types, a.name = typeName ∧ a.module = b.module :=
      fun hown => hm (module_of_findType hn hown ht).symm
    have hany : (tree.types.any fun a => a.name == t.name && a.module == b.module) = false := by
      rw [List.any_eq_false]
      intro a ha hboth
      obtain ⟨han, ham⟩ := Bool.and_eq_true_iff.mp hboth
      exact hno ⟨a, ha, (beq_iff_eq.mp han).trans htn, beq_iff_eq.mp ham⟩
    rw [hany, hbn, htn, hroot]
    simp

theorem mem_constructors_of_mem_blocksOf {t : DeclaredType} {b : FunctionBlock} {c : Constructor} (hb : b ∈ tree.blocksOf t)
    (hc : c ∈ b.constructors) : c ∈ tree.constructors t := by
  have hin : c ∈ (tree.blocksOf t).flatMap FunctionBlock.constructors := List.mem_flatMap.mpr ⟨b, hb, hc⟩
  have hne : ((tree.blocksOf t).flatMap FunctionBlock.constructors).isEmpty = false := by
    rw [List.isEmpty_eq_false_iff]
    exact List.ne_nil_of_mem hin
  unfold constructors
  simpa [hne] using hin

/-- What a struct has for a constructor of some name comes from the blocks of its crate. -/
theorem mem_constructorsNamed {t : DeclaredType} {c : Constructor} (hc : c ∈ tree.constructors t)
    (hnamed : c.isNamed function = true) : c ∈ tree.constructorsNamed t.module.root t.name function := by
  refine List.mem_filter.mpr ⟨?_, hnamed⟩
  unfold constructors at hc
  simp only at hc
  split at hc
  · rw [List.mem_singleton.mp hc] at hnamed
    cases beq_iff_eq.mp hnamed
  · obtain ⟨b, hb, hcb⟩ := List.mem_flatMap.mp hc
    obtain ⟨hin, hbelongs⟩ := List.mem_filter.mp hb
    exact List.mem_flatMap.mpr ⟨b, List.mem_filter.mpr ⟨hin, (Bool.and_eq_true_iff.mp hbelongs).1⟩, hcb⟩

end SourceTree

/-- A directive on a function is never refused because the constructor is not found, if its type is a
struct of the crate with named fields. Where the blocks of the crate give only one constructor of the
function's name, every plan has the parameters of the function for its fields and calls it with them in
their order. -/
theorem constructor_directive_reaches_its_constructor {tree : SourceTree} {o : Outcome} {typeName function : String}
    {t : DeclaredType} (hs : tree.IsScanned) (ho : o ∈ tree.host.route)
    (hk : o.directive.kind = .constructor typeName function)
    (ht : tree.findType typeName o.directive.module = some t) (hshape : t.shape = .named)
    (hroot : t.module.root = o.directive.module.root) :
    (∀ problem, o.result = .error problem →
      problem.message ≠ "cannot find constructor `" ++ typeName ++ "::" ++ function ++ "`") ∧
    ∃ c, tree.Annotates o.directive typeName c ∧ c ∈ tree.constructors t ∧
      ((∀ other ∈ tree.constructorsNamed t.module.root typeName function, other = c) →
        ∀ plan, o.result = .ok plan → plan.fieldNames = c.parameterNames ∧
          plan.construction = .call function c.parameterNames ∧
          ∃ r : Request, r.fields = c.parameters ∧ r.constructors = [c] ∧
            plan.fields = r.fields.map fun p => (r.field c p).1) := by
  obtain ⟨hd, hresult⟩ := Host.ofDirective_of_mem_route ho
  obtain ⟨hname, c, hannotates, hnamed, b, hb, hbn, hbm, hcb⟩ := SourceTree.exists_annotated hs hd hk
  obtain ⟨-, htn⟩ := SourceTree.mem_types_of_findType hname ht
  have hin : c ∈ tree.constructors t :=
    SourceTree.mem_constructors_of_mem_blocksOf
      (SourceTree.mem_blocksOf_of_findType hname hb hbn (hbm ▸ ht) (hbm ▸ hroot)) hcb
  have hfound : o.directive.namedStruct tree.host typeName = .ok t := by
    unfold Directive.namedStruct
    rw [show tree.host.findType typeName o.directive.module = some t from ht]
    exact if_pos (beq_iff_eq.mpr hshape)
  -- The first constructor of the name is asked for, whichever it is.
  obtain ⟨chosen, hchosen⟩ := Option.isSome_iff_exists.mp
    (List.find?_isSome (p := (Constructor.isNamed · function)).mpr ⟨c, hin, hnamed⟩)
  have hrequested : o.directive.requested tree.host =
      .ok (o.directive.ownRequest tree.host t chosen.parameters [chosen]) := by
    rw [Directive.requested, hk]
    show o.directive.requestedByConstructor tree.host typeName function = _
    unfold Directive.requestedByConstructor
    have hnamed? : (Directive.metadata tree.host t).named? function = some chosen := hchosen
    simp only [hfound, hnamed?, bind, Except.bind]
    rfl
  refine ⟨fun problem hp => ?_, c, hannotates, hin, fun hunique plan hp => ?_⟩
  · have hhead : problem.message.toList.head? ≠ some 'c' := by
      rcases Outcome.ofDirective_eq_error (hresult.symm.trans hp) with he | ⟨r, -, hplan⟩
      · cases hrequested.symm.trans he
      · exact Request.head?_of_plan hplan
    rintro heq
    refine hhead ?_
    rw [heq, String.append_assoc, String.append_assoc, String.append_assoc, head?_toList_append _ (by decide)]
    decide
  · obtain rfl : chosen = c := by
      refine hunique chosen ?_
      rw [← htn]
      exact SourceTree.mem_constructorsNamed (List.mem_of_find?_eq_some hchosen) (List.find?_some (p := (Constructor.isNamed · function)) hchosen)
    obtain ⟨r, planning, hr, hplan⟩ := Outcome.ofDirective_eq_ok (hresult.symm.trans hp)
    cases hrequested.symm.trans hr
    obtain ⟨made, hc, hfields, hconstruction⟩ := Request.fields_of_plan hplan
    obtain rfl : made = chosen := List.mem_singleton.mp (Request.mem_of_constructor hc).1
    have hkind : made.kind = .function function := beq_iff_eq.mp hnamed
    refine ⟨?_, ?_, _, rfl, rfl, hfields⟩
    · rw [BuilderPlan.fieldNames, hfields, List.map_map]
      rfl
    · rw [hconstruction, Request.construction, hkind]

namespace SourceTree

/-- A struct, and in another module a block of its functions with a directive. -/
def pairsApart : SourceTree :=
  .ofSources [("lib.rs", "struct Pair \x7b a: u8, b: u8 \x7d mod inner \x7b impl Pair \x7b #[builder] fn new(b: u8, a: u8) -> Self \x7b\x7d \x7d \x7d")]

/-- A plan is made for a directive on a function of a struct with named fields, the only one of its
name. -/
def plansOnlyConstructor (tree : SourceTree) (typeName function : String) : Bool :=
  tree.host.route.any fun o => o.directive.kind == .constructor typeName function && o.plan?.isSome &&
    (tree.findType typeName o.directive.module).any fun t =>
      t.shape == .named && t.module.root == o.directive.module.root &&
        (tree.constructorsNamed t.module.root typeName function).map Constructor.parameterNames == [["b", "a"]]

set_option maxRecDepth 100000 in
theorem pairsApart_plansOnlyConstructor : pairsApart.plansOnlyConstructor "Pair" "new" = true :=
  (congrArg (plansOnlyConstructor · "Pair" "new") (ofSources_ofList [("lib.rs", _)])).trans (by decide +kernel)

end SourceTree

open SourceTree in
theorem constructor_directive_reaches_its_constructor_of_pairs :
    ∃ o ∈ pairsApart.host.route, ∃ plan, o.result = .ok plan ∧ plan.fieldNames = ["b", "a"] ∧
      plan.construction = .call "new" ["b", "a"] := by
  obtain ⟨o, ho, h⟩ := List.any_eq_true.mp pairsApart_plansOnlyConstructor
  obtain ⟨hasked, htype⟩ := Bool.and_eq_true_iff.mp h
  obtain ⟨hkind, hplan⟩ := Bool.and_eq_true_iff.mp hasked
  obtain ⟨plan, hp⟩ := Option.isSome_iff_exists.mp hplan
  obtain ⟨t, ht, hfound⟩ := (Option.any_eq_true ..).mp htype
  obtain ⟨hstruct, honly⟩ := Bool.and_eq_true_iff.mp hfound
  obtain ⟨hshape, hroot⟩ := Bool.and_eq_true_iff.mp hstruct
  obtain ⟨c, hc, hnames⟩ := List.map_eq_singleton_iff.mp (beq_iff_eq.mp honly)
  obtain ⟨-, made, ⟨file, module, items, f, -, hannotates⟩, hin, hreaches⟩ :=
    constructor_directive_reaches_its_constructor (isScanned_ofSources _) ho (beq_iff_eq.mp hkind) ht
      (beq_iff_eq.mp hshape) (beq_iff_eq.mp hroot)
  have hnew : f.signature.name = "new" :=
    (DirectiveKind.constructor.inj (hannotates.named.symm.trans (beq_iff_eq.mp hkind))).2
  have hnamed : made.isNamed "new" = true := by
    rw [Constructor.isNamed, hannotates.called, hnew]
    decide
  have htn : t.name = "Pair" := (mem_types_of_findType (isName_ofList (List.cons_ne_nil _ _) rfl) ht).2
  have hmade : made ∈ pairsApart.constructorsNamed t.module.root t.name "new" := mem_constructorsNamed hin hnamed
  rw [htn, hc] at hmade
  obtain rfl : made = c := List.mem_singleton.mp hmade
  have hresult := Outcome.result_of_plan? hp
  have hunique : ∀ other ∈ pairsApart.constructorsNamed t.module.root "Pair" "new", other = made := by
    rw [hc]
    exact fun other hother => List.mem_singleton.mp hother
  obtain ⟨hfields, hcall, -⟩ := hreaches hunique plan hresult
  rw [hnames] at hfields hcall
  exact ⟨o, ho, plan, hresult, hfields, hcall⟩

end BuilderSynthesis
