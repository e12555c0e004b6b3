/-
  BuilderSynthesis.Proofs.Rendering — builders that can be written.

  A builder is written if every part of its plan is read as what it has to be (`BuilderPlan.Readable`,
  `exists_source`). The parts of a plan come from the declarations of a struct and of its functions. What a
  scan has taken over from the sources is read again where the struct is plain (`SourceTree.IsPlain`), so
  its plans can be written (`routed_plan_is_written`). A where clause without predicates is taken over too,
  and no builder can be written for its struct (`a_struct_with_an_empty_where_clause_has_no_builder`).
-/

import BuilderSynthesis.Builder.Code
import BuilderSynthesis.Proofs.DeclarationReading
import BuilderSynthesis.Proofs.DescribedTypes
import BuilderSynthesis.Proofs.ExternalBuilders
import BuilderSynthesis.Proofs.ScannedNames

namespace BuilderSynthesis

open Syntax

/-! ## Plans that can be written -/

/-- Everything that the plan of a field holds as text is read as what it has to be. -/
structure PlannedField.Readable (f : PlannedField) : Prop where
  name : ∃ name, readIdentifier f.name = .ok name
  value : ∃ type, readType f.descriptor.text = .ok type
  held : ∃ type, readType f.descriptor.asNullable.text = .ok type
  default : ∀ text ∈ f.default, ∃ value, readExpression text = .ok value
  getter : ∀ method, f.copy = some (.getter method) → ∃ name, readIdentifier method = .ok name

structure BuilderPlan.Readable (plan : BuilderPlan) : Prop where
  unit : ∃ name, readIdentifier plan.unit = .ok name
  visibility : ∃ v, readVisibility plan.visibility.source = .ok v
  path : ∃ path, readPath plan.target.path = .ok path
  generics : ∀ text ∈ plan.target.generics, ∃ generics, readGenerics text = .ok generics
  whereClause : ∀ text ∈ plan.target.whereClause, ∃ clause, readWhereClause text = .ok clause
  fields : ∀ f ∈ plan.fields, f.Readable
  call : ∀ function arguments, plan.construction = .call function arguments →
    (∃ name, readIdentifier function = .ok name) ∧ ∀ a ∈ arguments, ∃ name, readIdentifier a = .ok name

/-! ## Results that are there -/

section

variable {ε α β : Type}

/-- There is a result, and it has a property. -/
def Yields (x : Except ε α) (holds : α → Prop) : Prop := ∃ a, x = .ok a ∧ holds a

theorem yields_pure {holds : α → Prop} {a : α} (h : holds a) : Yields (pure a : Except ε α) holds := ⟨a, rfl, h⟩

theorem Yields.bind {x : Except ε α} {f : α → Except ε β} {first : α → Prop} {holds : β → Prop} (hx : Yields x first)
    (hf : ∀ a, first a → Yields (f a) holds) : Yields (x >>= f) holds := by
  obtain ⟨a, rfl, ha⟩ := hx
  exact hf a ha

theorem yields_mapM {f : α → Except ε β} {holds : β → Prop} {as : List α} (h : ∀ a ∈ as, Yields (f a) holds) :
    Yields (as.mapM f) fun bs => ∀ b ∈ bs, holds b := by
  induction as with
  | nil => exact yields_pure nofun
  | cons a rest ih =>
    rw [List.mapM_cons]
    refine (h a List.mem_cons_self).bind fun b hb => (ih fun c hc => h c (List.mem_cons_of_mem _ hc)).bind fun bs hbs => ?_
    exact yields_pure (List.forall_mem_cons.mpr ⟨hb, hbs⟩)

theorem yields_mapM_option {f : α → Except ε β} {a : Option α} (h : ∀ found ∈ a, Yields (f found) fun _ => True) :
    Yields (a.mapM f) fun _ => True := by
  cases a with
  | none => exact yields_pure trivial
  | some found =>
    obtain ⟨b, hb, -⟩ := h found rfl
    exact ⟨some b, by rw [Option.mapM_some, hb]; rfl, trivial⟩

end

/-! ## Writing -/

namespace Pieces

theorem yields_readPart {α : Type} {part text : String} {read : String → Except Problem α} (h : ∃ a, read text = .ok a) :
    Yields (readPart part read text) fun _ => True := by
  obtain ⟨a, ha⟩ := h
  exact ⟨a, by unfold readPart; rw [ha], trivial⟩

theorem yields_slot {f : PlannedField} (h : f.Readable) : Yields (slot f) (·.planned = f) := by
  refine (yields_readPart h.name).bind fun name _ => (yields_readPart h.value).bind fun value _ => ?_
  refine (yields_readPart h.held).bind fun held _ => ?_
  exact (yields_mapM_option fun text ht => yields_readPart (h.default text ht)).bind fun default _ => yields_pure rfl

theorem yields_ofPlan {plan : BuilderPlan} (h : plan.Readable) : Yields (ofPlan plan) fun p => ∀ s ∈ p.slots, s.planned.Readable := by
  refine (yields_mapM_option fun text ht => yields_readPart (h.generics text ht)).bind fun generics _ => ?_
  refine (yields_mapM_option fun text ht => yields_readPart (h.whereClause text ht)).bind fun clause _ => ?_
  have hslots : Yields (plan.fields.mapM slot) fun slots => ∀ s ∈ slots, s.planned.Readable := by
    refine yields_mapM fun f hf => ?_
    obtain ⟨s, hs, hplanned⟩ := yields_slot (h.fields f hf)
    refine ⟨s, hs, ?_⟩
    show s.planned.Readable
    rw [hplanned]
    exact h.fields f hf
  refine hslots.bind fun slots hslots => (yields_readPart h.unit).bind fun unit _ => ?_
  exact (yields_readPart h.visibility).bind fun v _ => (yields_readPart h.path).bind fun path _ => yields_pure hslots

theorem yields_constructed (p : Pieces) {plan : BuilderPlan} (h : plan.Readable) :
    Yields (p.constructed plan.construction) fun _ => True := by
  cases hc : plan.construction with
  | literal => exact ⟨_, rfl, trivial⟩
  | call function arguments =>
    obtain ⟨hfunction, harguments⟩ := h.call function arguments hc
    refine (yields_readPart hfunction).bind fun function _ => ?_
    exact (yields_mapM fun a ha => yields_readPart (harguments a ha)).bind fun arguments _ => yields_pure trivial

theorem yields_copied {s : Slot} (h : s.planned.Readable) : Yields (copied s) fun _ => True := by
  unfold copied
  split
  · rename_i method hm
    exact (yields_readPart (h.getter method hm)).bind fun method _ => yields_pure trivial
  · exact ⟨_, rfl, trivial⟩

theorem yields_copyBlock {p : Pieces} (h : ∀ s ∈ p.slots, s.planned.Readable) : Yields p.copyBlock fun _ => True := by
  have hbody : Yields p.copyBody fun _ => True := by
    unfold copyBody
    dsimp only
    split
    · exact yields_pure trivial
    · refine (yields_mapM fun s hs => yields_copied ?_).bind fun assignments _ => yields_pure trivial
      rcases List.mem_append.mp hs with hs | hs
      · exact h s (List.mem_filter.mp hs).1
      · exact h s (List.mem_filter.mp hs).1
  exact hbody.bind fun ⟨source, body⟩ _ => yields_pure trivial

end Pieces

namespace BuilderPlan

/-- A plan whose parts can be read can be written. -/
theorem exists_source {plan : BuilderPlan} (h : plan.Readable) : ∃ text, plan.source = .ok text := by
  have hcode : Yields plan.code fun _ => True :=
    (Pieces.yields_ofPlan h).bind fun p hp => (p.yields_constructed h).bind fun constructed _ =>
      (Pieces.yields_copyBlock hp).bind fun copying _ => yields_pure trivial
  obtain ⟨code, hc, -⟩ := hcode
  exact ⟨_, by rw [source, hc]; rfl⟩

end BuilderPlan

/-! ## What a request takes over -/

namespace Directive

/-- A request takes its parts over from a struct and its functions. A directive for a struct elsewhere says itself
under which path the struct is named and who sees the builder. -/
structure TakesFrom (r : Request) (host : Host) (d : Directive) (t : DeclaredType) : Prop where
  target : ∃ path, r.target = target t path ∧
    (path = localPath t d.module ∨ ∃ suffix useConstructors v, d.kind = .external path suffix useConstructors v)
  visibility : r.visibility = t.visibility ∨ ∃ path suffix useConstructors, d.kind = .external path suffix useConstructors r.visibility
  fields : ∀ p ∈ r.fields, (∃ f ∈ t.fields, p.name = f.name ∧ p.type = f.type) ∨ ∃ c ∈ host.constructors t, p ∈ c.parameters
  constructors : ∀ c ∈ r.constructors, c ∈ host.constructors t
  accessors : r.accessors = host.accessors t d.module

variable {d : Directive} {host : Host} {r : Request} {t : DeclaredType} {path : String}

theorem exists_field_of_mem_eligible {p : Parameter} (h : p ∈ eligible (metadata host t)) :
    ∃ f ∈ t.fields, p.name = f.name ∧ p.type = f.type := by
  obtain ⟨f, hf, rfl⟩ := List.mem_map.mp h
  exact ⟨f, (List.mem_filter.mp hf).1, rfl, rfl⟩

theorem takesFrom_of_requested (h : d.requested host = .ok r) (hpath : d.path? = some path)
    (ht : host.findType path d.module = some t) : TakesFrom r host d t := by
  have hfound : ∀ {found : DeclaredType}, d.namedStruct host path = .ok found → found = t := fun hn =>
    Option.some.inj ((namedStruct_eq_ok hn).symm.trans ht)
  unfold path? at hpath
  obtain ⟨found, ha⟩ := asks_of_requested h
  cases ha with
  | type hk hn =>
    rw [hk] at hpath
    cases hpath
    obtain rfl := hfound hn
    exact ⟨⟨_, rfl, Or.inl rfl⟩, Or.inl rfl, fun p hp => Or.inl (exists_field_of_mem_eligible hp), fun c hc => hc, rfl⟩
  | @constructor typeName function chosen hk hn hchosen =>
    rw [hk] at hpath
    cases hpath
    obtain rfl := hfound hn
    have hin : chosen ∈ host.constructors found := List.mem_of_find?_eq_some hchosen
    refine ⟨⟨_, rfl, Or.inl rfl⟩, Or.inl rfl, fun p hp => Or.inr ⟨chosen, hin, hp⟩, fun c hc => ?_, rfl⟩
    rw [List.mem_singleton.mp hc]
    exact hin
  | @external target suffix useConstructors visibility primary others hk hn hreachable =>
    rw [hk] at hpath
    cases hpath
    obtain rfl := hfound hn
    have hin : ∀ c ∈ primary :: others, c ∈ host.constructors found := fun c hc =>
      (List.mem_filter.mp (hreachable ▸ hc)).1
    refine ⟨⟨_, rfl, Or.inr ⟨_, _, _, hk⟩⟩, Or.inr ⟨_, _, _, hk⟩, fun p hp => ?_, fun c hc => ?_, rfl⟩
    · cases useConstructors with
      | true => exact Or.inr ⟨primary, hin primary List.mem_cons_self, hp⟩
      | false => exact Or.inl (exists_field_of_mem_eligible hp)
    · cases useConstructors with
      | true => exact hin c (List.mem_singleton.mp hc ▸ List.mem_cons_self)
      | false => exact hin c hc

end Directive

/-! ## Plain structs -/

/-- The type is declared as a plain one. -/
def TypeRef.IsPlain (type : TypeRef) : Prop :=
  ∃ written : TypeExpr, written.isPlain = true ∧ written.Proper ∧ type = .ofType written

namespace SourceTree

/-- What a plan for the struct takes over as text is plain, and all its modules have names that a path may have. -/
structure IsPlain (tree : SourceTree) (t : DeclaredType) : Prop where
  generics : ∀ text ∈ t.generics, ∃ g : Generics, g.IsPlain ∧ text = printed g.tokens
  whereClause : ∀ text ∈ t.whereClause, ∃ clause : WhereClause, clause.IsPlain ∧ text = printed clause.tokens
  fields : ∀ f ∈ t.fields, f.type.IsPlain
  parameters : ∀ c ∈ tree.constructors t, ∀ p ∈ c.parameters, p.type.IsPlain
  module : ∀ name ∈ t.module.segments, IsIdentifier name ∧ isPathName name = true

variable {tree : SourceTree} {t : DeclaredType} {d : Directive} {r : Request} {plan : BuilderPlan}

theorem names_of_mem_constructors (hs : tree.IsScanned) (ht : t ∈ tree.types) {c : Constructor} (hc : c ∈ tree.constructors t) :
    (∀ function, c.kind = .function function → IsFree function) ∧ ∀ p ∈ c.parameters, IsIdentifier p.name := by
  unfold constructors at hc
  simp only at hc
  split at hc
  · rw [List.mem_singleton.mp hc]
    refine ⟨nofun, fun p hp => ?_⟩
    obtain ⟨f, hf, rfl⟩ := List.mem_map.mp hp
    exact (proper_of_mem_types hs ht).fields f hf
  · obtain ⟨b, hb, hcb⟩ := List.mem_flatMap.mp hc
    have hproper := proper_of_mem_blocks hs (List.mem_filter.mp hb).1
    exact ⟨hproper.functions c hcb, hproper.parameters c hcb⟩

theorem isFree_of_getter (hs : tree.IsScanned) {user : ModulePath} {a : Accessor} (ha : a ∈ tree.accessors t user)
    {method : String} (hk : a.kind = .getter method) : IsFree method := by
  have hreads := reads_of_mem_accessors ha
  rw [hk] at hreads
  obtain ⟨b, hb, g, hg, -, rfl, -⟩ := hreads
  exact (proper_of_mem_blocks hs (List.mem_filter.mp hb).1).getters g hg

/-! ### The parts of a plan -/

theorem exists_readPath_text {path : PathExpr} (h : path.Proper) : ∃ read, readPath path.text = .ok read := by
  obtain ⟨leading, segments⟩ := path
  obtain ⟨init, last, rfl⟩ := (List.eq_nil_or_concat' segments).resolve_left h.1
  have hnames : (PathExpr.mk leading (init ++ [last])).names = init.map Segment.name ++ [last.name] := by
    rw [PathExpr.names, PathExpr.segments, List.map_append, List.map_singleton]
  have htext : (PathExpr.mk leading (init ++ [last])).text = pathText leading (init.map Segment.name) last.name := by
    rw [PathExpr.text, hnames]
    rfl
  rw [htext]
  refine ⟨_, readPath_of_names fun name hn => ?_⟩
  rw [← List.map_singleton, ← List.map_append] at hn
  obtain ⟨⟨found, arguments⟩, hs, rfl⟩ := List.mem_map.mp hn
  have hsegment := Segment.allProper_iff.mp h.2 _ hs
  exact ⟨hsegment.1, hsegment.2.1⟩

theorem exists_readPath_localPath (hname : IsFree t.name)
    (hmodule : ∀ name ∈ t.module.segments, IsIdentifier name ∧ isPathName name = true) (user : ModulePath) :
    ∃ read, readPath (Directive.localPath t user) = .ok read := by
  have hlast : IsIdentifier t.name ∧ isPathName t.name = true := by
    refine ⟨hname.1, ?_⟩
    rw [isPathName, takesArguments, hname.2]
    rfl
  have hread : ∀ names, (∀ name ∈ names, IsIdentifier name ∧ isPathName name = true) →
      ∃ read, readPath ("::".intercalate (names ++ [t.name])) = .ok read := by
    intro names hnames
    have htext : pathText false names t.name = "::".intercalate (names ++ [t.name]) := String.empty_append
    refine ⟨_, htext ▸ readPath_of_names fun name hn => ?_⟩
    rcases List.mem_append.mp hn with hn | hn
    · exact hnames name hn
    · rw [List.mem_singleton.mp hn]
      exact hlast
  unfold Directive.localPath
  split
  · have hown := hread [] fun _ h => absurd h List.not_mem_nil
    rwa [List.nil_append, String.intercalate_singleton] at hown
  · exact hread ("crate" :: t.module.segments) (List.forall_mem_cons.mpr ⟨by decide, hmodule⟩)

theorem exists_readVisibility_source {v : Visibility} (h : v.Proper) : ∃ read, readVisibility v.source = .ok read := by
  obtain ⟨written, hw, rfl⟩ := h
  have hsource : (Scan.visibilityOf written).source = printed written.tokens := by
    cases written with
    | inherited => rfl
    | everywhere => rfl
    | restricted tokens => rfl
  obtain ⟨read, hr, -⟩ := exists_readVisibility hw
  exact ⟨read, hsource ▸ hr⟩

theorem exists_readExpression_default {raw name text : String} {descriptor : Descriptor} {location : Location}
    (h : (Default.expression raw descriptor name location).1 = some text) : ∃ value, readExpression text = .ok value := by
  unfold Default.expression at h
  dsimp only at h
  split at h
  · cases h
  · split at h
    · rename_i value hv
      cases h
      exact ⟨value, hv⟩
    · cases h

theorem exists_writes_fieldDescriptor {c : Constructor} {p : Parameter} (h : p.type.IsPlain) :
    ∃ type, Descriptor.Writes false [(r.fieldDescriptor c p).1] [.type type] := by
  obtain ⟨written, hplain, hproper, htype⟩ := h
  obtain ⟨described, hdescribed⟩ := Descriptor.exists_writes_describe hplain hproper p.modifiers p.location
  obtain ⟨declared, hdeclared⟩ := Descriptor.exists_writes false hplain hproper
  rw [← htype] at hdescribed hdeclared
  unfold Request.fieldDescriptor
  dsimp only
  split
  · split
    · exact ⟨declared, hdeclared⟩
    · exact ⟨described, hdescribed⟩
  · exact ⟨described, hdescribed⟩

/-- What is planned for a field of a plain type that has a free name is readable. -/
theorem readable_field (hs : tree.IsScanned) (haccessors : r.accessors = tree.accessors t d.module) (c : Constructor)
    {p : Parameter} (htype : p.type.IsPlain) (hname : IsFree p.name) : (r.field c p).1.Readable := by
  obtain ⟨type, hw⟩ := exists_writes_fieldDescriptor (r := r) (c := c) htype
  obtain ⟨held, hheld⟩ := hw.asNullable
  refine ⟨⟨_, readIdentifier_of_isFree hname⟩, ⟨_, hw.readType.1⟩, ⟨_, hheld.readType.1⟩, fun text ht => ?_, fun method hm => ?_⟩
  · unfold Request.field at ht
    dsimp only at ht
    split at ht
    · exact exists_readExpression_default ht
    · cases ht
  · obtain ⟨a, ha, -, hk⟩ := Request.exists_accessor_of_copy hm
    exact ⟨_, readIdentifier_of_isFree (isFree_of_getter hs (haccessors ▸ ha) hk)⟩

theorem readable_of_plan (hs : tree.IsScanned) (hd : d ∈ tree.directives) (ht : t ∈ tree.types)
    (hr : Directive.TakesFrom r tree.host d t) {planning : List Diagnostic} (hplan : r.plan = .ok (plan, planning))
    (hplain : tree.IsPlain t) (hfree : ∀ f ∈ plan.fields, isReserved f.name = false) : plan.Readable := by
  have hproper := proper_of_mem_types hs ht
  obtain ⟨hunit, htarget, hidentifier⟩ := Request.plan_eq_ok hplan
  obtain ⟨c, hc, hfields, hconstruction⟩ := Request.fields_of_plan hplan
  obtain ⟨hin, hperm⟩ := Request.mem_of_constructor hc
  obtain ⟨path, hpath, hwhich⟩ := hr.target
  have hvisibility := Request.visibility_of_plan hplan
  have hfield : ∀ p ∈ r.fields, p.type.IsPlain ∧ IsFree p.name := by
    intro p hp
    have hunreserved : isReserved p.name = false := hfree (r.field c p).1 (hfields ▸ List.mem_map_of_mem hp)
    rcases hr.fields p hp with ⟨f, hf, hname, htype⟩ | ⟨made, hmade, hp⟩
    · exact ⟨htype ▸ hplain.fields f hf, hname ▸ hproper.fields f hf, hunreserved⟩
    · exact ⟨hplain.parameters made hmade p hp, (names_of_mem_constructors hs ht hmade).2 p hp, hunreserved⟩
  constructor
  case unit => exact hunit ▸ hidentifier
  case visibility =>
    rw [hvisibility]
    refine exists_readVisibility_source ?_
    rcases hr.visibility with hv | ⟨_, _, _, hk⟩
    · exact hv ▸ hproper.visibility
    · have hkind := proper_of_mem_directives hs hd
      rw [hk] at hkind
      exact hkind.2
  case path =>
    rw [htarget, hpath]
    rcases hwhich with rfl | ⟨_, _, _, hk⟩
    · exact exists_readPath_localPath hproper.name hplain.module d.module
    · have hkind := proper_of_mem_directives hs hd
      rw [hk] at hkind
      obtain ⟨written, hw, rfl⟩ := hkind.1
      exact exists_readPath_text hw
  case generics =>
    rw [htarget, hpath]
    intro text htext
    obtain ⟨g, hg, rfl⟩ := hplain.generics text htext
    exact ⟨g, readGenerics_printed hg⟩
  case whereClause =>
    rw [htarget, hpath]
    intro text htext
    obtain ⟨clause, hclause, rfl⟩ := hplain.whereClause text htext
    exact ⟨clause, readWhereClause_printed hclause⟩
  case fields =>
    rw [hfields]
    refine List.forall_mem_map.mpr fun p hp => ?_
    exact readable_field hs hr.accessors c (hfield p hp).1 (hfield p hp).2
  case call =>
    intro function arguments hcall
    rw [hconstruction] at hcall
    unfold Request.construction at hcall
    split at hcall
    · rename_i name hname
      cases hcall
      refine ⟨⟨_, readIdentifier_of_isFree ((names_of_mem_constructors hs ht (hr.constructors c hin)).1 _ hname)⟩, fun a ha => ?_⟩
      obtain ⟨p, hp, rfl⟩ := List.mem_map.mp (hperm.mem_iff.mp ha)
      exact ⟨_, readIdentifier_of_isFree (hfield p hp).2⟩
    · cases hcall

end SourceTree

/-- Where a directive has a plan, its struct is plain and no field has a reserved name, the builder can be written. -/
theorem routed_plan_is_written {tree : SourceTree} (hs : tree.IsScanned) {o : Outcome} (ho : o ∈ tree.host.route)
    {plan : BuilderPlan} (hp : o.result = .ok plan) {path : String} (hpath : o.directive.path? = some path) {t : DeclaredType}
    (ht : tree.findType path o.directive.module = some t) (hplain : tree.IsPlain t)
    (hfree : ∀ f ∈ plan.fields, isReserved f.name = false) : ∃ text, plan.source = .ok text := by
  obtain ⟨hd, hresult⟩ := Host.ofDirective_of_mem_route ho
  obtain ⟨r, planning, hr, hplan⟩ := Outcome.ofDirective_eq_ok (hresult ▸ hp)
  have htype := SourceTree.mem_types_of_findType_eq ht
  exact BuilderPlan.exists_source
    (SourceTree.readable_of_plan hs hd htype (Directive.takesFrom_of_requested hr hpath ht) hplan hplain hfree)

/-! ## Two pairs -/

namespace SourceTree

variable {tree : SourceTree} {path : String} {holds : DeclaredType → BuilderPlan → Bool}

/-- There is a plan without reserved names, and something holds of it and of the struct found under the path. -/
def plansFor (tree : SourceTree) (path : String) (holds : DeclaredType → BuilderPlan → Bool) : Bool :=
  tree.host.route.any fun o => o.directive.path? == some path && o.plan?.any fun plan =>
    plan.fields.all (!isReserved ·.name) && (tree.findType path o.directive.module).any (holds · plan)

theorem exists_of_plansFor (h : tree.plansFor path holds = true) :
    ∃ o ∈ tree.host.route, ∃ plan t, o.result = .ok plan ∧ o.directive.path? = some path ∧
      tree.findType path o.directive.module = some t ∧ (∀ f ∈ plan.fields, isReserved f.name = false) ∧ holds t plan = true := by
  obtain ⟨o, ho, h⟩ := List.any_eq_true.mp h
  obtain ⟨hpath, h⟩ := Bool.and_eq_true_iff.mp h
  obtain ⟨plan, hp, h⟩ := (Option.any_eq_true ..).mp h
  obtain ⟨hfree, h⟩ := Bool.and_eq_true_iff.mp h
  obtain ⟨t, ht, h⟩ := (Option.any_eq_true ..).mp h
  refine ⟨o, ho, plan, t, Outcome.result_of_plan? hp, beq_iff_eq.mp hpath, ht, fun f hf => ?_, h⟩
  exact Bool.not_eq_true' _ ▸ List.all_eq_true.mp hfree f hf

/-- A plain type is written so. -/
def isPlainlyWritten (text : String) (type : TypeRef) : Bool :=
  (readType text).toOption.any fun written => written.isPlain && type == .ofType written

theorem isPlain_of_isPlainlyWritten {text : String} {type : TypeRef} (h : isPlainlyWritten text type = true) : type.IsPlain := by
  obtain ⟨written, hw, h⟩ := Descriptor.exists_of_any _ _ h
  obtain ⟨hplain, htype⟩ := Bool.and_eq_true_iff.mp h
  exact ⟨written, hplain, proper_of_readType hw, beq_iff_eq.mp htype⟩

/-- A pair with a parameter, which is bounded. -/
def boundedPair : SourceTree :=
  .ofSources [("lib.rs", "#[derive(Builder)] pub struct Pair<T> where T: Clone { pub a: Option<T>, pub b: Option<T> }")]

def parameterT : Generics := ⟨[⟨.type, "T", [], [Token.word "T"], none⟩], false⟩

def pathT : PathExpr := ⟨false, [⟨"T", .none⟩]⟩

def cloneT : WhereClause :=
  ⟨[(TypeExpr.path pathT).tokens ++ Token.symbol ":" ++ Bound.tokensOfMany [.trait false [] ⟨false, [⟨"Clone", .none⟩]⟩] false], false⟩

theorem parameterT_isPlain : parameterT.IsPlain where
  parameters := List.forall_mem_singleton.mpr
    (@GenericParameter.IsPlain.type _ [] false none (by decide) (by decide) nofun (fun _ => rfl) nofun)
  lifetimesFirst := rfl
  ended := nofun

theorem cloneT_isPlain : cloneT.IsPlain where
  predicates := List.forall_mem_singleton.mpr (.type rfl ⟨nofun, by decide, rfl, nofun, trivial, trivial⟩ nofun
    (List.forall_mem_singleton.mpr (.trait false rfl ⟨nofun, by decide, rfl, nofun, trivial, trivial⟩)) nofun)
  nonempty := nofun

set_option maxRecDepth 100000 in
theorem boundedPair_plansFor : boundedPair.plansFor "Pair" (fun t _ =>
    t.generics == some (printed parameterT.tokens) && t.whereClause == some (printed cloneT.tokens) &&
      t.fields.all (isPlainlyWritten "Option<T>" ·.type) && t.module.segments == [] &&
      boundedPair.constructors t == [t.memberwise]) = true :=
  (congrArg (fun tree : SourceTree => tree.plansFor "Pair" (fun t _ =>
    t.generics == some (printed parameterT.tokens) && t.whereClause == some (printed cloneT.tokens) &&
      t.fields.all (isPlainlyWritten "Option<T>" ·.type) && t.module.segments == [] &&
      tree.constructors t == [t.memberwise])) (ofSources_ofList [("lib.rs", _)])).trans (by decide +kernel)

end SourceTree

open SourceTree in
theorem routed_plan_is_written_of_a_bounded_pair :
    ∃ o ∈ boundedPair.host.route, ∃ plan t, o.result = .ok plan ∧ boundedPair.findType "Pair" o.directive.module = some t ∧
      boundedPair.IsPlain t ∧ ∃ text, plan.source = .ok text := by
  obtain ⟨o, ho, plan, t, hp, hpath, ht, hfree, h⟩ := exists_of_plansFor boundedPair_plansFor
  simp only [Bool.and_eq_true, beq_iff_eq, List.all_eq_true] at h
  obtain ⟨⟨⟨⟨hgenerics, hclause⟩, hfields⟩, hmodule⟩, hconstructors⟩ := h
  have hfield : ∀ f ∈ t.fields, f.type.IsPlain := fun f hf => isPlain_of_isPlainlyWritten (hfields f hf)
  have hplain : boundedPair.IsPlain t := by
    constructor
    case generics => exact fun text h => ⟨parameterT, parameterT_isPlain, Option.some.inj (h.symm.trans hgenerics)⟩
    case whereClause => exact fun text h => ⟨cloneT, cloneT_isPlain, Option.some.inj (h.symm.trans hclause)⟩
    case fields => exact hfield
    case parameters =>
      rw [hconstructors]
      exact List.forall_mem_singleton.mpr (List.forall_mem_map.mpr hfield)
    case module =>
      rw [hmodule]
      exact fun _ h => absurd h List.not_mem_nil
  exact ⟨o, ho, plan, t, hp, ht, hplain, routed_plan_is_written (isScanned_ofSources _) ho hp hpath ht hplain hfree⟩

namespace SourceTree

/-- A pair with a where clause that says nothing. -/
def unboundedPair : SourceTree :=
  .ofSources [("lib.rs", "#[derive(Builder)] pub struct Pair where { pub a: u8, pub b: u8 }")]

set_option maxRecDepth 100000 in
theorem unboundedPair_plansFor : unboundedPair.plansFor "Pair" (fun _ plan =>
    plan.target.whereClause == some "" && !plan.source.toOption.isSome) = true :=
  (congrArg (plansFor · "Pair" _) (ofSources_ofList [("lib.rs", _)])).trans (by decide +kernel)

end SourceTree

open SourceTree in
/-- The scan takes over a where clause without predicates as an empty text, and no clause is read from that. -/
theorem a_struct_with_an_empty_where_clause_has_no_builder :
    ∃ o ∈ unboundedPair.host.route, ∃ plan, o.result = .ok plan ∧ plan.target.whereClause = some "" ∧
      ¬∃ text, plan.source = .ok text := by
  obtain ⟨o, ho, plan, t, hp, -, -, -, h⟩ := exists_of_plansFor unboundedPair_plansFor
  obtain ⟨hclause, hsource⟩ := Bool.and_eq_true_iff.mp h
  refine ⟨o, ho, plan, hp, beq_iff_eq.mp hclause, fun ⟨text, htext⟩ => ?_⟩
  rw [htext] at hsource
  cases hsource

end BuilderSynthesis
