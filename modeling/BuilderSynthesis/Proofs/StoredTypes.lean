/-
  BuilderSynthesis.Proofs.StoredTypes — `impl Trait` in the types that builders store.

  A request for a field whose type is an `impl Trait` is refused with a report at the field: a builder cannot store
  it. Only the type itself is looked at. One that stands inside another type, behind a reference or among generic
  arguments, is planned (`HidesImplTrait`), and whatever the modifiers make of the type, the type that the builder
  holds is written with it (`Descriptor.Carries`, `impl_traits_are_refused_at_the_top`).
-/

import BuilderSynthesis.Proofs.HeldTypes
import BuilderSynthesis.Proofs.Refusals

namespace BuilderSynthesis

/-! ## Declared types -/

namespace TypeRef

/-- An `impl Trait` of this text stands somewhere in a type. -/
inductive Mentions (text : String) : TypeRef → Prop where
  | here : Mentions text (.implTrait text)
  | array {element : TypeRef} {length : String} (h : Mentions text element) : Mentions text (.array element length)
  | slice {element : TypeRef} (h : Mentions text element) : Mentions text (.slice element)
  | referent {lifetime : Option String} {mutable : Bool} {referent : TypeRef} (h : Mentions text referent) :
      Mentions text (.reference lifetime mutable referent)
  | argument {path : String} {arguments : List TypeRef} {argument : TypeRef} (hmem : argument ∈ arguments)
      (h : Mentions text argument) : Mentions text (.path path arguments)

/-- An `impl Trait` stands inside of a type that is something else. -/
def HidesImplTrait (t : TypeRef) : Prop := (∃ text, t.Mentions text) ∧ ¬ t.isImplTrait

theorem arguments_of_optional {path : String} {arguments : List TypeRef} {inner : TypeRef}
    (h : (TypeRef.path path arguments).optional? = some inner) : arguments = [inner] := by
  match arguments, h with
  | [only], h =>
    obtain ⟨-, hinner⟩ := Option.ite_none_right_eq_some.mp h
    rw [Option.some.inj hinner]

end TypeRef

/-! ## Descriptors -/

namespace Descriptor

/-- A text stands where the descriptor is written as a type. -/
inductive Carries (text : String) : Descriptor → Prop where
  | here {arguments : List Descriptor} {n m : Bool} : Carries text (mk (.verbatim text) arguments n m)
  | array {length : String} {element : Descriptor} {n m : Bool} (h : Carries text element) :
      Carries text (mk (.array length) [element] n m)
  | slice {element : Descriptor} {n m : Bool} (h : Carries text element) : Carries text (mk .slice [element] n m)
  | referent {lifetime : Option String} {mutable : Bool} {referent : Descriptor} {n m : Bool}
      (h : Carries text referent) : Carries text (mk (.reference lifetime mutable) [referent] n m)
  | argument {path : String} {arguments : List Descriptor} {argument : Descriptor} {n m : Bool}
      (hmem : argument ∈ arguments) (h : Carries text argument) : Carries text (mk (.named path) arguments n m)

variable {text : String} {d : Descriptor}

theorem Carries.marked (h : Carries text d) (n : Bool) : Carries text (d.marked n) := by
  cases h with
  | here => exact .here
  | array h => exact .array h
  | slice h => exact .slice h
  | referent h => exact .referent h
  | argument hmem h => exact .argument hmem h

theorem Carries.asNullable (h : Carries text d) : Carries text d.asNullable := by
  obtain ⟨base, arguments, n, m⟩ := d
  exact h.marked true

theorem Carries.nullableLast {element : Descriptor} {given : List Descriptor} (h : Carries text element)
    (hgiven : Descriptor.nullableLast [element] = some given) : ∃ only, given = [only] ∧ Carries text only := by
  rw [nullableLast_single] at hgiven
  split at hgiven
  · cases hgiven
  · obtain rfl := Option.some.inj hgiven
    exact ⟨_, rfl, h.asNullable⟩

theorem Carries.nullableElement {adjusted : Descriptor} (h : Carries text d) (hd : d.nullableElement? = some adjusted) :
    Carries text adjusted := by
  induction h generalizing adjusted with
  | here =>
    obtain ⟨given, -, rfl⟩ := Option.map_eq_some_iff.mp hd
    exact .here
  | array h =>
    obtain ⟨given, hgiven, rfl⟩ := Option.map_eq_some_iff.mp hd
    obtain ⟨only, rfl, honly⟩ := h.nullableLast hgiven
    exact .array honly
  | slice h =>
    obtain ⟨given, hgiven, rfl⟩ := Option.map_eq_some_iff.mp hd
    obtain ⟨only, rfl, honly⟩ := h.nullableLast hgiven
    exact .slice honly
  | referent h ih =>
    obtain ⟨inner, hinner, rfl⟩ := Option.map_eq_some_iff.mp hd
    exact .referent (ih hinner)
  | argument hmem h =>
    obtain ⟨given, hgiven, rfl⟩ := Option.map_eq_some_iff.mp hd
    obtain ⟨before, element, after, rfl, rfl, -⟩ := nullableLast_eq_some hgiven
    rcases List.mem_append.mp hmem with hbefore | hrest
    · exact .argument (List.mem_append_left _ hbefore) h
    · rcases List.mem_cons.mp hrest with rfl | hafter
      · exact .argument (List.mem_append_right _ List.mem_cons_self) (h.marked true)
      · exact .argument (List.mem_append_right _ (List.mem_cons_of_mem _ hafter)) h

theorem counterpartBase_reference (lifetime : Option String) (mutable : Bool) (arguments : List Descriptor)
    (n m : Bool) :
    (mk (.reference lifetime mutable) arguments n m).counterpartBase = .reference lifetime mutable := by
  rw [counterpartBase]
  split
  · rename_i counterpart hform
    obtain ⟨kind, -, hkind⟩ := Option.map_eq_some_iff.mp hform
    cases hkind
  · rfl

theorem exists_counterpartBase_named (path : String) (arguments : List Descriptor) (n m : Bool) :
    ∃ counterpart, (mk (.named path) arguments n m).counterpartBase = .named counterpart := by
  rw [counterpartBase]
  split <;> exact ⟨_, rfl⟩

/-- No adjustment takes a text away. -/
theorem Carries.adjustedBy (h : Carries text d) (a : Adjustment) : Carries text (d.adjustedBy a) := by
  cases ha : a.mark? with
  | some n =>
    rw [adjustedBy_mark d ha]
    exact h.marked n
  | none =>
    cases a with
    | nullable | nonNull => cases ha
    | nullableElement =>
      rw [Descriptor.adjustedBy, apply, withNullableElement]
      cases hd : d.nullableElement? with
      | none => exact h
      | some adjusted => exact h.nullableElement hd
    | mutable =>
      rw [adjustedBy_mutable]
      cases h with
      | here => exact .here
      | array h => exact .array h
      | slice h => exact .slice h
      | @referent lifetime mutable inner n m h =>
        rw [counterpartBase_reference]
        exact .referent h
      | @argument path arguments inner n m hmem h =>
        obtain ⟨counterpart, hcounterpart⟩ := exists_counterpartBase_named path arguments n m
        rw [hcounterpart]
        exact .argument hmem h

theorem Carries.adjusted (h : Carries text d) (as : List Adjustment) : Carries text (d.adjusted as) := by
  induction as generalizing d with
  | nil => exact h
  | cons a rest ih => exact ih (h.adjustedBy a)

theorem infix_intercalate {part : String} {parts : List String} (separator : String) (h : part ∈ parts) :
    part.toList <:+: (separator.intercalate parts).toList := by
  induction parts with
  | nil => cases h
  | cons first rest ih =>
    cases rest with
    | nil =>
      obtain rfl := List.mem_singleton.mp h
      exact String.intercalate_singleton ▸ List.infix_rfl
    | cons second more =>
      rw [String.intercalate_cons_cons, String.toList_append]
      rcases List.mem_cons.mp h with rfl | hrest
      · rw [String.toList_append, List.append_assoc]
        exact (List.prefix_append _ _).isInfix
      · exact (ih hrest).trans (List.suffix_append _ _).isInfix

theorem infix_between {part : String} (before after : String) {whole : String} (h : part.toList <:+: whole.toList) :
    part.toList <:+: (before ++ whole ++ after).toList := by
  rw [String.toList_append, String.toList_append]
  exact h.trans ⟨before.toList, after.toList, rfl⟩

theorem infix_optional {part inner : String} (n : Bool) (h : part.toList <:+: inner.toList) :
    part.toList <:+: (if n then "Option<" ++ inner ++ ">" else inner).toList := by
  cases n with
  | false => exact h
  | true => exact infix_between "Option<" ">" h

/-- What a descriptor carries is found in its text. -/
theorem Carries.infix_text (h : Carries text d) : text.toList <:+: d.text.toList := by
  induction h with
  | @here arguments n m => exact infix_optional n List.infix_rfl
  | @array length element n m _ ih =>
    refine infix_optional n ?_
    have hlength : "[" ++ element.text ++ "; " ++ length ++ "]" = "[" ++ element.text ++ ("; " ++ length ++ "]") := by
      simp only [String.append_assoc]
    exact hlength ▸ infix_between "[" ("; " ++ length ++ "]") ih
  | @slice element n m _ ih => exact infix_optional n (infix_between "[" "]" ih)
  | @referent lifetime mutable referent n m _ ih =>
    refine infix_optional n ?_
    rw [String.toList_append]
    exact ih.trans (List.suffix_append _ _).isInfix
  | @argument path arguments argument n m hmem _ ih =>
    refine infix_optional n ?_
    have harguments : arguments.isEmpty = false := List.isEmpty_eq_false_iff.mpr (List.ne_nil_of_mem hmem)
    rw [harguments, if_neg Bool.false_ne_true]
    have hwritten : argument.text ∈ texts arguments := texts_eq_map arguments ▸ List.mem_map_of_mem hmem
    exact infix_between (path ++ "<") ">" (ih.trans (infix_intercalate ", " hwritten))

/-- What a declared type mentions is carried by its descriptor. -/
theorem carries_views {t : TypeRef} (h : t.Mentions text) :
    Carries text (structural t) ∧ Carries text (canonical t) := by
  induction h with
  | here => exact ⟨.here, .here⟩
  | array _ ih => exact ⟨.array ih.2, .array ih.2⟩
  | slice _ ih => exact ⟨.slice ih.2, .slice ih.2⟩
  | referent _ ih => exact ⟨.referent ih.2, .referent ih.2⟩
  | @argument path arguments argument hmem h ih =>
    have hstructural : Carries text (structural (.path path arguments)) := by
      rw [structural_path]
      exact .argument (List.mem_map_of_mem hmem) ih.2
    refine ⟨hstructural, ?_⟩
    cases hoptional : (TypeRef.path path arguments).optional? with
    | none => rwa [canonical_of_not_optional hoptional]
    | some inner =>
      obtain rfl := TypeRef.arguments_of_optional hoptional
      rw [canonical_of_optional hoptional]
      rw [List.mem_singleton] at hmem
      exact (hmem ▸ ih.1).asNullable

end Descriptor

/-! ## Plans -/

namespace Request

open Descriptor

variable {r : Request} {c : Constructor} {f : Parameter} {text : String}

/-- A builder holds each field as a type that is written with what the declared one mentions. -/
theorem carries_field (h : r.constructor = .ok c) (hf : f ∈ r.fields) (hmentions : f.type.Mentions text) :
    (r.field c f).1.descriptor.Carries text := by
  obtain ⟨p, hp⟩ := exists_parameter h hf
  have hheld : (r.field c f).1.descriptor = (r.fieldDescriptor c f).1 := rfl
  have hdeclared : (canonical f.type).Carries text := (carries_views hmentions).2
  rw [hheld]
  rcases r.fieldDescriptor_cases hp with ⟨hkept, -⟩ | ⟨hdropped, -⟩
  · rw [hkept, describe_eq_adjusted]
    exact hdeclared.adjusted _
  · rw [hdropped]
    exact hdeclared

theorem not_isImplTrait_of_plan {plan : BuilderPlan} {problems : List Diagnostic} (h : r.plan = .ok (plan, problems)) :
    ∀ f ∈ r.fields, ¬ f.type.isImplTrait :=
  (forall_conditions_iff.mp (exists_constructor_iff.mp (exists_plan_iff.mp ⟨plan, problems, h⟩))).2.2.1

/-- A field that is an `impl Trait` abandons the builder, and the report is about the field where nothing checked
before it is wrong. A planned field mentions an `impl Trait` only inside of its type, and then the builder holds it
as a type that is written with it. -/
theorem impl_traits_are_refused_at_the_top (r : Request) :
    (∀ f ∈ r.fields, f.type.isImplTrait → ∃ problem, r.plan = .error problem) ∧
    (∀ f, r.FirstViolated (.type f) → r.plan =
      .error (.error ("field `" ++ f.name ++ "` has an `impl Trait` type, which a builder cannot store") f.location)) ∧
    ∀ plan problems, r.plan = .ok (plan, problems) →
      ((∀ f ∈ r.fields, ¬ ∃ text, f.type.Mentions text) ↔ ∀ f ∈ r.fields, ¬ f.type.HidesImplTrait) ∧
      ∀ (i : Nat) f text, r.fields[i]? = some f → f.type.Mentions text →
        ∃ g, plan.fields[i]? = some g ∧ text.toList <:+: g.descriptor.text.toList := by
  refine ⟨fun f hf himpl => ?_, fun f hfirst => ?_, fun plan problems hp => ⟨?_, fun i f text hi hmentions => ?_⟩⟩
  · cases hp : r.plan with
    | error problem => exact ⟨problem, rfl⟩
    | ok planned => exact absurd himpl (not_isImplTrait_of_plan hp f hf)
  · exact plan_eq_error_iff.mpr (constructor_eq_error_iff.mpr ⟨_, hfirst, rfl⟩)
  · have himpl := not_isImplTrait_of_plan hp
    constructor
    · exact fun h f hf hhides => h f hf hhides.1
    · exact fun h f hf hmentions => h f hf ⟨hmentions, himpl f hf⟩
  · obtain ⟨c, hc, hfields, -⟩ := fields_of_plan hp
    have hcarries := carries_field hc (List.mem_of_getElem? hi) hmentions
    refine ⟨(r.field c f).1, ?_, hcarries.infix_text⟩
    rw [hfields, List.getElem?_map, hi, Option.map_some]

/-- What converts into a text. -/
def intoText : TypeRef := .implTrait "impl Into < String >"

/-- A struct of a list of these. -/
def textsRequest : Request := dataRequest (.path "Vec" [intoText]) (.path "Vec" [intoText]) .none

theorem mentions_intoText : (TypeRef.path "Vec" [intoText]).Mentions "impl Into < String >" :=
  .argument List.mem_cons_self .here

theorem exists_plan_of_texts : ∃ plan problems, textsRequest.plan = .ok (plan, problems) := by
  have hunit : Syntax.readIdentifier textsRequest.unit = .ok "ViewBuilder" := by rfl
  have hreserved : reservedNames.contains "data" = false := by decide
  exact exists_plan (constructor_of_accepts hunit (List.forall_mem_singleton.mpr ⟨hreserved, rfl⟩) rfl)

/-- A struct of one is refused. One of a list of them has a builder that holds the list as it is written. -/
theorem impl_traits_are_refused_at_the_top_of_a_view :
    (dataRequest intoText intoText .none).plan =
      .error (.error "field `data` has an `impl Trait` type, which a builder cannot store" ⟨"lib.rs", 5, 5⟩) ∧
    ∃ plan problems g, textsRequest.plan = .ok (plan, problems) ∧ plan.fields[0]? = some g ∧
      "impl Into < String >".toList <:+: g.descriptor.text.toList := by
  constructor
  · have hunit : Syntax.readIdentifier "ViewBuilder" = .ok "ViewBuilder" := by rfl
    have hname : "data" ∉ reservedNames := by decide
    obtain ⟨-, hfirst, -⟩ := impl_traits_are_refused_at_the_top (dataRequest intoText intoText .none)
    refine hfirst (dataField intoText .none) ⟨[.unit, .name (dataField intoText .none)], [.constructor], rfl, ?_, ?_⟩
    · exact List.forall_mem_cons.mpr ⟨⟨_, hunit⟩, List.forall_mem_singleton.mpr hname⟩
    · exact not_not_intro rfl
  · obtain ⟨plan, problems, hp⟩ := exists_plan_of_texts
    obtain ⟨-, -, hplanned⟩ := impl_traits_are_refused_at_the_top textsRequest
    obtain ⟨g, hg, hwritten⟩ := (hplanned plan problems hp).2 0 _ _ rfl mentions_intoText
    exact ⟨plan, problems, g, hp, hg, hwritten⟩

/-- A list is planned, although a builder cannot store what is in it. -/
theorem a_list_of_impl_traits_is_planned :
    ∃ r plan problems, Request.plan r = .ok (plan, problems) ∧ ∃ f ∈ r.fields, ∃ text, f.type.Mentions text := by
  obtain ⟨plan, problems, hp⟩ := exists_plan_of_texts
  exact ⟨_, plan, problems, hp, _, List.mem_cons_self, _, mentions_intoText⟩

end Request

end BuilderSynthesis
