/-
  BuilderSynthesis.Proofs.AcceptedModifiers — which modified types a plan keeps.

  A field keeps its modified type when the constructor accepts it, and otherwise it is reported and built
  as declared. Accepted means the same descriptor, not the same text (`keeps_iff`). A collection that was
  exchanged for its mutable counterpart carries a mark that no declared type has, so it is never accepted,
  although the parameter may be written just like it (`a_mutable_slice_is_not_accepted`). For types that
  are written in a source this is the only difference (`keeps_iff_of_isWritten`). `keeps_modified_iff` puts
  together when a type is kept.
-/

import BuilderSynthesis.Proofs.DeclaredTexts
import BuilderSynthesis.Proofs.Planning

namespace BuilderSynthesis

namespace Descriptor

/-- Nothing is reported where each adjustment that is asked for applies to the declared type. -/
theorem describe_snd_eq_nil {type : TypeRef} {modifiers : Modifiers} (location : Location)
    (h : ∀ a ∈ Adjustment.asked modifiers, ((canonical type).apply a).isOk) :
    (describe type modifiers location).2 = [] := by
  have happlies : ∀ {asked : Bool} {a : Adjustment} {d : Descriptor}, (asked = true → (d.apply a).isOk) →
      (adjustIf asked (·.apply a) location d).2 = [] := by
    intro asked a d h
    cases asked with
    | false => rfl
    | true =>
      rw [adjustIf, if_pos rfl]
      cases ha : d.apply a with
      | ok adjusted => rfl
      | error e =>
        rw [ha] at h
        exact absurd (h rfl) Bool.false_ne_true
  have hfirst : (adjustIf modifiers.nullableElement withNullableElement location (canonical type)).1 = _ :=
    adjustIf_fst _ .nullableElement ..
  have helement : (adjustIf modifiers.nullableElement withNullableElement location (canonical type)).2 = [] :=
    happlies (a := .nullableElement) fun ha => h _ (by simp [Adjustment.asked, ha])
  have hmutable : (adjustIf modifiers.mutable asMutableCollection location
      (adjustIf modifiers.nullableElement withNullableElement location (canonical type)).1).2 = [] := by
    refine happlies (a := .mutable) fun ha => ?_
    rw [hfirst, applies_adjusted]
    exact h _ (by simp [Adjustment.asked, ha])
  exact List.append_eq_nil_iff.mpr ⟨helement, hmutable⟩

end Descriptor

namespace Request

open Descriptor

variable {r : Request} {c : Constructor} {f p : Parameter}

/-- The type of a field with its modifiers. -/
def modified (f : Parameter) : Descriptor := (describe f.type f.modifiers f.location).1

/-- A field and the parameter that takes it, where the modifiers of the field apply and make of its type
one that is written like the type of the parameter. -/
structure Meets (r : Request) (c : Constructor) (f p : Parameter) : Prop where
  chosen : r.constructor = .ok c
  field : f ∈ r.fields
  parameter : c.parameter? f.name = some p
  applies : ∀ a ∈ Adjustment.asked f.modifiers, ((canonical f.type).apply a).isOk
  text : (modified f).text = (canonical p.type).text

/-- The planned field has the type of the parameter, and nothing is reported about it. -/
def Keeps (r : Request) (c : Constructor) (f p : Parameter) : Prop :=
  (r.field c f).1.descriptor.text = (canonical p.type).text ∧ (r.fieldDescriptor c f).2 = []

theorem keeps_iff (h : r.Meets c f p) :
    r.Keeps c f p ↔ modified f = canonical f.type ∨ modified f = canonical p.type := by
  have hproblems : (describe f.type f.modifiers f.location).2 = [] := describe_snd_eq_nil f.location h.applies
  have hdescriptor : (r.field c f).1.descriptor = (r.fieldDescriptor c f).1 := rfl
  rw [Keeps, hdescriptor]
  rcases r.fieldDescriptor_cases h.parameter with ⟨hkept, hsame⟩ | ⟨hdropped, hchanged, hother⟩
  · rw [hkept]
    exact ⟨fun _ => hsame, fun _ => ⟨h.text, hproblems⟩⟩
  · rw [hdropped]
    refine ⟨fun hkeeps => absurd hkeeps.2 (by simp), fun hsame => ?_⟩
    exact (hsame.elim hchanged hother).elim

/-! ### Exchanged collections -/

/-- `mutable` is asked for and exchanges the type of the field. -/
def exchanged (f : Parameter) : Bool := f.modifiers.mutable && (canonical f.type).hasCounterpart

/-- The type of a field before `mutable` is applied. -/
def withElement (f : Parameter) : Descriptor :=
  (canonical f.type).adjusted (if f.modifiers.nullableElement then [.nullableElement] else [])

theorem modified_eq (f : Parameter) :
    modified f = if f.modifiers.mutable then (withElement f).adjustedBy .mutable else withElement f := by
  rw [modified, describe_eq_adjusted, adjusted, Adjustment.asked, List.foldl_append]
  cases f.modifiers.mutable <;> rfl

theorem hasCounterpart_withElement (f : Parameter) :
    (withElement f).hasCounterpart = (canonical f.type).hasCounterpart := by
  unfold withElement
  split
  · exact hasCounterpart_congr (collectionForm_adjustedBy_nullableElement _)
  · rfl

theorem mutableCollection_withElement (f : Parameter) : (withElement f).mutableCollection = false := by
  obtain ⟨⟨hdeclared, -⟩, -⟩ := throughout_canonical f.type
  unfold withElement
  generalize canonical f.type = d at hdeclared
  obtain ⟨base, arguments, n, m⟩ := d
  split
  · change ((Descriptor.mk base arguments n m).adjustedBy .nullableElement).mutableCollection = false
    rw [adjustedBy_nullableElement]
    exact hdeclared
  · exact hdeclared

theorem mutableCollection_modified (f : Parameter) : (modified f).mutableCollection = exchanged f := by
  rw [modified_eq, exchanged, ← hasCounterpart_withElement]
  cases f.modifiers.mutable with
  | false => exact mutableCollection_withElement f
  | true =>
    rw [if_pos rfl, adjustedBy_mutable, mutableCollection_withElement, Bool.false_or, Bool.true_and]
    rfl

theorem modified_of_not_exchanged (h : exchanged f = false) : modified f = withElement f := by
  rw [exchanged, ← hasCounterpart_withElement] at h
  rw [modified_eq]
  cases hm : f.modifiers.mutable with
  | false => rfl
  | true =>
    rw [hm, Bool.true_and] at h
    rw [if_pos rfl, adjustedBy_mutable_of_hasCounterpart h]

/-- The mutable counterpart of a collection is no declared type, and so no parameter accepts it. -/
theorem not_keeps_of_exchanged (h : r.Meets c f p) (hm : exchanged f = true) : ¬ r.Keeps c f p := by
  have hdeclared : ∀ type, modified f ≠ canonical type := by
    intro type he
    obtain ⟨⟨hnone, -⟩, -⟩ := throughout_canonical type
    rw [← mutableCollection_modified, he, hnone] at hm
    cases hm
  rw [keeps_iff h, not_or]
  exact ⟨hdeclared _, hdeclared _⟩

/-- A written type that is not exchanged is known by its text, and so the parameter accepts it. -/
theorem keeps_iff_of_isWritten (h : r.Meets c f p) (hf : f.type.IsWritten) (hp : p.type.IsWritten) :
    r.Keeps c f p ↔ exchanged f = false := by
  refine ⟨fun hkeeps => Bool.eq_false_iff.mpr fun hm => not_keeps_of_exchanged h hm hkeeps, fun hm => ?_⟩
  obtain ⟨t, htplain, htproper, ht⟩ := hf.read
  obtain ⟨u, huplain, huproper, hu⟩ := hp.read
  obtain ⟨written, hwritten⟩ := exists_writes_describe htplain htproper f.modifiers f.location
  obtain ⟨accepted, haccepted⟩ := exists_writes false huplain huproper
  rw [← ht] at hwritten
  rw [← hu] at haccepted
  have hfaithful : Throughout Faithful (modified f) := by
    rw [modified_of_not_exchanged hm, withElement]
    split
    · exact hf.faithful.nullableElement (throughout_canonical f.type)
    · exact hf.faithful
  exact (keeps_iff h).mpr (.inr (hwritten.eq_of_text_eq haccepted hfaithful hp.faithful h.text))

/-! ### Plans -/

/-- Each planned field has the place of its field. One whose modified type is written like the accepted type
has this type, and nothing is reported about it, exactly when its modifiers change nothing or it is the
accepted type as a descriptor. A mutable counterpart never is; of the types that are written in a source,
all others are. -/
theorem keeps_modified_iff {plan : BuilderPlan} {problems : List Diagnostic} (hp : r.plan = .ok (plan, problems))
    (h : r.Meets c f p) :
    (∀ i : Nat, r.fields[i]? = some f → plan.fields[i]? = some (r.field c f).1) ∧
      (∀ problem ∈ (r.fieldDescriptor c f).2, problem ∈ problems) ∧
      (r.Keeps c f p ↔ modified f = canonical f.type ∨ modified f = canonical p.type) ∧
      (exchanged f = true → ¬ r.Keeps c f p) ∧
      (f.type.IsWritten → p.type.IsWritten → (r.Keeps c f p ↔ exchanged f = false)) := by
  obtain ⟨d, hd, hfields, -⟩ := fields_of_plan hp
  obtain rfl : c = d := Except.ok.inj (h.chosen.symm.trans hd)
  obtain ⟨e, he, hproblems⟩ := planning_eq_ok hp
  obtain rfl : c = e := Except.ok.inj (hd.symm.trans he)
  refine ⟨fun i hi => ?_, fun problem hproblem => ?_, keeps_iff h, not_keeps_of_exchanged h, keeps_iff_of_isWritten h⟩
  · rw [hfields, List.getElem?_map, hi, Option.map_some]
  · rw [hproblems]
    refine List.mem_flatMap.mpr ⟨f, h.field, ?_⟩
    exact List.mem_append_left _ (List.mem_append_left _ hproblem)

/-! ### A struct of one field -/

/-- The field of the struct. -/
def dataField (type : TypeRef) (modifiers : Modifiers) : Parameter := ⟨"data", type, modifiers, ⟨"lib.rs", 5, 5⟩⟩

/-- The function that makes the struct. -/
def dataConstructor (type : TypeRef) : Constructor where
  kind := .function "new"
  parameters := [⟨"data", type, .none, ⟨"lib.rs", 9, 16⟩⟩]
  visibility := .everywhere
  module := .crateRoot 0
  location := ⟨"lib.rs", 9, 12⟩

/-- The builder of a struct that takes its field as another type. -/
def dataRequest (field accepted : TypeRef) (modifiers : Modifiers) : Request where
  target := ⟨"View", "View", some "<'a>", none⟩
  suffix := defaultSuffix
  visibility := .inherited
  fields := [dataField field modifiers]
  constructors := [dataConstructor accepted]
  accessors := []
  entryPoint := true
  module := .crateRoot 0
  location := ⟨"lib.rs", 3, 1⟩

theorem constructor_of_accepts {name : String} (hunit : Syntax.readIdentifier r.unit = .ok name)
    (hfields : ∀ f ∈ r.fields, reservedNames.contains f.name = false ∧ f.type.isImplTrait = false)
    (haccepts : Constructor.accepting? r.constructors r.names = some c) : r.constructor = .ok c := by
  have hunit : r.unitProblem? = none := by
    unfold unitProblem?
    rw [hunit]
  have hfields : r.fields.findSome? r.fieldProblem? = none := by
    refine List.findSome?_eq_none_iff.mpr fun f hf => ?_
    unfold fieldProblem?
    rw [(hfields f hf).1, (hfields f hf).2]
    rfl
  exact constructor_of_checks hunit hfields haccepts

theorem meets_dataRequest (field accepted : TypeRef) (modifiers : Modifiers) (himpl : field.isImplTrait = false)
    (happlies : ∀ a ∈ Adjustment.asked modifiers, ((canonical field).apply a).isOk)
    (htext : (modified (dataField field modifiers)).text = (canonical accepted).text) :
    (dataRequest field accepted modifiers).Meets (dataConstructor accepted) (dataField field modifiers)
      ⟨"data", accepted, .none, ⟨"lib.rs", 9, 16⟩⟩ := by
  have hname : Syntax.readIdentifier ("View" ++ defaultSuffix) = .ok "ViewBuilder" := by rfl
  have hreserved : reservedNames.contains "data" = false := by decide
  exact ⟨constructor_of_accepts hname (List.forall_mem_singleton.mpr ⟨hreserved, himpl⟩) rfl, List.mem_cons_self, rfl,
    happlies, htext⟩

/-- A plain type of a text is written, if its descriptor is faithful. -/
theorem isWritten_of_text (text : String) {type : TypeRef}
    (h : (Syntax.readType text).toOption.any (fun t => t.isPlain && decide (TypeRef.ofType t = type)) = true)
    (hfaithful : Throughout Faithful (canonical type)) : type.IsWritten := by
  obtain ⟨t, ht, hp⟩ := exists_of_any text _ h
  obtain ⟨hplain, htype⟩ := Bool.and_eq_true_iff.mp hp
  exact ⟨⟨t, hplain, Syntax.proper_of_readType ht, (of_decide_eq_true htype).symm⟩, hfaithful⟩

/-- A list keeps its optional elements where the constructor takes it so. -/
theorem keeps_modified_of_a_list :
    ∃ r c f p plan problems, Request.plan r = .ok (plan, problems) ∧ r.Meets c f p ∧ f.type.IsWritten ∧
      p.type.IsWritten ∧ modified f ≠ canonical f.type ∧ r.Keeps c f p := by
  have hmeets := meets_dataRequest (.path "Vec" [.primitive "u8"]) (.path "Vec" [.path "Option" [.primitive "u8"]])
    ⟨true, false, none⟩ rfl (by decide) (by rfl)
  have hfaithful : ∀ n, Throughout Faithful (.plain (.named "Vec") [.mk (.primitive "u8") [] n false]) := fun n =>
    .intro ⟨rfl, fun _ _ hnil => absurd hnil (List.cons_ne_nil _ _)⟩
      (List.forall_mem_singleton.mpr (.intro ⟨rfl, fun _ hname => by cases hname⟩ fun _ h => by cases h))
  have hfield : (TypeRef.path "Vec" [.primitive "u8"]).IsWritten :=
    isWritten_of_text "Vec<u8>" (by decide +kernel) (hfaithful false)
  have haccepted : (TypeRef.path "Vec" [.path "Option" [.primitive "u8"]]).IsWritten :=
    isWritten_of_text "Vec<Option<u8>>" (by decide +kernel) (hfaithful true)
  obtain ⟨plan, problems, hp⟩ := exists_plan hmeets.chosen
  have hkeeps := ((keeps_modified_iff hp hmeets).2.2.2.2 hfield haccepted).mpr rfl
  exact ⟨_, _, _, _, plan, problems, hp, hmeets, hfield, haccepted, by decide, hkeeps⟩

/-- A borrowed slice that is made mutable is written like the accepted type, and is dropped all the same. -/
theorem a_mutable_slice_is_not_accepted :
    ∃ r c f p plan problems, Request.plan r = .ok (plan, problems) ∧ r.Meets c f p ∧ ¬ r.Keeps c f p := by
  have hmeets := meets_dataRequest (.reference (some "'a") false (.slice (.primitive "u8")))
    (.reference (some "'a") true (.slice (.primitive "u8"))) ⟨false, true, none⟩ rfl (by decide) (by rfl)
  obtain ⟨plan, problems, hp⟩ := exists_plan hmeets.chosen
  exact ⟨_, _, _, _, plan, problems, hp, hmeets, not_keeps_of_exchanged hmeets rfl⟩

end Request

end BuilderSynthesis
