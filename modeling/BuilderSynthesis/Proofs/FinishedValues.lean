/-
  BuilderSynthesis.Proofs.FinishedValues — builders that start from a finished value.

  A builder whose plan copies all fields of a struct that is written out builds the same value again
  (`BuilderPlan.run_finished`).
-/

import BuilderSynthesis.Proofs.BuilderRuns

namespace BuilderSynthesis

variable {V T : Type}

/-! ## Values of a struct -/

/-- A field is read as it was written out. -/
def Meaning.ReadsBack (m : Meaning V T) : Prop :=
  ∀ values name, m.field name (m.literal values) = (values.lookup name).join

namespace DeclaredType

def fieldNames (t : DeclaredType) : List String := t.fields.map (·.name)

/-- A value of a struct has all its fields, and only those of an optional type may be absent. -/
def HasValue (t : DeclaredType) (m : Meaning V T) (x : T) : Prop :=
  ∃ values : List (String × Option V), values.map (·.1) = t.fieldNames ∧ x = m.literal values ∧
    ∀ d ∈ t.fields, (Descriptor.canonical d.type).nullable = false → (values.lookup d.name).join ≠ none

end DeclaredType

namespace BuilderPlan

/-- All fields of the struct are copied into slots. -/
def CopiesAll (plan : BuilderPlan) (t : DeclaredType) : Prop :=
  ∀ d ∈ t.fields, ∃ f ∈ plan.fields, f.name = d.name ∧ f.copy ≠ none

/-- The order in which the fields are declared, by the function that constructs or by the struct. -/
def declaredOrder (plan : BuilderPlan) (t : DeclaredType) : List String :=
  match plan.construction with
  | .literal => t.fieldNames
  | .call _ arguments => arguments

/-- The fields of a struct that is written out are moved and required as they are declared. -/
def WritesOut (plan : BuilderPlan) (t : DeclaredType) : Prop :=
  plan.construction = .literal ∧ ∀ f ∈ plan.fields, f.isRead = false ∧
    ∀ d ∈ t.fields, d.name = f.name → f.required = !(Descriptor.canonical d.type).nullable

/-- A field of the struct is not copied. -/
def LeavesOut (plan : BuilderPlan) (t : DeclaredType) : Prop :=
  ∃ d ∈ t.fields, ∀ f ∈ plan.fields, f.name = d.name → f.copy = none

/-- What is evaluated for a plan. -/
def Suits (plan : BuilderPlan) (t : DeclaredType) : Prop :=
  plan.fieldNames.Nodup ∧ plan.fieldNames = plan.declaredOrder t ∧ (plan.WritesOut t ∨ plan.LeavesOut t)

instance (plan : BuilderPlan) (t : DeclaredType) : Decidable (plan.CopiesAll t) :=
  inferInstanceAs (Decidable (∀ d ∈ t.fields, ∃ f ∈ plan.fields, _ ∧ _))

instance (plan : BuilderPlan) (t : DeclaredType) : Decidable (plan.WritesOut t) :=
  inferInstanceAs (Decidable (_ ∧ ∀ f ∈ plan.fields, _ ∧ ∀ d ∈ t.fields, _ → _))

instance (plan : BuilderPlan) (t : DeclaredType) : Decidable (plan.LeavesOut t) :=
  inferInstanceAs (Decidable (∃ d ∈ t.fields, ∀ f ∈ plan.fields, _ → _))

instance (plan : BuilderPlan) (t : DeclaredType) : Decidable (plan.Suits t) :=
  inferInstanceAs (Decidable (_ ∧ _ ∧ (_ ∨ _)))

end BuilderPlan

/-! ## Round trips -/

/-- Under different names every value is found by its own. -/
theorem lookup_of_mem {values : List (String × Option V)} (nodup : (values.map (·.1)).Nodup) {value : String × Option V}
    (hv : value ∈ values) : values.lookup value.1 = some value.2 := by
  induction values with
  | nil => cases hv
  | cons first rest ih =>
    obtain ⟨hn, hrest⟩ : first.1 ∉ rest.map (·.1) ∧ (rest.map (·.1)).Nodup := List.nodup_cons.mp nodup
    rcases List.mem_cons.mp hv with rfl | hv
    · exact List.lookup_cons_self
    · have hm : value.1 ∈ rest.map (·.1) := List.mem_map_of_mem hv
      have hne : (value.1 == first.1) = false := beq_eq_false_iff_ne.mpr fun he => hn (he ▸ hm)
      rw [List.lookup_cons, hne]
      exact ih hrest hv

/-- Looking up all names in order gives the whole list back. -/
theorem lookup_names {values : List (String × Option V)} (nodup : (values.map (·.1)).Nodup) :
    (values.map (·.1)).map (fun name => (name, (values.lookup name).join)) = values := by
  rw [List.map_map]
  refine (List.map_congr_left fun value hv => ?_).trans (List.map_id values)
  show (value.1, (values.lookup value.1).join) = value
  rw [lookup_of_mem nodup hv]
  rfl

namespace BuilderPlan

variable {plan : BuilderPlan} {t : DeclaredType} {m : Meaning V T}

/-- Where no field of the struct is left out, it is written out, and all fields are moved. -/
theorem moves_of_copiesAll (hs : plan.Suits t) (hc : plan.CopiesAll t) :
    plan.construction = .literal ∧ ∀ f ∈ plan.fields, f.copy = some .field ∧
      ∃ d ∈ t.fields, d.name = f.name ∧ f.required = !(Descriptor.canonical d.type).nullable := by
  obtain ⟨nodup, order, ⟨hl, hw⟩ | ⟨d, hd, hout⟩⟩ := hs
  · refine ⟨hl, fun f hf => ?_⟩
    have hn : f.name ∈ t.fieldNames := by
      have hm : f.name ∈ plan.declaredOrder t := order ▸ List.mem_map_of_mem hf
      rwa [declaredOrder, hl] at hm
    obtain ⟨d, hd, hdn⟩ := List.mem_map.mp hn
    obtain ⟨g, hg, hgn, hcopy⟩ := hc d hd
    have hgf : g = f := List.inj_on_of_nodup_map nodup hg hf (hgn.trans hdn)
    subst hgf
    obtain ⟨hread, hreq⟩ := hw g hg
    refine ⟨?_, d, hd, hdn, hreq d hd hdn⟩
    unfold PlannedField.isRead at hread
    rcases hk : g.copy with _ | _ | method
    · exact absurd hk hcopy
    · rfl
    · simp [hk] at hread
  · obtain ⟨f, hf, hfn, hcopy⟩ := hc d hd
    exact absurd (hout f hf hfn) hcopy

/-- A struct that is copied as a whole is built again. -/
theorem run_finished (hm : m.ReadsBack) (hs : plan.Suits t) (hc : plan.CopiesAll t) {x : T} (hx : t.HasValue m x) :
    plan.run m (.finished x) [] = .ok x := by
  obtain ⟨hl, hmoved⟩ := moves_of_copiesAll hs hc
  obtain ⟨values, hnames, rfl, hpresent⟩ := hx
  obtain ⟨nodup, order, -⟩ := hs
  have hfinal : ∀ f ∈ plan.fields,
      f.finalValue m (.finished (m.literal values)) [] = (values.lookup f.name).join := by
    intro f hf
    simp only [PlannedField.finalValue, List.foldl_nil, PlannedField.startValue, (hmoved f hf).1]
    exact hm values f.name
  have hnone : ∀ f ∈ plan.fields, ¬ f.IsMissing m (.finished (m.literal values)) [] := by
    rintro f hf ⟨hreq, hempty⟩
    obtain ⟨-, d, hd, hdn, hnull⟩ := hmoved f hf
    have hn : (Descriptor.canonical d.type).nullable = false := by simpa [hreq] using hnull
    exact hpresent d hd hn (hdn ▸ (hfinal f hf) ▸ hempty)
  have horder : plan.fieldNames = values.map (·.1) := by
    rw [order, declaredOrder, hl]
    exact hnames.symm
  rw [run_eq_ok nodup hnone, assembled_congr hfinal, assembled, hl]
  have hfields : (plan.fields.map fun f => (f.name, (values.lookup f.name).join)) =
      plan.fieldNames.map fun name => (name, (values.lookup name).join) := by
    rw [fieldNames, List.map_map]
    rfl
  show Except.ok (m.literal (plan.fields.map fun f => (f.name, (values.lookup f.name).join))) = _
  rw [hfields, horder, lookup_names (horder ▸ nodup)]

end BuilderPlan

end BuilderSynthesis
