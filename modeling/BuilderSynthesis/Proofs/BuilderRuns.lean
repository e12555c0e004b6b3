/-
  BuilderSynthesis.Proofs.BuilderRuns — what a builder does in every run.

  A run starts a builder and calls its setters, and then builds. For a plan whose fields have
  different names, what a run gives can be read off the plan (`runs_as_planned`): the slot of a field
  starts with what the plan says and is overwritten by each call of its setter, the first required
  slot that is empty is named, and otherwise the contents of all slots reach the construction.
-/

import BuilderSynthesis.Built.Slots
import Mathlib.Data.List.Nodup

namespace BuilderSynthesis

variable {V T : Type}

/-! ## Runs -/

/-- How a builder is started. -/
inductive Start (T : Type) where
  /-- With its defaults. -/
  | fresh
  /-- From a finished value. -/
  | finished (x : T)

/-- Calls of setters in order, each by the name of its field. -/
abbrev Calls (V : Type) := List (String × Option V)

namespace BuilderPlan

def started (plan : BuilderPlan) (m : Meaning V T) : Start T → Slots V
  | .fresh => plan.fresh m
  | .finished x => plan.ofFinished m x

/-- The slots after a start and some calls. -/
def called (plan : BuilderPlan) (m : Meaning V T) (start : Start T) (calls : Calls V) : Slots V :=
  plan.afterAll m (plan.started m start) (calls.map fun call => .set call.1 call.2)

/-- What building gives after a start and some calls. -/
def run (plan : BuilderPlan) (m : Meaning V T) (start : Start T) (calls : Calls V) : Except MissingField T :=
  plan.built m (plan.called m start calls)

end BuilderPlan

/-! ## What runs should do -/

/-- What the slot of a field holds after a call, which may be one of another setter. -/
def overwritten (name : String) (held : Option V) (call : String × Option V) : Option V :=
  if call.1 = name then call.2 else held

namespace PlannedField

/-- What the slot of a field starts with. -/
def startValue (m : Meaning V T) (f : PlannedField) : Start T → Option V
  | .fresh => f.default.map m.default
  | .finished x =>
    match f.copy with
    | some (.getter method) => m.getter method x
    | some .field => m.field f.name x
    | none => f.default.map m.default

/-- What it holds in the end: every call of the field's setter overwrites it. -/
def finalValue (m : Meaning V T) (start : Start T) (calls : Calls V) (f : PlannedField) : Option V :=
  calls.foldl (overwritten f.name) (f.startValue m start)

/-- A required field whose slot is empty in the end. -/
def IsMissing (m : Meaning V T) (start : Start T) (calls : Calls V) (f : PlannedField) : Prop :=
  f.required = true ∧ f.finalValue m start calls = none

end PlannedField

/-- The target out of a value for every field. -/
def BuilderPlan.assembled (plan : BuilderPlan) (m : Meaning V T) (value : PlannedField → Option V) : T :=
  match plan.construction with
  | .literal => m.literal (plan.fields.map fun f => (f.name, value f))
  | .call function arguments => m.call function (arguments.map fun name => (plan.field? name).bind value)

/-- A builder does in every run what its plan says. -/
structure RunsAsPlanned (plan : BuilderPlan) (m : Meaning V T) : Prop where
  /-- Building fails exactly if a required slot is empty. -/
  fails_iff : ∀ start calls,
    (∃ e, plan.run m start calls = .error e) ↔ ∃ f ∈ plan.fields, f.IsMissing m start calls
  /-- The failure names the builder and the first such field. -/
  names_first : ∀ start calls e, plan.run m start calls = .error e →
    ∃ before f after, plan.fields = before ++ f :: after ∧ f.IsMissing m start calls ∧
      (∀ g ∈ before, ¬ g.IsMissing m start calls) ∧ e = ⟨plan.unit, f.name⟩
  /-- Otherwise the contents of all slots are handed on, also of those that are empty. -/
  constructs : ∀ start calls, (∀ f ∈ plan.fields, ¬ f.IsMissing m start calls) →
    plan.run m start calls = .ok (plan.assembled m (·.finalValue m start calls))
  /-- Calls of different setters can change places. -/
  commutes : ∀ start before after {a b : String} (x y : Option V), a ≠ b →
    plan.run m start (before ++ (a, x) :: (b, y) :: after) = plan.run m start (before ++ (b, y) :: (a, x) :: after)
  /-- A call makes no difference if its setter is called again later. -/
  last_wins : ∀ start before between after (a : String) (x y : Option V),
    plan.run m start (before ++ (a, x) :: between ++ (a, y) :: after) =
      plan.run m start (before ++ between ++ (a, y) :: after)

/-! ## The slots -/

/-- Among items with different names, one is found by its name. -/
theorem find?_named {α : Type} [DecidableEq α] {name : α → String} {items found : List α}
    (nodup : (items.map name).Nodup) (hsub : found ⊆ items) {a : α} (ha : a ∈ items) :
    found.find? (name · == name a) = if a ∈ found then some a else none := by
  have same {b : α} (hb : b ∈ found) (he : (name b == name a) = true) : b = a :=
    List.inj_on_of_nodup_map nodup (hsub hb) ha (eq_of_beq he)
  split
  · rename_i hm
    have hs : (found.find? (name · == name a)).isSome := List.find?_isSome.mpr ⟨a, hm, beq_self_eq_true (name a)⟩
    obtain ⟨b, hb⟩ := Option.isSome_iff_exists.mp hs
    rw [hb, same (List.mem_of_find?_eq_some hb) (List.find?_eq_some_iff_append.mp hb).1]
  · rename_i hm
    exact List.find?_eq_none.mpr fun b hb he => hm (same hb he ▸ hb)

namespace BuilderPlan

variable {plan : BuilderPlan} {m : Meaning V T}

theorem field?_name (nodup : plan.fieldNames.Nodup) {f : PlannedField} (hf : f ∈ plan.fields) :
    plan.field? f.name = some f := by
  unfold field?
  rw [find?_named nodup (List.Subset.refl _) hf, if_pos hf]

theorem fresh_name (nodup : plan.fieldNames.Nodup) {f : PlannedField} (hf : f ∈ plan.fields) :
    plan.fresh m f.name = f.default.map m.default := by
  unfold fresh
  rw [field?_name nodup hf]
  rfl

theorem mem_taken {f : PlannedField} (hf : f ∈ plan.fields) : f ∈ plan.taken ↔ f.copy ≠ none := by
  unfold taken PlannedField.isRead PlannedField.isMoved
  rw [List.mem_append, List.mem_filter, List.mem_filter]
  rcases f.copy with _ | _ | method
  · simp [hf]
  · simp [hf]
  · simp [hf]

theorem taken_subset : plan.taken ⊆ plan.fields := by
  intro f hf
  rcases List.mem_append.mp hf with hf | hf
  · exact (List.mem_filter.mp hf).1
  · exact (List.mem_filter.mp hf).1

theorem ofFinished_name (nodup : plan.fieldNames.Nodup) {f : PlannedField} (hf : f ∈ plan.fields) (x : T) :
    plan.ofFinished m x f.name = f.startValue m (.finished x) := by
  unfold ofFinished
  rw [find?_named nodup taken_subset hf]
  cases hc : f.copy with
  | none =>
    rw [if_neg fun hm => (mem_taken hf).mp hm hc]
    simp only [PlannedField.startValue, hc]
    exact fresh_name nodup hf
  | some kind =>
    rw [if_pos ((mem_taken hf).mpr (hc ▸ Option.some_ne_none kind))]
    cases kind <;> simp only [takenFrom, PlannedField.startValue, hc]

theorem started_name (nodup : plan.fieldNames.Nodup) {f : PlannedField} (hf : f ∈ plan.fields) (start : Start T) :
    plan.started m start f.name = f.startValue m start := by
  cases start with
  | fresh => exact fresh_name nodup hf
  | finished x => exact ofFinished_name nodup hf x

/-- A slot holds what it started with until its setter is called, and what it was called with
last. -/
theorem afterAll_set (s : Slots V) (calls : Calls V) (name : String) :
    plan.afterAll m s (calls.map fun call => .set call.1 call.2) name =
      calls.foldl (overwritten name) (s name) := by
  induction calls generalizing s with
  | nil => rfl
  | cons call rest ih =>
    show plan.afterAll m (s.set call.1 call.2) (rest.map fun call => .set call.1 call.2) name = _
    rw [ih, List.foldl_cons, overwritten]
    by_cases h : call.1 = name
    · rw [if_pos h, ← h, Slots.set_same]
    · rw [if_neg h, Slots.set_other _ _ (Ne.symm h)]

theorem called_name (nodup : plan.fieldNames.Nodup) {f : PlannedField} (hf : f ∈ plan.fields) (start : Start T)
    (calls : Calls V) : plan.called m start calls f.name = f.finalValue m start calls := by
  unfold called
  rw [afterAll_set, started_name nodup hf]
  rfl

/-! ## Building -/

/-- A required field whose slot is empty. -/
def isEmpty (s : Slots V) (f : PlannedField) : Bool := f.required && (s f.name).isNone

/-- The check stops at the first required field whose slot is empty. -/
theorem check_eq (s : Slots V) :
    plan.check s = match plan.fields.find? (isEmpty s) with
      | some f => .error (plan.missing f)
      | none => .ok () := by
  unfold check
  induction plan.fields with
  | nil => rfl
  | cons f rest ih =>
    rw [List.filter_cons, List.find?_cons]
    cases hr : f.required with
    | false => simpa [isEmpty, hr] using ih
    | true =>
      cases hs : s f.name with
      | none => simp [isEmpty, hr, hs, List.forM_cons, bind, Except.bind]
      | some value => simpa [isEmpty, hr, hs, List.forM_cons, bind, Except.bind] using ih

theorem unpack_eq_ok {s : Slots V} {f : PlannedField} (h : isEmpty s f = false) :
    plan.unpack s f = .ok (f.name, s f.name) := by
  unfold unpack
  cases hr : f.required with
  | false => rfl
  | true =>
    cases hs : s f.name with
    | none => simp [isEmpty, hr, hs] at h
    | some value => rfl

/-- Nothing is missing any more when the slots are unpacked. -/
theorem unpackAll_eq_ok {s : Slots V} {fields : List PlannedField} (h : ∀ f ∈ fields, isEmpty s f = false) :
    fields.mapM (plan.unpack s) = .ok (fields.map fun f => (f.name, s f.name)) := by
  induction fields with
  | nil => rfl
  | cons f rest ih =>
    rw [List.mapM_cons, unpack_eq_ok (h f List.mem_cons_self), ih fun g hg => h g (List.mem_cons_of_mem f hg)]
    rfl

/-- The value under a name is that of the field of the name. -/
theorem lookup_fields (value : PlannedField → Option V) (fields : List PlannedField) (name : String) :
    ((fields.map fun f => (f.name, value f)).lookup name).join = (fields.find? (·.name == name)).bind value := by
  induction fields with
  | nil => rfl
  | cons f rest ih =>
    rw [List.map_cons, List.lookup_cons, List.find?_cons, BEq.comm (a := f.name)]
    cases name == f.name with
    | true => rfl
    | false => exact ih

theorem constructed_fields (value : PlannedField → Option V) :
    plan.constructed m (plan.fields.map fun f => (f.name, value f)) = plan.assembled m value := by
  unfold constructed assembled field?
  cases plan.construction with
  | literal => rfl
  | call function arguments => simp only [lookup_fields]

theorem built_eq (s : Slots V) :
    plan.built m s = match plan.fields.find? (isEmpty s) with
      | some f => .error (plan.missing f)
      | none => .ok (plan.assembled m fun f => s f.name) := by
  unfold built
  rw [check_eq]
  cases hf : plan.fields.find? (isEmpty s) with
  | some f => rfl
  | none =>
    have hn : ∀ f ∈ plan.fields, isEmpty s f = false :=
      fun f hm => Bool.eq_false_iff.mpr (List.find?_eq_none.mp hf f hm)
    show (do let values ← plan.fields.mapM (plan.unpack s); pure (plan.constructed m values)) = _
    rw [unpackAll_eq_ok hn]
    exact congrArg Except.ok (constructed_fields _)

/-! ## Whole runs -/

theorem assembled_congr {value other : PlannedField → Option V} (h : ∀ f ∈ plan.fields, value f = other f) :
    plan.assembled m value = plan.assembled m other := by
  have hnamed (name : String) : (plan.field? name).bind value = (plan.field? name).bind other := by
    cases hf : plan.field? name with
    | none => rfl
    | some f => exact h f (List.mem_of_find?_eq_some hf)
  unfold assembled
  cases plan.construction with
  | literal => exact congrArg m.literal (List.map_congr_left fun f hf => by rw [h f hf])
  | call function arguments => simp only [hnamed]

theorem isEmpty_iff {start : Start T} {calls : Calls V} (nodup : plan.fieldNames.Nodup) {f : PlannedField}
    (hf : f ∈ plan.fields) : isEmpty (plan.called m start calls) f = true ↔ f.IsMissing m start calls := by
  unfold isEmpty PlannedField.IsMissing
  rw [called_name nodup hf, Bool.and_eq_true, Option.isNone_iff_eq_none]

/-- A run fails with the first field that is missing in the end. -/
theorem run_eq_error {start : Start T} {calls : Calls V} {e : MissingField} (nodup : plan.fieldNames.Nodup)
    (h : plan.run m start calls = .error e) :
    ∃ before f after, plan.fields = before ++ f :: after ∧ f.IsMissing m start calls ∧
      (∀ g ∈ before, ¬ g.IsMissing m start calls) ∧ e = ⟨plan.unit, f.name⟩ := by
  unfold run at h
  rw [built_eq] at h
  split at h
  · rename_i f hf
    cases h
    obtain ⟨he, before, after, heq, hb⟩ := List.find?_eq_some_iff_append.mp hf
    refine ⟨before, f, after, heq, (isEmpty_iff nodup (List.mem_of_find?_eq_some hf)).mp he, fun g hg hm => ?_, rfl⟩
    have hgf : g ∈ plan.fields := heq ▸ List.mem_append_left _ hg
    have := hb g hg
    rw [(isEmpty_iff nodup hgf).mpr hm] at this
    cases this
  · cases h

theorem run_eq_ok {start : Start T} {calls : Calls V} (nodup : plan.fieldNames.Nodup)
    (h : ∀ f ∈ plan.fields, ¬ f.IsMissing m start calls) :
    plan.run m start calls = .ok (plan.assembled m (·.finalValue m start calls)) := by
  have hn : plan.fields.find? (isEmpty (plan.called m start calls)) = none :=
    List.find?_eq_none.mpr fun f hf he => h f hf ((isEmpty_iff nodup hf).mp he)
  unfold run
  rw [built_eq, hn]
  exact congrArg Except.ok (assembled_congr fun f hf => called_name nodup hf start calls)

theorem exists_error_of_isMissing {start : Start T} {calls : Calls V} (nodup : plan.fieldNames.Nodup)
    {f : PlannedField} (hf : f ∈ plan.fields) (hm : f.IsMissing m start calls) : ∃ e, plan.run m start calls = .error e := by
  have hs : (plan.fields.find? (isEmpty (plan.called m start calls))).isSome :=
    List.find?_isSome.mpr ⟨f, hf, (isEmpty_iff nodup hf).mpr hm⟩
  obtain ⟨g, hg⟩ := Option.isSome_iff_exists.mp hs
  refine ⟨plan.missing g, ?_⟩
  unfold run
  rw [built_eq, hg]

/-- Calls that leave the same in every slot build the same. -/
theorem run_congr {start : Start T} {calls other : Calls V}
    (h : ∀ name held, calls.foldl (overwritten name) held = other.foldl (overwritten name) held) :
    plan.run m start calls = plan.run m start other := by
  have hs : plan.called m start calls = plan.called m start other := by
    funext name
    unfold called
    rw [afterAll_set, afterAll_set, h]
  unfold run
  rw [hs]

end BuilderPlan

theorem overwritten_same (name : String) (held x : Option V) : overwritten name held (name, x) = x := if_pos rfl

theorem overwritten_other {name other : String} (h : other ≠ name) (held x : Option V) :
    overwritten name held (other, x) = held :=
  if_neg h

theorem overwritten_comm {a b : String} (hab : a ≠ b) (name : String) (held x y : Option V) :
    overwritten name (overwritten name held (a, x)) (b, y) = overwritten name (overwritten name held (b, y)) (a, x) := by
  by_cases ha : a = name
  · subst ha
    rw [overwritten_same, overwritten_same, overwritten_other hab.symm]
  · rw [overwritten_other ha, overwritten_other ha]

/-- A plan whose fields have different names is followed in every run. -/
theorem runs_as_planned {plan : BuilderPlan} (m : Meaning V T) (nodup : plan.fieldNames.Nodup) :
    RunsAsPlanned plan m where
  fails_iff start calls := by
    constructor
    · rintro ⟨e, he⟩
      obtain ⟨before, f, after, heq, hf, -, -⟩ := BuilderPlan.run_eq_error nodup he
      exact ⟨f, heq ▸ List.mem_append_right _ List.mem_cons_self, hf⟩
    · rintro ⟨f, hf, hm⟩
      exact BuilderPlan.exists_error_of_isMissing nodup hf hm
  names_first start calls e h := BuilderPlan.run_eq_error nodup h
  constructs start calls h := BuilderPlan.run_eq_ok nodup h
  commutes start before after a b x y hab := by
    refine BuilderPlan.run_congr fun name held => ?_
    simp only [List.foldl_append, List.foldl_cons]
    rw [overwritten_comm hab]
  last_wins start before between after a x y := by
    refine BuilderPlan.run_congr fun name held => ?_
    simp only [List.foldl_append, List.foldl_cons]
    by_cases ha : a = name
    · rw [ha, overwritten_same, overwritten_same]
    · simp only [overwritten_other ha]

end BuilderSynthesis
