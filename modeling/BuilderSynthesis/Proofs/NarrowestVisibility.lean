/-
  BuilderSynthesis.Proofs.NarrowestVisibility — where a struct can be written out.

  Writing a struct out is as visible as the narrowest of the struct and its fields, found by a fold over
  their visibilities. A private item is seen from its module and below, a restricted one from its whole
  crate, so each visibility sees at most what the wider ones see, and the fold may pass over those. Which
  one of two restrictions it keeps does not matter: both admit the same modules (`admits_narrower`). So a
  struct can be written out exactly where it and all its fields are visible, and there all its fields can
  be read (`memberwise_reaches_its_parts`).
-/

import BuilderSynthesis.Declaration.Basic

namespace BuilderSynthesis

/-! ## The narrower of two -/

namespace Visibility

/-- A module that sees what is private to another one lies in the same crate. -/
theorem root_of_isWithin {user owner : ModulePath} (h : user.isWithin owner = true) :
    (owner.root == user.root) = true := by
  unfold ModulePath.isWithin at h
  rw [beq_iff_eq, beq_iff_eq.mp (Bool.and_eq_true_iff.mp h).1]

/-- Restrictions count as visible in the whole crate, so of two visibilities the narrower one admits
whom both admit. -/
theorem admits_narrower (a b : Visibility) (owner user : ModulePath) :
    (narrower a b).admits owner user = (a.admits owner user && b.admits owner user) := by
  cases a <;> cases b <;> simp only [narrower, admits, Bool.true_and, Bool.and_true, Bool.and_self]
  case restricted.inherited =>
    by_cases h : user.isWithin owner = true
    · simp [h, root_of_isWithin h]
    · simp [h]
  case inherited.restricted =>
    by_cases h : user.isWithin owner = true
    · simp [h, root_of_isWithin h]
    · simp [h]

theorem admits_foldl_narrower (visibilities : List Visibility) (start : Visibility) (owner user : ModulePath) :
    (visibilities.foldl narrower start).admits owner user =
      (start.admits owner user && visibilities.all (·.admits owner user)) := by
  induction visibilities generalizing start with
  | nil => rw [List.foldl_nil, List.all_nil, Bool.and_true]
  | cons v rest ih => rw [List.foldl_cons, ih, admits_narrower, List.all_cons, Bool.and_assoc]

end Visibility

/-! ## Structs -/

namespace DeclaredType

variable {t : DeclaredType} {user : ModulePath}

/-- A struct can be written out where it can be named and all its fields are visible. -/
theorem memberwise_isAccessibleFrom (t : DeclaredType) (user : ModulePath) :
    t.memberwise.isAccessibleFrom user =
      (t.visibility.admits t.module user && t.fields.all (·.visibility.admits t.module user)) := by
  unfold Constructor.isAccessibleFrom memberwise narrowestVisibility
  rw [Visibility.admits_foldl_narrower, List.all_map]
  rfl

/-- A field as it is read by moving it out. -/
def readField (f : FieldDecl) : Accessor := ⟨f.name, .field, f.type⟩

theorem fieldAccessors_of_visible (h : ∀ f ∈ t.fields, f.visibility.admits t.module user = true) :
    t.fieldAccessors user = t.fields.map readField := by
  unfold fieldAccessors
  rw [List.filter_eq_self.mpr h]
  rfl

/-- A struct can be written out exactly where the struct and each of its fields are visible, and there all
of its fields can be read, in their order. -/
theorem memberwise_reaches_its_parts (t : DeclaredType) (user : ModulePath) :
    (t.memberwise.isAccessibleFrom user = true ↔
      t.visibility.admits t.module user = true ∧ ∀ f ∈ t.fields, f.visibility.admits t.module user = true) ∧
    (t.memberwise.isAccessibleFrom user = true → t.fieldAccessors user = t.fields.map readField) := by
  have hparts : t.memberwise.isAccessibleFrom user = true ↔
      t.visibility.admits t.module user = true ∧ ∀ f ∈ t.fields, f.visibility.admits t.module user = true := by
    rw [memberwise_isAccessibleFrom, Bool.and_eq_true_iff, List.all_eq_true]
  exact ⟨hparts, fun h => fieldAccessors_of_visible (hparts.mp h).2⟩

/-! ## A struct with restrictions -/

/-- An open struct in a module, with an open field and two that are restricted in different ways. -/
def gate : DeclaredType where
  name := "Gate"
  module := ⟨0, ["shapes"]⟩
  visibility := .everywhere
  generics := none
  whereClause := none
  shape := .named
  fields :=
    [⟨"width", .primitive "u32", .none, .restricted "pub (crate)", ⟨"shapes.rs", 2, 16⟩⟩,
     ⟨"label", .path "String" [], .none, .everywhere, ⟨"shapes.rs", 3, 9⟩⟩,
     ⟨"height", .primitive "u32", .none, .restricted "pub (super)", ⟨"shapes.rs", 4, 16⟩⟩]
  location := ⟨"shapes.rs", 1, 12⟩

/-- It can be written out and read in a sibling of its module, and not in another crate. -/
theorem memberwise_reaches_its_parts_of_a_gate :
    gate.fieldAccessors ⟨0, ["other"]⟩ =
      [⟨"width", .field, .primitive "u32"⟩, ⟨"label", .field, .path "String" []⟩, ⟨"height", .field, .primitive "u32"⟩] ∧
    gate.memberwise.isAccessibleFrom (.crateRoot 1) = false := by
  have hsibling : gate.memberwise.isAccessibleFrom ⟨0, ["other"]⟩ = true :=
    (memberwise_reaches_its_parts gate ⟨0, ["other"]⟩).1.mpr ⟨rfl, by decide⟩
  refine ⟨(memberwise_reaches_its_parts gate ⟨0, ["other"]⟩).2 hsibling, ?_⟩
  rw [Bool.eq_false_iff]
  intro h
  have hwidth := ((memberwise_reaches_its_parts gate (.crateRoot 1)).1.mp h).2 _ List.mem_cons_self
  exact absurd hwidth (by decide)

end DeclaredType

end BuilderSynthesis
