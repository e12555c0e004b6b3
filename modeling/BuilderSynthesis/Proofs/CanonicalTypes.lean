/-
  BuilderSynthesis.Proofs.CanonicalTypes — a descriptor determines the declared type, but for its spelling.

  Declared types are the same but for their spelling if they are equal once every optional type is written as
  `Option` and every `impl Trait` type is a text (`respelled`). A descriptor can be spelled out as a type again
  (`spelledOut`), and for a declared type this gives back the type itself, respelled (`spelledOut_views`). So types
  with one descriptor are the same but for their spelling, and planning, which compares descriptors, never takes
  one type for another (`canonical_tells_types_apart`).
-/

import BuilderSynthesis.Proofs.HeldTypes

namespace BuilderSynthesis

/-! ## Spelling -/

namespace TypeRef

/-- The path of a type with these arguments, where the optional type has only one name. -/
def spelling {α : Type} (p : String) (arguments : List α) : String :=
  if isOptionPath p && arguments.length == 1 then "Option" else p

mutual

/-- The type with every optional type written as `Option`, and every `impl Trait` type as a text. -/
def respelled : TypeRef → TypeRef
  | .array element length => .array (respelled element) length
  | .slice element => .slice (respelled element)
  | .path p arguments => .path (spelling p arguments) (respelledAll arguments)
  | .reference l m referent => .reference l m (respelled referent)
  | .implTrait text => .verbatim text
  | .primitive name => .primitive name
  | .lifetime name => .lifetime name
  | .verbatim text => .verbatim text

def respelledAll : List TypeRef → List TypeRef
  | [] => []
  | type :: rest => respelled type :: respelledAll rest

end

theorem respelledAll_eq_map (types : List TypeRef) : respelledAll types = types.map respelled := by
  induction types with
  | nil => rfl
  | cons type rest ih => rw [respelledAll, ih, List.map_cons]

end TypeRef

namespace Descriptor

open TypeRef

/-- A type of this base with these arguments. -/
def typeOfBase : Base → List TypeRef → TypeRef
  | .primitive name, _ => .primitive name
  | .array length, arguments => .array (arguments.headD default) length
  | .slice, arguments => .slice (arguments.headD default)
  | .named p, arguments => .path (spelling p arguments) arguments
  | .reference l m, arguments => .reference l m (arguments.headD default)
  | .lifetime name, _ => .lifetime name
  | .verbatim text, _ => .verbatim text

mutual

/-- The descriptor as a declared type. -/
def spelledOut : Descriptor → TypeRef
  | mk base arguments nullable _ =>
    if nullable then .path "Option" [typeOfBase base (spelledOutAll arguments)]
    else typeOfBase base (spelledOutAll arguments)

def spelledOutAll : List Descriptor → List TypeRef
  | [] => []
  | d :: rest => spelledOut d :: spelledOutAll rest

end

theorem spelledOut_plain (base : Base) (arguments : List Descriptor) :
    (plain base arguments).spelledOut = typeOfBase base (spelledOutAll arguments) := by simp [plain, spelledOut]

/-- An outer mark that is set is spelled out as an `Option` around the rest. -/
theorem spelledOut_asNullable {d : Descriptor} (h : d.nullable = false) :
    d.asNullable.spelledOut = .path "Option" [d.spelledOut] := by
  rcases d with ⟨base, arguments, n, m⟩
  obtain rfl : n = false := h
  simp [asNullable, spelledOut]

mutual

/-- Taken as it stands or with its outer option as a mark, a type is spelled out as itself. -/
theorem spelledOut_views : ∀ type : TypeRef,
    (structural type).spelledOut = type.respelled ∧ (canonical type).spelledOut = type.respelled
  | .primitive name => ⟨rfl, rfl⟩
  | .array element length => by
    have helement := (spelledOut_views element).2
    have h : (plain (.array length) [canonical element]).spelledOut = (TypeRef.array element length).respelled := by
      simp [spelledOut_plain, spelledOutAll, typeOfBase, respelled, helement]
    exact ⟨h, h⟩
  | .slice element => by
    have helement := (spelledOut_views element).2
    have h : (plain .slice [canonical element]).spelledOut = (TypeRef.slice element).respelled := by
      simp [spelledOut_plain, spelledOutAll, typeOfBase, respelled, helement]
    exact ⟨h, h⟩
  | .path p arguments => by
    have harguments := spelledOutAll_canonical arguments
    have hstructural : (structural (.path p arguments)).spelledOut = (TypeRef.path p arguments).respelled := by
      simp [structural_path, spelledOut_plain, typeOfBase, respelled, harguments, spelling, respelledAll_eq_map]
    refine ⟨hstructural, ?_⟩
    cases h : (TypeRef.path p arguments).optional? with
    | none => rw [canonical_of_not_optional h, hstructural]
    | some inner =>
      obtain ⟨rfl, hp⟩ : arguments = [inner] ∧ isOptionPath p = true := by
        unfold optional? at h
        split at h <;> simp_all
      have hinner := (spelledOut_views inner).1
      rw [canonical_of_optional h, spelledOut_asNullable (structural_nullable inner), hinner]
      simp [respelled, respelledAll, spelling, hp]
  | .reference l m referent => by
    have hreferent := (spelledOut_views referent).2
    have h : (plain (.reference l m) [canonical referent]).spelledOut = (TypeRef.reference l m referent).respelled := by
      simp [spelledOut_plain, spelledOutAll, typeOfBase, respelled, hreferent]
    exact ⟨h, h⟩
  | .lifetime name => ⟨rfl, rfl⟩
  | .implTrait text => ⟨rfl, rfl⟩
  | .verbatim text => ⟨rfl, rfl⟩

theorem spelledOutAll_canonical : ∀ types : List TypeRef, spelledOutAll (types.map canonical) = respelledAll types
  | [] => rfl
  | type :: rest => by
    rw [List.map_cons, spelledOutAll, (spelledOut_views type).2, spelledOutAll_canonical rest, respelledAll]

end

/-- Types with one descriptor are the same but for their spelling. -/
theorem respelled_eq_of_canonical_eq {a b : TypeRef} (h : canonical a = canonical b) : a.respelled = b.respelled := by
  rw [← (spelledOut_views a).2, h, (spelledOut_views b).2]

/-- Types with one descriptor are the same but for their spelling. So for every planned field there is one type, the
declared one or the one that the constructor takes, that the builder holds: any type with the descriptor of the field
is this one, and a field is copied only through an accessor of this type. -/
theorem canonical_tells_types_apart :
    (∀ a b : TypeRef, canonical a = canonical b → a.respelled = b.respelled) ∧
    ∀ (r : Request) (plan : BuilderPlan) (problems : List Diagnostic), r.plan = .ok (plan, problems) →
      ∃ c, r.constructor = .ok c ∧ List.Forall₂ (fun f p => ∃ taken held, c.parameter? p.name = some taken ∧
        (held = p.type ∨ held = taken.type) ∧
        (∀ type : TypeRef, canonical type = f.descriptor → type.respelled = held.respelled) ∧
        ∀ kind, f.copy = some kind → ∃ a ∈ r.accessors, a.property = p.name ∧ a.kind = kind ∧
          a.type.respelled = held.respelled) plan.fields r.fields := by
  refine ⟨fun a b => respelled_eq_of_canonical_eq, fun r plan problems hp => ?_⟩
  obtain ⟨c, hc, hfields, -⟩ := Request.fields_of_plan hp
  refine ⟨c, hc, ?_⟩
  rw [hfields, List.forall₂_map_left_iff, List.forall₂_same]
  intro p hparameter
  obtain ⟨taken, htaken, hheld⟩ := Request.held_of_constructor hc hparameter
  obtain ⟨held, hwhich, hdescriptor⟩ :
      ∃ held, (held = p.type ∨ held = taken.type) ∧ (r.field c p).1.descriptor = canonical held := by
    rcases hheld with h | h
    · exact ⟨_, .inl rfl, h⟩
    · exact ⟨_, .inr rfl, h⟩
  refine ⟨taken, held, htaken, hwhich, fun type htype => ?_, fun kind hcopy => ?_⟩
  · exact respelled_eq_of_canonical_eq (htype.trans hdescriptor)
  · obtain ⟨a, ha, hkind, hread⟩ := Request.accessor_of_copy hcopy
    have hproperty : a.property = p.name := by simpa using List.find?_some ha
    exact ⟨a, List.mem_of_find?_eq_some ha, hproperty, hkind, respelled_eq_of_canonical_eq (hread.trans hdescriptor)⟩

/-- An option under two of its names, and an option in it that is kept as it is written. -/
theorem canonical_tells_types_apart_of_options :
    ∃ a b : TypeRef, a ≠ b ∧ canonical a = canonical b ∧ a.respelled = b.respelled := by
  have hsame : canonical (.path "std::option::Option" [.path "Vec" [.path "::core::option::Option" [.implTrait "impl Copy"]]]) =
      canonical (.path "Option" [.path "Vec" [.path "option::Option" [.verbatim "impl Copy"]]]) := by rfl
  exact ⟨_, _, by simp, hsame, canonical_tells_types_apart.1 _ _ hsame⟩

/-- Not the other way round: an option right inside an option keeps its name. -/
example : canonical (.path "Option" [.path "option::Option" [.primitive "u8"]]) ≠
    canonical (.path "Option" [.path "Option" [.primitive "u8"]]) := by decide

end Descriptor

end BuilderSynthesis
