/-
  BuilderSynthesis.Proofs.ReadableProperties — which properties of a struct a module reads, and how.

  The getters of a struct are offered one after the other, block by block. A field that a module sees
  comes before all of them, and of the getters of one property the first that the module may call is
  taken. So a property is read in one way (`accessors_are_exact`), and a module that is nested in
  another one reads at least what that one reads.

  Everything follows from what one offer adds to the accessors that were found before
  (`mem_taken_iff`, `unread_taken_iff`).
-/

import BuilderSynthesis.Proofs.Scanned
import BuilderSynthesis.Proofs.FinishedValues

namespace BuilderSynthesis

/-! ## Nested modules -/

namespace ModulePath

variable {inner module outer : ModulePath}

theorem isWithin_iff : inner.isWithin outer = true ↔ inner.root = outer.root ∧ outer.segments <+: inner.segments := by
  rw [isWithin, Bool.and_eq_true, beq_iff_eq, List.isPrefixOf_iff_prefix]

theorem isWithin_trans (hi : inner.isWithin module = true) (hm : module.isWithin outer = true) :
    inner.isWithin outer = true := by
  obtain ⟨hroot, hsegments⟩ := isWithin_iff.mp hi
  obtain ⟨hroot', hsegments'⟩ := isWithin_iff.mp hm
  exact isWithin_iff.mpr ⟨hroot.trans hroot', hsegments'.trans hsegments⟩

end ModulePath

/-- What a module can name can be named in the modules nested in it. -/
theorem Visibility.admits_of_isWithin {v : Visibility} {owner user inner : ModulePath} (hw : inner.isWithin user = true)
    (ha : v.admits owner user = true) : v.admits owner inner = true := by
  cases v with
  | everywhere => rfl
  | restricted text => exact beq_iff_eq.mpr ((beq_iff_eq.mp ha).trans (ModulePath.isWithin_iff.mp hw).1.symm)
  | inherited => exact ModulePath.isWithin_trans hw ha

/-! ## One getter -/

/-- A getter, and the module whose block it stands in. -/
structure Offer where
  owner : ModulePath
  getter : Getter

namespace Offer

def property (o : Offer) : String := o.getter.property

def accessor (o : Offer) : Accessor := ⟨o.getter.property, .getter o.getter.method, o.getter.type⟩

/-- A module may call the getter. -/
def isOpenTo (o : Offer) (user : ModulePath) : Bool := o.getter.visibility.admits o.owner user

/-- A module may read a property through the getter. -/
def suits (o : Offer) (property : String) (user : ModulePath) : Bool := o.property == property && o.isOpenTo user

/-- The accessors of a module with those it had before, which come first. -/
def takenInto (user : ModulePath) (found : List Accessor) (o : Offer) : List Accessor :=
  if o.isOpenTo user && !found.any (·.property == o.property) then found ++ [o.accessor] else found

end Offer

namespace Accessor

/-- No accessor reads the property. -/
def Unread (found : List Accessor) (property : String) : Prop := ∀ a ∈ found, a.property ≠ property

theorem unread_iff {found : List Accessor} {property : String} :
    Unread found property ↔ found.any (·.property == property) = false := by
  simp [Unread]

end Accessor

namespace Offer

open Accessor

variable {user : ModulePath} {found : List Accessor} {o : Offer} {offers : List Offer} {a : Accessor} {property : String}

theorem suits_iff : o.suits property user = true ↔ o.property = property ∧ o.isOpenTo user = true := by
  rw [suits, Bool.and_eq_true, beq_iff_eq]

theorem suits_of_isWithin {inner : ModulePath} (hw : inner.isWithin user = true) (h : o.suits property user = true) :
    o.suits property inner = true :=
  suits_iff.mpr ⟨(suits_iff.mp h).1, Visibility.admits_of_isWithin hw (suits_iff.mp h).2⟩

theorem mem_takenInto_iff :
    a ∈ takenInto user found o ↔ a ∈ found ∨ Unread found a.property ∧ o.suits a.property user = true ∧ a = o.accessor := by
  unfold takenInto
  split
  · rename_i htaken
    obtain ⟨hopen, hnew⟩ := Bool.and_eq_true_iff.mp htaken
    rw [List.mem_append, List.mem_singleton]
    refine or_congr_right ⟨?_, fun h => h.2.2⟩
    rintro rfl
    exact ⟨unread_iff.mpr (Bool.not_eq_true' _ ▸ hnew), suits_iff.mpr ⟨rfl, hopen⟩, rfl⟩
  · rename_i hleft
    refine ⟨Or.inl, fun h => h.resolve_right ?_⟩
    rintro ⟨hnew, hsuits, rfl⟩
    refine hleft (Bool.and_eq_true_iff.mpr ⟨(suits_iff.mp hsuits).2, ?_⟩)
    rw [Bool.not_eq_true']
    exact unread_iff.mp hnew

theorem unread_takenInto_iff :
    Unread (takenInto user found o) property ↔ Unread found property ∧ o.suits property user = false := by
  constructor
  · intro h
    have hfound : Unread found property := fun a ha => h a (mem_takenInto_iff.mpr (Or.inl ha))
    refine ⟨hfound, Bool.eq_false_iff.mpr fun hsuits => ?_⟩
    obtain ⟨rfl, -⟩ := suits_iff.mp hsuits
    exact h o.accessor (mem_takenInto_iff.mpr (Or.inr ⟨hfound, hsuits, rfl⟩)) rfl
  · rintro ⟨hfound, hsuits⟩ a ha rfl
    rcases mem_takenInto_iff.mp ha with ha | ⟨-, hs, -⟩
    · exact hfound a ha rfl
    · exact Bool.noConfusion (hsuits.symm.trans hs)

theorem nodup_takenInto (h : (found.map Accessor.property).Nodup) :
    ((takenInto user found o).map Accessor.property).Nodup := by
  unfold takenInto
  split
  · rename_i htaken
    have hnew : Unread found o.property := unread_iff.mpr (Bool.not_eq_true' _ ▸ (Bool.and_eq_true_iff.mp htaken).2)
    rw [List.map_append, List.nodup_append]
    refine ⟨h, List.pairwise_singleton _ _, fun p hp q hq => ?_⟩
    obtain ⟨a, ha, rfl⟩ := List.mem_map.mp hp
    rw [List.map_singleton, List.mem_singleton] at hq
    exact hq ▸ hnew a ha
  · exact h

/-! ## All of them -/

/-- What is added to the accessors found before are the first getters that suit. -/
theorem mem_taken_iff :
    a ∈ offers.foldl (takenInto user) found ↔
      a ∈ found ∨ Unread found a.property ∧ (offers.find? (·.suits a.property user)).map accessor = some a := by
  induction offers generalizing found with
  | nil => simp
  | cons o rest ih =>
    rw [List.foldl_cons, ih, mem_takenInto_iff, unread_takenInto_iff, List.find?_cons]
    cases o.suits a.property user with
    | true => simp [eq_comm]
    | false => simp

theorem unread_taken_iff :
    Unread (offers.foldl (takenInto user) found) property ↔
      Unread found property ∧ ∀ o ∈ offers, o.suits property user = false := by
  induction offers generalizing found with
  | nil => simp
  | cons o rest ih => rw [List.foldl_cons, ih, unread_takenInto_iff, List.forall_mem_cons, and_assoc]

theorem nodup_taken (h : (found.map Accessor.property).Nodup) :
    ((offers.foldl (takenInto user) found).map Accessor.property).Nodup := by
  induction offers generalizing found with
  | nil => exact h
  | cons o rest ih => exact ih (nodup_takenInto h)

end Offer

/-! ## Of a struct -/

namespace DeclaredType

variable {t : DeclaredType} {user : ModulePath}

theorem mem_fieldAccessors_iff {a : Accessor} :
    a ∈ t.fieldAccessors user ↔
      ∃ f ∈ t.fields, f.visibility.admits t.module user = true ∧ a = ⟨f.name, .field, f.type⟩ := by
  simp only [fieldAccessors, List.mem_map, List.mem_filter, and_assoc, eq_comm]

theorem nodup_fieldAccessors (nodup : t.fieldNames.Nodup) :
    ((t.fieldAccessors user).map Accessor.property).Nodup := by
  rw [fieldAccessors, List.map_map]
  exact nodup.sublist (List.filter_sublist.map _)

end DeclaredType

namespace SourceTree

open Accessor

variable {tree : SourceTree} {t : DeclaredType} {user : ModulePath}

/-- The getters of a struct, block by block in the order of the sources. -/
def offers (tree : SourceTree) (t : DeclaredType) : List Offer :=
  (tree.blocksOf t).flatMap fun block => block.getters.map fun getter => ⟨block.module, getter⟩

theorem accessors_eq_taken (tree : SourceTree) (t : DeclaredType) (user : ModulePath) :
    tree.accessors t user = (tree.offers t).foldl (Offer.takenInto user) (t.fieldAccessors user) := by
  unfold accessors offers
  rw [List.foldl_flatMap]
  simp only [List.foldl_map]
  rfl

/-- A property is read by the field that is visible, or by the first getter that may be called where
there is none. -/
theorem mem_accessors_iff {a : Accessor} :
    a ∈ tree.accessors t user ↔ a ∈ t.fieldAccessors user ∨
      Unread (t.fieldAccessors user) a.property ∧
        ((tree.offers t).find? (·.suits a.property user)).map Offer.accessor = some a := by
  rw [accessors_eq_taken, Offer.mem_taken_iff]

theorem mem_accessors_of_field (tree : SourceTree) {f : FieldDecl} (hf : f ∈ t.fields)
    (hv : f.visibility.admits t.module user = true) : ⟨f.name, .field, f.type⟩ ∈ tree.accessors t user :=
  mem_accessors_iff.mpr (Or.inl (DeclaredType.mem_fieldAccessors_iff.mpr ⟨f, hf, hv, rfl⟩))

theorem unread_accessors_iff {property : String} :
    Unread (tree.accessors t user) property ↔
      Unread (t.fieldAccessors user) property ∧ ∀ o ∈ tree.offers t, o.suits property user = false := by
  rw [accessors_eq_taken, Offer.unread_taken_iff]

theorem nodup_accessors (tree : SourceTree) (nodup : t.fieldNames.Nodup) :
    ((tree.accessors t user).map Accessor.property).Nodup := by
  rw [accessors_eq_taken]
  exact Offer.nodup_taken (t.nodup_fieldAccessors nodup)

/-- A module reads a property of a struct. -/
def IsRead (tree : SourceTree) (t : DeclaredType) (user : ModulePath) (property : String) : Prop :=
  ∃ a ∈ tree.accessors t user, a.property = property

theorem isRead_iff {property : String} :
    tree.IsRead t user property ↔
      (∃ f ∈ t.fields, f.visibility.admits t.module user = true ∧ f.name = property) ∨
        ∃ o ∈ tree.offers t, o.suits property user = true := by
  have hunread : tree.IsRead t user property ↔ ¬ Unread (tree.accessors t user) property := by
    simp [IsRead, Unread]
  rw [hunread, unread_accessors_iff, not_and_or]
  simp [Unread, DeclaredType.mem_fieldAccessors_iff]

theorem isRead_of_isWithin {inner : ModulePath} {property : String} (hw : inner.isWithin user = true)
    (h : tree.IsRead t user property) : tree.IsRead t inner property := by
  rcases isRead_iff.mp h with ⟨f, hf, hv, hn⟩ | ⟨o, ho, hs⟩
  · exact isRead_iff.mpr (Or.inl ⟨f, hf, Visibility.admits_of_isWithin hw hv, hn⟩)
  · exact isRead_iff.mpr (Or.inr ⟨o, ho, Offer.suits_of_isWithin hw hs⟩)

/-- An accessor is that of the first getter of its property, in the order of the sources, that a module
may call. -/
def IsFirstGetter (tree : SourceTree) (t : DeclaredType) (user : ModulePath) (a : Accessor) : Prop :=
  ∃ before o after, tree.offers t = before ++ o :: after ∧ a = o.accessor ∧ o.isOpenTo user = true ∧
    ∀ earlier ∈ before, earlier.property = a.property → earlier.isOpenTo user = false

theorem isFirstGetter_of_find? {a : Accessor}
    (h : ((tree.offers t).find? (·.suits a.property user)).map Offer.accessor = some a) : tree.IsFirstGetter t user a := by
  obtain ⟨o, ho, rfl⟩ := Option.map_eq_some_iff.mp h
  obtain ⟨hsuits, before, after, hsplit, hearlier⟩ := List.find?_eq_some_iff_append.mp ho
  refine ⟨before, o, after, hsplit, rfl, (Offer.suits_iff.mp hsuits).2, fun earlier hin hproperty => ?_⟩
  refine Bool.eq_false_iff.mpr fun hopen => ?_
  have hnot := hearlier earlier hin
  rw [Offer.suits_iff.mpr ⟨hproperty, hopen⟩] at hnot
  cases hnot

/-- How a module reads the properties of a struct: each in one way, by the field if it is visible, and
by the first getter that may be called if not. -/
structure ReadsOnce (tree : SourceTree) (t : DeclaredType) (user : ModulePath) : Prop where
  distinct : ((tree.accessors t user).map Accessor.property).Nodup
  field : ∀ f ∈ t.fields, f.visibility.admits t.module user = true →
    ∀ a, a ∈ tree.accessors t user ∧ a.property = f.name ↔ a = ⟨f.name, .field, f.type⟩
  getter : ∀ a ∈ tree.accessors t user,
    (¬ ∃ f ∈ t.fields, f.visibility.admits t.module user = true ∧ a = ⟨f.name, .field, f.type⟩) →
      tree.IsFirstGetter t user a
  complete : ∀ o ∈ tree.offers t, o.isOpenTo user = true → tree.IsRead t user o.property

/-- The accessors of a struct whose fields have different names read each property in one way, and a
module that is nested in another one reads whatever that one reads. -/
theorem accessors_are_exact (tree : SourceTree) (nodup : t.fieldNames.Nodup) (user : ModulePath) :
    tree.ReadsOnce t user ∧ ∀ inner : ModulePath, inner.isWithin user = true →
      ∀ property, tree.IsRead t user property → tree.IsRead t inner property := by
  have hdistinct : ((tree.accessors t user).map Accessor.property).Nodup := tree.nodup_accessors nodup
  refine ⟨⟨hdistinct, fun f hf hv a => ?_, fun a ha hother => ?_, fun o ho hopen => ?_⟩,
    fun inner hw property => isRead_of_isWithin hw⟩
  · have hin := tree.mem_accessors_of_field hf hv
    constructor
    · rintro ⟨ha, hname⟩
      exact List.inj_on_of_nodup_map hdistinct ha hin hname
    · rintro rfl
      exact ⟨hin, rfl⟩
  · rcases mem_accessors_iff.mp ha with hfield | ⟨-, hfirst⟩
    · exact absurd (DeclaredType.mem_fieldAccessors_iff.mp hfield) hother
    · exact isFirstGetter_of_find? hfirst
  · exact isRead_iff.mpr (Or.inr ⟨o, ho, Offer.suits_iff.mpr ⟨rfl, hopen⟩⟩)

/-- A struct with an open and a hidden field, and with getters of both and of a third property. -/
def gauge : SourceTree :=
  .ofSources [("lib.rs", "pub struct Gauge { pub level: u8, unit: u8 } impl Gauge { pub fn get_level(&self) -> u8 { 0 } fn unit(&self) -> u8 { 0 } pub fn get_unit(&self) -> u8 { 0 } pub fn name(&self) -> u8 { 0 } }")]

/-- The module of the struct reads the fields, and the one getter that has none. Elsewhere the hidden
field is read by the getter that can be called there. -/
def gaugeIsRead (tree : SourceTree) : Bool :=
  tree.types.any fun t =>
    decide t.fieldNames.Nodup &&
      (tree.accessors t (.crateRoot 0)).map (fun a => (a.property, a.kind)) ==
        [("level", .field), ("unit", .field), ("name", .getter "name")] &&
      (tree.accessors t (.crateRoot 1)).map (fun a => (a.property, a.kind)) ==
        [("level", .field), ("unit", .getter "get_unit"), ("name", .getter "name")]

set_option maxRecDepth 100000 in
theorem gauge_gaugeIsRead : gauge.gaugeIsRead = true :=
  (congrArg gaugeIsRead (ofSources_ofList [("lib.rs", _)])).trans (by decide +kernel)

theorem accessors_of_gauge :
    ∃ t ∈ gauge.types, t.fieldNames.Nodup ∧ gauge.ReadsOnce t (.crateRoot 1) ∧
      ModulePath.isWithin ⟨1, ["inner"]⟩ (.crateRoot 1) = true ∧ gauge.IsRead t ⟨1, ["inner"]⟩ "unit" := by
  obtain ⟨t, ht, h⟩ := List.any_eq_true.mp gauge_gaugeIsRead
  obtain ⟨hrest, houtside⟩ := Bool.and_eq_true_iff.mp h
  have hnodup : t.fieldNames.Nodup := of_decide_eq_true (Bool.and_eq_true_iff.mp hrest).1
  have hunit : gauge.IsRead t (.crateRoot 1) "unit" := by
    have hpair : ("unit", AccessorKind.getter "get_unit") ∈
        (gauge.accessors t (.crateRoot 1)).map fun a => (a.property, a.kind) := by
      rw [beq_iff_eq.mp houtside]
      decide
    obtain ⟨a, ha, hread⟩ := List.mem_map.mp hpair
    exact ⟨a, ha, (Prod.mk.inj hread).1⟩
  obtain ⟨hreads, hnested⟩ := accessors_are_exact gauge hnodup (.crateRoot 1)
  have hinner : ModulePath.isWithin ⟨1, ["inner"]⟩ (.crateRoot 1) = true := by decide
  exact ⟨t, ht, hnodup, hreads, hinner, hnested _ hinner "unit" hunit⟩

end SourceTree

end BuilderSynthesis
