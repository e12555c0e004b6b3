/-
  BuilderSynthesis.Proofs.DeclaredTexts — declared types are known by their texts.

  The text of a descriptor is read as a type (`Writes.readType`). What this type declares has the same
  text, but not always the same descriptor: a mutable counterpart is written like a type that was mutable
  from the start, and `u8<>` like `u8`. Where there are none of these the descriptor is `Faithful`, and it
  is what its text declares (`Writes.views_eq`). So of faithful descriptors no two have one text
  (`Writes.eq_of_text_eq`).

  An element that is made optional keeps a descriptor faithful (`Throughout.nullableElement`).
-/

import BuilderSynthesis.Proofs.Adjustments

namespace BuilderSynthesis

open Syntax

namespace Descriptor

/-- A descriptor that its text tells from all others: it is no mutable counterpart, and no path with the name
of a primitive. -/
def Faithful (d : Descriptor) : Prop :=
  d.mutableCollection = false ∧ ∀ path, d.base = .named path → d.arguments = [] → path ∉ primitives

/-- What is no option is seen the same, bare or not. -/
theorem view_of_views {type : TypeRef} {d : Descriptor} (h : views type = (d, d)) (bare : Bool) :
    view bare type = d := by
  cases bare with
  | true => exact congrArg Prod.fst h
  | false => exact congrArg Prod.snd h

/-- What is written for faithful descriptors declares them. -/
theorem Writes.views_eq {bare : Bool} {ds : List Descriptor} {as : List Argument} (h : Writes bare ds as)
    (hd : ∀ d ∈ ds, Throughout Faithful d) : as.map (fun a => view bare (declared a)) = ds := by
  have hcons : ∀ {bare a d} {as : List Argument} {ds : List Descriptor}, view bare (declared a) = d →
      as.map (fun a => view bare (declared a)) = ds → (a :: as).map (fun a => view bare (declared a)) = d :: ds :=
    fun hfirst hrest => congrArg₂ List.cons hfirst hrest
  induction h with
  | nil => rfl
  | lifetime h rest ih =>
    obtain ⟨-, hrest⟩ := List.forall_mem_cons.mp hd
    exact hcons (view_of_views rfl _) (ih hrest)
  | primitive h rest ih =>
    obtain ⟨-, hrest⟩ := List.forall_mem_cons.mp hd
    refine hcons ?_ (ih hrest)
    rw [declared_primitive h]
    exact view_of_views rfl _
  | @named bare leading names last arguments written m ds as arguments_ plain_ proper option rest iha ih =>
    obtain ⟨⟨⟨hm, hname⟩, hinside⟩, hrest⟩ := List.forall_mem_cons.mp hd
    obtain rfl : m = false := hm
    refine hcons ?_ (ih hrest)
    have harguments := iha hinside
    cases written with
    | nil =>
      cases arguments_
      have hprimitive : primitives.contains (pathText leading names last) = false :=
        Bool.eq_false_iff.mpr fun h => hname _ rfl rfl (List.contains_iff_mem.mp h)
      rw [declared, passed, TypeRef.ofType_pathOf_none, hprimitive, Bool.and_false, if_neg Bool.false_ne_true]
      exact view_of_views rfl _
    | cons a more =>
      have hlength : ((a :: more).map declared).length = arguments.length := by
        rw [List.length_map, arguments_.length_eq]
      rw [declared, TypeRef.ofType_pathOf_passed (List.cons_ne_nil _ _) arguments_.seen.1,
        view_path fun hb hl => option hb (hlength.symm.trans hl), List.map_map]
      exact congrArg (plain (.named _)) harguments
  | @array bare element type length ds as element_ h rest ihe ih =>
    obtain ⟨⟨-, hinside⟩, hrest⟩ := List.forall_mem_cons.mp hd
    exact hcons ((view_of_views rfl _).trans (congrArg (plain _) (ihe hinside))) (ih hrest)
  | @slice bare element type ds as element_ rest ihe ih =>
    obtain ⟨⟨-, hinside⟩, hrest⟩ := List.forall_mem_cons.mp hd
    exact hcons ((view_of_views rfl _).trans (congrArg (plain _) (ihe hinside))) (ih hrest)
  | @reference bare lifetime mutable referent type m ds as h referent_ rest ihr ih =>
    obtain ⟨⟨⟨hm, -⟩, hinside⟩, hrest⟩ := List.forall_mem_cons.mp hd
    obtain rfl : m = false := hm
    rw [Bool.or_false]
    exact hcons ((view_of_views rfl _).trans (congrArg (plain _) (ihr hinside))) (ih hrest)
  | verbatim plain_ proper h rest ih =>
    obtain ⟨-, hrest⟩ := List.forall_mem_cons.mp hd
    refine hcons ?_ (ih hrest)
    rw [declared, h]
    exact view_of_views rfl _
  | @optional base arguments m a ds as inner rest ihi ih =>
    obtain ⟨⟨hhere, hinside⟩, hrest⟩ := List.forall_mem_cons.mp hd
    refine hcons ?_ (ih hrest)
    have hbare : Throughout Faithful (mk base arguments false m) := .intro hhere hinside
    have hstructural : structural (declared a) = mk base arguments false m :=
      (List.cons.inj (ihi (List.forall_mem_singleton.mpr hbare))).1
    have hinner : TypeRef.ofType (optionOf a) = .path "Option" [declared a] :=
      TypeRef.ofType_pathOf_passed (List.cons_ne_nil _ _) inner.seen.1
    have hcanonical : canonical (TypeRef.ofType (optionOf a)) = (structural (declared a)).asNullable :=
      hinner ▸ canonical_of_optional rfl
    exact hcanonical.trans (congrArg Descriptor.asNullable hstructural)

/-- Of faithful descriptors that types write, no two have the same text. -/
theorem Writes.eq_of_text_eq {d e : Descriptor} {t u : TypeExpr} (hd : Writes false [d] [.type t])
    (he : Writes false [e] [.type u]) (hdf : Throughout Faithful d) (hef : Throughout Faithful e)
    (h : d.text = e.text) : d = e := by
  obtain rfl : t = u := Except.ok.inj (hd.readType.1.symm.trans (h ▸ he.readType.1))
  have hviews := (hd.views_eq (List.forall_mem_singleton.mpr hdf)).symm.trans
    (he.views_eq (List.forall_mem_singleton.mpr hef))
  exact (List.cons.inj hviews).1

/-- An optional element is as faithful as the element was. -/
theorem Throughout.nullableElement {d : Descriptor} (h : Throughout Faithful d) (hd : Throughout Ordinary d) :
    Throughout Faithful (d.adjustedBy .nullableElement) := by
  obtain ⟨base, arguments, n, m⟩ := d
  rw [adjustedBy_nullableElement]
  cases hgiven : markedArguments? base arguments with
  | none => exact h
  | some given =>
    have hadjusted : (mk base arguments n m).nullableElement? = some (mk base given n m) := by
      rw [nullableElement_mk, hgiven]
      rfl
    have hmarked : ElementMarked base arguments given := elementMarked_of_nullableElement hd hadjusted
    obtain ⟨⟨hm, -⟩, hinside⟩ := h
    refine .intro ⟨hm, fun _ _ hnil => absurd hnil hmarked.ne_nil⟩ ?_
    refine hmarked.throughout (fun _ _ h => h) (fun hmarked h => ?_) hinside
    exact ⟨h.1, fun _ _ hnil => absurd hnil hmarked.ne_nil⟩

end Descriptor

namespace TypeRef

/-- A plain type of a source, in which primitives are named as such. -/
structure IsWritten (type : TypeRef) : Prop where
  read : ∃ t : TypeExpr, t.isPlain = true ∧ t.Proper ∧ type = .ofType t
  faithful : Descriptor.Throughout Descriptor.Faithful (Descriptor.canonical type)

end TypeRef

end BuilderSynthesis
