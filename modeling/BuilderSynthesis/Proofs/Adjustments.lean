/-
  BuilderSynthesis.Proofs.Adjustments — sequences of adjustments have a normal form.

  A descriptor can be made optional or required, have its element made optional, and be made a mutable
  collection. An adjustment that does not apply leaves it as it is (`adjustedBy`).

  Proved:
  (1) What no adjustment changes: whether another one applies (`applies_adjustedBy`), the kind of
      collection (`collectionKind_adjustedBy`), and every argument but the element (`ElementMarked`).
  (2) The element and the counterpart commute with each other and with the outer mark, and repeating one
      changes nothing (`adjustedBy_comm`, `adjustedBy_self`); of two outer marks the later one stays.
  (3) So a sequence amounts to its effect (`adjusted_eq_settled`): the outer mark it sets last, and which
      of the other two occur in it. `adjusted_canonical` puts this together for a declared type.
-/

import Mathlib.Data.List.Induction
import BuilderSynthesis.Proofs.DescribedTypes

namespace BuilderSynthesis

/-! ## The counterpart of an iterator -/

namespace Text

/-- What stands left of the first separator, and what stands right of it. -/
theorem splitSegments_eq_cons {cs part next : List Char} {parts : List (List Char)}
    (h : splitSegments cs = part :: next :: parts) :
    ∃ rest, cs = part ++ ':' :: ':' :: rest ∧ splitSegments rest = next :: parts := by
  induction cs using splitSegments.induct generalizing part with
  | case1 rest ih =>
    rw [splitSegments] at h
    obtain ⟨rfl, hrest⟩ := List.cons_eq_cons.mp h
    exact ⟨rest, rfl, hrest⟩
  | case2 c rest hne first others hrest ih =>
    rw [splitSegments, hrest] at h
    · obtain ⟨rfl, rfl⟩ := List.cons_eq_cons.mp h
      obtain ⟨more, rfl, hmore⟩ := ih hrest
      exact ⟨more, rfl, hmore⟩
    · exact hne
  | case3 c rest hne hrest ih => exact absurd hrest (splitSegments_ne_nil rest)
  | case4 => cases h

/-- The last part of a path can be replaced by another. -/
theorem segmentsFromEnd_replaced {path name module writing : String} {others : List String}
    (h : segmentsFromEnd path = name :: module :: others) (hwriting : ∀ c ∈ writing.toList, c ≠ ':') :
    segmentsFromEnd (String.ofList (path.toList.take (path.length - name.length)) ++ writing) =
      writing :: module :: others := by
  obtain ⟨part, following, hparts, rfl, hfollowing⟩ := List.map_eq_cons_iff.mp h
  obtain ⟨next, parts, rfl, rfl, rfl⟩ := List.map_eq_cons_iff.mp hfollowing
  obtain ⟨rest, hpath, hrest⟩ := splitSegments_eq_cons hparts
  have hpath : path.toList = (rest.reverse ++ [':', ':']) ++ part.reverse := by
    rw [← List.reverse_reverse path.toList, hpath]
    simp
  have hlength : path.length - (String.ofList part.reverse).length = (rest.reverse ++ [':', ':']).length := by
    rw [← String.length_toList, hpath, String.length_ofList, List.length_append, Nat.add_sub_cancel]
  have hreverse : ∀ c ∈ writing.toList.reverse, c ≠ ':' := fun c hc => hwriting c (List.mem_reverse.mp hc)
  have hreplaced : ((rest.reverse ++ [':', ':']) ++ writing.toList).reverse =
      writing.toList.reverse ++ ':' :: ':' :: rest := by simp
  rw [hlength, hpath, List.take_left, segmentsFromEnd, String.toList_append, String.toList_ofList, hreplaced,
    splitSegments_append hreverse, hrest]
  simp

end Text

/-- In its own module, an iterator that lends mutably is found under its name. -/
theorem findSome_writing (form : String → CollectionForm) : ∀ entry ∈ borrowingIterators,
    (borrowingIterators.filter (·.1 == entry.1)).findSome? (fun (_, reading, writing) =>
      if entry.2.2 == reading then some (form writing)
      else if entry.2.2 == writing then some .mutableIterator
      else none) = some .mutableIterator := by
  intro entry h
  simp only [borrowingIterators, List.mem_cons, List.not_mem_nil, or_false] at h
  rcases h with rfl | rfl | rfl | rfl | rfl | rfl | rfl <;> rfl

/-- The counterpart of a borrowing iterator lends mutably itself. -/
theorem iteratorForm_counterpart {path counterpart : String} (h : iteratorForm? path = some (.iterator counterpart)) :
    iteratorForm? counterpart = some .mutableIterator := by
  unfold iteratorForm? at h
  split at h
  · rename_i name module others hsegments
    obtain ⟨⟨found, reading, writing⟩, hfound, he⟩ := List.exists_of_findSome?_eq_some h
    obtain ⟨hentry, hmodule⟩ := List.mem_filter.mp hfound
    obtain rfl : found = module := eq_of_beq hmodule
    simp only at he
    split at he
    · have hcolons : ∀ entry ∈ borrowingIterators, (entry.2.2.toList.all (· != ':')) = true := by decide
      have hcolon := fun c hc => bne_iff_ne.mp (List.all_eq_true.mp (hcolons _ hentry) c hc)
      obtain rfl := CollectionForm.iterator.inj (Option.some.inj he)
      rw [iteratorForm?, Text.segmentsFromEnd_replaced hsegments hcolon]
      exact findSome_writing (fun last => .iterator (String.ofList (List.take _ _) ++ last)) _ hentry
    · split at he <;> cases he
  · cases h

namespace Descriptor

/-! ## Adjustments -/

inductive Adjustment where
  | nullable
  | nonNull
  | nullableElement
  | mutable
  deriving DecidableEq, Repr

def apply (d : Descriptor) : Adjustment → Except AdjustmentError Descriptor
  | .nullable => .ok d.asNullable
  | .nonNull => .ok d.asNonNull
  | .nullableElement => d.withNullableElement
  | .mutable => d.asMutableCollection

/-- The descriptor after an adjustment, if it applies, and otherwise as it is. -/
def adjustedBy (d : Descriptor) (a : Adjustment) : Descriptor :=
  match d.apply a with
  | .ok adjusted => adjusted
  | .error _ => d

/-- The descriptor after a sequence of adjustments. -/
def adjusted (d : Descriptor) (as : List Adjustment) : Descriptor := as.foldl adjustedBy d

theorem adjusted_append (d : Descriptor) (as : List Adjustment) (a : Adjustment) :
    d.adjusted (as ++ [a]) = (d.adjusted as).adjustedBy a := List.foldl_concat ..

/-- The adjustments that modifiers ask for. -/
def Adjustment.asked (modifiers : Modifiers) : List Adjustment :=
  (if modifiers.nullableElement then [.nullableElement] else []) ++ if modifiers.mutable then [.mutable] else []

theorem adjustIf_fst (asked : Bool) (a : Adjustment) (location : Location) (d : Descriptor) :
    (adjustIf asked (·.apply a) location d).1 = d.adjusted (if asked then [a] else []) := by
  cases asked with
  | false => rfl
  | true =>
    simp only [adjustIf, adjusted, adjustedBy, if_true, List.foldl_cons, List.foldl_nil]
    cases d.apply a <;> rfl

/-- Fields are described by the adjustments that they ask for. -/
theorem describe_eq_adjusted (type : TypeRef) (modifiers : Modifiers) (location : Location) :
    (describe type modifiers location).1 = (canonical type).adjusted (Adjustment.asked modifiers) := by
  rw [adjusted, Adjustment.asked, List.foldl_append]
  exact (adjustIf_fst _ .mutable ..).trans (congrArg (adjusted · _) (adjustIf_fst _ .nullableElement ..))

/-! ### One adjustment in full -/

/-- The descriptor with the given outer mark. -/
def marked (d : Descriptor) (n : Bool) : Descriptor := mk d.base d.arguments n d.mutableCollection

@[simp] theorem marked_marked (d : Descriptor) (n k : Bool) : (d.marked n).marked k = d.marked k := rfl

/-- The outer mark that an adjustment sets. -/
def Adjustment.mark? : Adjustment → Option Bool
  | .nullable => some true
  | .nonNull => some false
  | .nullableElement | .mutable => none

theorem adjustedBy_mark (d : Descriptor) {a : Adjustment} {n : Bool} (h : a.mark? = some n) :
    d.adjustedBy a = d.marked n := by
  obtain ⟨base, arguments, k, m⟩ := d
  cases a <;> cases h <;> rfl

/-- The arguments with an optional element, where there is one. -/
def markedArguments? : Base → List Descriptor → Option (List Descriptor)
  | .reference _ _, referent :: _ => referent.nullableElement?.map ([·])
  | .reference _ _, [] => none
  | _, arguments => nullableLast arguments

theorem nullableElement_mk (base : Base) (arguments : List Descriptor) (n m : Bool) :
    (mk base arguments n m).nullableElement? = (markedArguments? base arguments).map (mk base · n m) := by
  cases base <;> cases arguments <;> simp [nullableElement?, markedArguments?]
  rfl

theorem adjustedBy_nullableElement (base : Base) (arguments : List Descriptor) (n m : Bool) :
    (mk base arguments n m).adjustedBy .nullableElement =
      mk base ((markedArguments? base arguments).getD arguments) n m := by
  rw [adjustedBy, apply, withNullableElement, nullableElement_mk]
  cases markedArguments? base arguments <;> rfl

/-- The base of a mutable counterpart. -/
def counterpartBase (d : Descriptor) : Base :=
  match d.collectionForm? with
  | some (.iterator counterpart) => .named counterpart
  | _ => d.base

/-- Whether there is a counterpart to exchange a descriptor for. -/
def hasCounterpart (d : Descriptor) : Bool :=
  match d.collectionForm? with
  | some (.borrowed _ false) | some (.iterator _) => true
  | _ => false

theorem adjustedBy_mutable (d : Descriptor) :
    d.adjustedBy .mutable = mk d.counterpartBase d.arguments d.nullable (d.mutableCollection || d.hasCounterpart) := by
  obtain ⟨base, arguments, n, m⟩ := d
  rw [adjustedBy, apply, asMutableCollection, counterpartBase, hasCounterpart]
  rcases (mk base arguments n m).collectionForm? with _ | ⟨kind, _ | _⟩ | counterpart | _ <;>
    simp [Descriptor.base, Descriptor.arguments, nullable, mutableCollection]

theorem adjustedBy_mutable_of_hasCounterpart {d : Descriptor} (h : d.hasCounterpart = false) :
    d.adjustedBy .mutable = d := by
  obtain ⟨base, arguments, n, m⟩ := d
  rw [adjustedBy_mutable, h, Bool.or_false, counterpartBase]
  split
  · rename_i counterpart hform
    rw [hasCounterpart, hform] at h
    cases h
  · rfl

/-- Of the arguments, only the base of the first matters for a form. -/
theorem collectionForm_congr {base : Base} {arguments given : List Descriptor} (n k m : Bool)
    (h : given.head?.map Descriptor.base = arguments.head?.map Descriptor.base) :
    (mk base given k m).collectionForm? = (mk base arguments n m).collectionForm? := by
  cases base with
  | reference lifetime mutable =>
    have hkind : given.head?.bind borrowedKind? = arguments.head?.bind borrowedKind? := by
      rcases given with _ | ⟨g, _⟩ <;> rcases arguments with _ | ⟨a, _⟩ <;> simp_all [borrowedKind?]
    simp [collectionForm?, Descriptor.base, Descriptor.arguments, mutableCollection, hkind]
  | _ => rfl

/-- A counterpart has the form of a mutable collection of the same kind. -/
theorem collectionForm_adjustedBy_mutable (d : Descriptor) :
    (d.adjustedBy .mutable).collectionForm? = d.collectionForm?.map fun
      | .borrowed kind _ => .borrowed kind true
      | .iterator _ | .mutableIterator => .mutableIterator := by
  obtain ⟨base, arguments, n, m⟩ := d
  rw [adjustedBy_mutable]
  cases base with
  | reference lifetime mutable =>
    simp only [counterpartBase, hasCounterpart, collectionForm?, Descriptor.base, Descriptor.arguments,
      mutableCollection]
    cases arguments.head?.bind borrowedKind? <;> cases mutable <;> cases m <;> rfl
  | named path =>
    simp only [counterpartBase, hasCounterpart, collectionForm?, Descriptor.base]
    rcases hform : iteratorForm? path with _ | ⟨kind, _⟩ | counterpart | _
    · exact hform
    · exact absurd hform (iteratorForm_ne_borrowed path)
    · exact iteratorForm_counterpart hform
    · exact hform
  | _ => rfl

/-! ### What an optional element keeps -/

theorem nullableLast_head {ds adjusted : List Descriptor} (h : nullableLast ds = some adjusted) :
    adjusted.head?.map Descriptor.base = ds.head?.map Descriptor.base := by
  cases ds with
  | nil => cases h
  | cons d rest =>
    rw [nullableLast] at h
    split at h
    · obtain rfl := Option.some.inj h
      rfl
    · split at h
      · cases h
      · obtain rfl := Option.some.inj h
        obtain ⟨base, arguments, n, m⟩ := d
        rfl

theorem nullableLast_self {ds adjusted : List Descriptor} (h : nullableLast ds = some adjusted) :
    nullableLast adjusted = some adjusted := by
  induction ds generalizing adjusted with
  | nil => cases h
  | cons d rest ih =>
    rw [nullableLast] at h
    split at h
    · rename_i found hfound
      obtain rfl := Option.some.inj h
      rw [nullableLast, ih hfound]
    · rename_i hrest
      split at h
      · cases h
      · rename_i hd
        obtain rfl := Option.some.inj h
        obtain ⟨base, arguments, n, m⟩ := d
        rw [nullableLast, hrest]
        exact if_neg hd

theorem nullableElement_base {d adjusted : Descriptor} (h : d.nullableElement? = some adjusted) :
    adjusted.base = d.base := by
  obtain ⟨base, arguments, n, m⟩ := d
  rw [nullableElement_mk] at h
  obtain ⟨given, -, rfl⟩ := Option.map_eq_some_iff.mp h
  rfl

theorem nullableElement_self {d adjusted : Descriptor} (h : d.nullableElement? = some adjusted) :
    adjusted.nullableElement? = some adjusted := by
  fun_induction nullableElement? d generalizing adjusted with
  | case1 lifetime mutable referent rest n m ih =>
    obtain ⟨inner, hinner, rfl⟩ := Option.map_eq_some_iff.mp h
    rw [nullableElement?, ih hinner]
    rfl
  | case2 => cases h
  | case3 base arguments n m hsome hnone =>
    obtain ⟨given, hgiven, rfl⟩ := Option.map_eq_some_iff.mp h
    have hlast := nullableLast_self hgiven
    cases base with
    | reference lifetime mutable =>
      rcases arguments with _ | ⟨referent, rest⟩
      · exact (hnone _ _ rfl rfl).elim
      · exact (hsome _ _ _ _ rfl rfl).elim
    | _ => exact (nullableElement_mk _ _ _ _).trans (congrArg (Option.map _) hlast)

theorem markedArguments_head {base : Base} {arguments given : List Descriptor}
    (h : markedArguments? base arguments = some given) :
    given.head?.map Descriptor.base = arguments.head?.map Descriptor.base := by
  cases base with
  | reference lifetime mutable =>
    cases arguments with
    | nil => cases h
    | cons referent rest =>
      obtain ⟨adjusted, hadjusted, rfl⟩ := Option.map_eq_some_iff.mp h
      exact congrArg some (nullableElement_base hadjusted)
  | _ => exact nullableLast_head h

theorem markedArguments_self {base : Base} {arguments given : List Descriptor}
    (h : markedArguments? base arguments = some given) : markedArguments? base given = some given := by
  have hself := nullableElement_self (d := mk base arguments false false)
    ((nullableElement_mk ..).trans (congrArg (Option.map _) h))
  rw [nullableElement_mk] at hself
  obtain ⟨found, hfound, he⟩ := Option.map_eq_some_iff.mp hself
  rw [hfound, (mk.inj he).2.1]

/-- The counterpart passes an optional element on to the same arguments. -/
theorem markedArguments_counterpart (d : Descriptor) :
    markedArguments? d.counterpartBase d.arguments = markedArguments? d.base d.arguments := by
  obtain ⟨base, arguments, n, m⟩ := d
  rw [counterpartBase]
  split
  · rename_i counterpart hform
    cases base with
    | reference lifetime mutable =>
      obtain ⟨kind, -, hkind⟩ := Option.map_eq_some_iff.mp hform
      cases hkind
    | named path => rfl
    | _ => cases hform
  · rfl

/-! ## Steps -/

/-- An optional element does not change the form of a collection. -/
theorem collectionForm_adjustedBy_nullableElement (d : Descriptor) :
    (d.adjustedBy .nullableElement).collectionForm? = d.collectionForm? := by
  obtain ⟨base, arguments, n, m⟩ := d
  rw [adjustedBy_nullableElement]
  refine collectionForm_congr n n m ?_
  cases h : markedArguments? base arguments with
  | none => rfl
  | some given => exact markedArguments_head h

theorem collectionForm_marked (d : Descriptor) (n : Bool) : (d.marked n).collectionForm? = d.collectionForm? := by
  obtain ⟨base, arguments, k, m⟩ := d
  exact collectionForm_congr k n m rfl

theorem collectionKind_adjustedBy (d : Descriptor) (a : Adjustment) :
    (d.adjustedBy a).collectionKind? = d.collectionKind? := by
  cases ha : a.mark? with
  | some n =>
    rw [adjustedBy_mark d ha]
    exact congrArg (Option.map CollectionForm.kind) (collectionForm_marked d n)
  | none =>
    cases a with
    | nullable | nonNull => cases ha
    | nullableElement =>
      exact congrArg (Option.map CollectionForm.kind) (collectionForm_adjustedBy_nullableElement d)
    | mutable =>
      rw [collectionKind?, collectionForm_adjustedBy_mutable, Option.map_map, collectionKind?]
      refine congrArg (Option.map · d.collectionForm?) (funext fun form => ?_)
      cases form <;> rfl

theorem isOk_nullableElement (d : Descriptor) :
    (d.apply .nullableElement).isOk = (markedArguments? d.base d.arguments).isSome := by
  obtain ⟨base, arguments, n, m⟩ := d
  rw [apply, withNullableElement, nullableElement_mk]
  simp only [Descriptor.base, Descriptor.arguments]
  cases markedArguments? base arguments <;> rfl

theorem isOk_mutable (d : Descriptor) : (d.apply .mutable).isOk = d.collectionKind?.isSome := by
  rw [apply, asMutableCollection, collectionKind?]
  rcases d.collectionForm? with _ | ⟨kind, _ | _⟩ | counterpart | _ <;> rfl

/-- An adjustment does not change whether another one applies, or the same one again. -/
theorem applies_adjustedBy (d : Descriptor) (a b : Adjustment) :
    ((d.adjustedBy a).apply b).isOk = (d.apply b).isOk := by
  cases b with
  | nullable | nonNull => rfl
  | mutable => rw [isOk_mutable, isOk_mutable, collectionKind_adjustedBy]
  | nullableElement =>
    rw [isOk_nullableElement, isOk_nullableElement]
    cases ha : a.mark? with
    | some n => rw [adjustedBy_mark d ha]; rfl
    | none =>
      cases a with
      | nullable | nonNull => cases ha
      | mutable => rw [adjustedBy_mutable]; exact congrArg _ (markedArguments_counterpart d)
      | nullableElement =>
        obtain ⟨base, arguments, n, m⟩ := d
        rw [adjustedBy_nullableElement]
        cases h : markedArguments? base arguments with
        | none => rfl
        | some given => exact congrArg _ ((markedArguments_self h).trans h.symm)

/-! ### Order and repetition -/

theorem counterpartBase_congr {d e : Descriptor} (hform : e.collectionForm? = d.collectionForm?)
    (hbase : e.base = d.base) : e.counterpartBase = d.counterpartBase := by
  rw [counterpartBase, hform, hbase]
  rfl

theorem hasCounterpart_congr {d e : Descriptor} (hform : e.collectionForm? = d.collectionForm?) :
    e.hasCounterpart = d.hasCounterpart := by
  rw [hasCounterpart, hform]
  rfl

/-- Repeating an adjustment changes nothing. -/
theorem adjustedBy_self (d : Descriptor) (a : Adjustment) : (d.adjustedBy a).adjustedBy a = d.adjustedBy a := by
  cases ha : a.mark? with
  | some n => rw [adjustedBy_mark d ha, adjustedBy_mark _ ha, marked_marked]
  | none =>
    cases a with
    | nullable | nonNull => cases ha
    | nullableElement =>
      obtain ⟨base, arguments, n, m⟩ := d
      rw [adjustedBy_nullableElement, adjustedBy_nullableElement]
      cases h : markedArguments? base arguments with
      | none => rw [Option.getD_none, h]; rfl
      | some given => rw [Option.getD_some, markedArguments_self h]; rfl
    | mutable =>
      have hform := collectionForm_adjustedBy_mutable d
      rw [adjustedBy_mutable (d.adjustedBy .mutable), counterpartBase, hasCounterpart, hform]
      rcases d.collectionForm? with _ | ⟨kind, _ | _⟩ | counterpart | _ <;>
        simp [adjustedBy_mutable, Descriptor.base, Descriptor.arguments, nullable, mutableCollection]

/-- The outer mark can be set before or after another adjustment. -/
theorem adjustedBy_marked (d : Descriptor) (n : Bool) {a : Adjustment} (ha : a.mark? = none) :
    (d.marked n).adjustedBy a = (d.adjustedBy a).marked n := by
  cases a with
  | nullable | nonNull => cases ha
  | nullableElement =>
    obtain ⟨base, arguments, k, m⟩ := d
    rw [adjustedBy_nullableElement]
    exact adjustedBy_nullableElement ..
  | mutable =>
    have hform := collectionForm_marked d n
    rw [adjustedBy_mutable, adjustedBy_mutable, counterpartBase_congr hform rfl, hasCounterpart_congr hform]
    rfl

/-- The element can be made optional before or after the collection is made mutable. -/
theorem adjustedBy_comm (d : Descriptor) :
    (d.adjustedBy .nullableElement).adjustedBy .mutable = (d.adjustedBy .mutable).adjustedBy .nullableElement := by
  have hform := collectionForm_adjustedBy_nullableElement d
  obtain ⟨base, arguments, n, m⟩ := d
  have hmarked := markedArguments_counterpart (mk base arguments n m)
  rw [adjustedBy_mutable, counterpartBase_congr hform (by rw [adjustedBy_nullableElement]; rfl),
    hasCounterpart_congr hform, adjustedBy_mutable, adjustedBy_nullableElement, adjustedBy_nullableElement]
  simp only [Descriptor.base, Descriptor.arguments] at hmarked ⊢
  rw [hmarked]
  rfl

/-! ## Sequences -/

/-- The outer mark that a sequence sets last. -/
def lastMark? (as : List Adjustment) : Option Bool := as.reverse.findSome? Adjustment.mark?

theorem lastMark_append (as : List Adjustment) (a : Adjustment) :
    lastMark? (as ++ [a]) = a.mark?.or (lastMark? as) := by
  rw [lastMark?, List.reverse_append, List.reverse_singleton, List.singleton_append, List.findSome?_cons]
  cases a.mark? <;> rfl

/-- The element first, then the counterpart, then the outer mark. -/
def settled (d : Descriptor) (element mutable : Bool) (mark? : Option Bool) : Descriptor :=
  let d := if element then d.adjustedBy .nullableElement else d
  let d := if mutable then d.adjustedBy .mutable else d
  mark?.elim d d.marked

theorem settled_adjustedBy_mark (d : Descriptor) (element mutable : Bool) (mark? : Option Bool) {a : Adjustment}
    {n : Bool} (ha : a.mark? = some n) :
    (d.settled element mutable mark?).adjustedBy a = d.settled element mutable (some n) := by
  rw [adjustedBy_mark _ ha]
  cases mark? <;> rfl

theorem settled_adjustedBy_nullableElement (d : Descriptor) (element mutable : Bool) (mark? : Option Bool) :
    (d.settled element mutable mark?).adjustedBy .nullableElement = d.settled true mutable mark? := by
  have hunmarked : (d.settled element mutable none).adjustedBy .nullableElement = d.settled true mutable none := by
    cases element <;> cases mutable
    · rfl
    · exact (adjustedBy_comm d).symm
    · exact adjustedBy_self d .nullableElement
    · exact (adjustedBy_comm _).symm.trans (congrArg (adjustedBy · .mutable) (adjustedBy_self d .nullableElement))
  cases mark? with
  | none => exact hunmarked
  | some n => exact (adjustedBy_marked _ n rfl).trans (congrArg (marked · n) hunmarked)

theorem settled_adjustedBy_mutable (d : Descriptor) (element mutable : Bool) (mark? : Option Bool) :
    (d.settled element mutable mark?).adjustedBy .mutable = d.settled element true mark? := by
  have hunmarked : (d.settled element mutable none).adjustedBy .mutable = d.settled element true none := by
    cases mutable with
    | false => rfl
    | true => exact adjustedBy_self _ .mutable
  cases mark? with
  | none => exact hunmarked
  | some n => exact (adjustedBy_marked _ n rfl).trans (congrArg (marked · n) hunmarked)

/-- A sequence amounts to the outer mark it sets last and to which of the other adjustments are in it. -/
theorem adjusted_eq_settled (d : Descriptor) (as : List Adjustment) :
    d.adjusted as = d.settled (as.contains .nullableElement) (as.contains .mutable) (lastMark? as) := by
  induction as using List.reverseRecOn with
  | nil => rfl
  | append_singleton as a ih =>
    rw [adjusted_append, ih, lastMark_append]
    cases a with
    | nullable | nonNull =>
      rw [settled_adjustedBy_mark _ _ _ _ rfl]
      simp [Adjustment.mark?]
    | nullableElement =>
      rw [settled_adjustedBy_nullableElement]
      simp [Adjustment.mark?]
    | mutable =>
      rw [settled_adjustedBy_mutable]
      simp [Adjustment.mark?]

theorem applies_adjusted (d : Descriptor) (as : List Adjustment) (a : Adjustment) :
    ((d.adjusted as).apply a).isOk = (d.apply a).isOk := by
  induction as using List.reverseRecOn with
  | nil => rfl
  | append_singleton as b ih => rw [adjusted_append, applies_adjustedBy, ih]

theorem collectionKind_adjusted (d : Descriptor) (as : List Adjustment) :
    (d.adjusted as).collectionKind? = d.collectionKind? := by
  induction as using List.reverseRecOn with
  | nil => rfl
  | append_singleton as b ih => rw [adjusted_append, collectionKind_adjustedBy, ih]

/-! ## Declared types -/

/-- A property of a descriptor and of all the descriptors inside it. -/
inductive Throughout (P : Descriptor → Prop) : Descriptor → Prop where
  | intro {d : Descriptor} (here : P d) (inside : ∀ argument ∈ d.arguments, Throughout P argument) : Throughout P d

/-- A declared type is no mutable counterpart, and a reference refers to one type. -/
def Ordinary (d : Descriptor) : Prop :=
  d.mutableCollection = false ∧
    ∀ lifetime mutable, d.base = .reference lifetime mutable → ∃ referent, d.arguments = [referent]

theorem throughout_plain {base : Base} {arguments : List Descriptor}
    (hone : ∀ lifetime mutable, base = .reference lifetime mutable → ∃ referent, arguments = [referent])
    (h : ∀ argument ∈ arguments, Throughout Ordinary argument) : Throughout Ordinary (plain base arguments) :=
  .intro ⟨rfl, hone⟩ h

theorem Throughout.asNullable {d : Descriptor} (h : Throughout Ordinary d) : Throughout Ordinary d.asNullable := by
  obtain ⟨hhere, hinside⟩ := h
  obtain ⟨base, arguments, n, m⟩ := d
  exact .intro hhere hinside

theorem throughout_both {d : Descriptor} (h : Throughout Ordinary d) :
    Throughout Ordinary (views.both d).1 ∧ Throughout Ordinary (views.both d).2 := ⟨h, h⟩

mutual

theorem throughout_views : ∀ type : TypeRef, Throughout Ordinary (views type).1 ∧ Throughout Ordinary (views type).2
  | .primitive name => throughout_both (throughout_plain nofun nofun)
  | .array element length | .slice element =>
    throughout_both (throughout_plain nofun (List.forall_mem_singleton.mpr (throughout_views element).2))
  | .path p arguments => by
    have hparts := throughout_viewsOfAll arguments
    have hwhole : Throughout Ordinary (plain (.named p) ((viewsOfAll arguments).map (·.2))) := by
      refine throughout_plain nofun fun argument hargument => ?_
      obtain ⟨pair, hpair, rfl⟩ := List.mem_map.mp hargument
      exact (hparts pair hpair).2
    rw [views]
    split
    · rename_i inner hinner
      rw [hinner] at hparts
      refine ⟨hwhole, ?_⟩
      split
      · exact (hparts inner List.mem_cons_self).1.asNullable
      · exact hwhole
    · exact throughout_both hwhole
  | .reference lifetime mutable referent =>
    throughout_both (throughout_plain (fun _ _ _ => ⟨_, rfl⟩)
      (List.forall_mem_singleton.mpr (throughout_views referent).2))
  | .lifetime name => throughout_both (throughout_plain nofun nofun)
  | .implTrait text => throughout_both (throughout_plain nofun nofun)
  | .verbatim text => throughout_both (throughout_plain nofun nofun)

theorem throughout_viewsOfAll : ∀ types : List TypeRef, ∀ pair ∈ viewsOfAll types,
    Throughout Ordinary pair.1 ∧ Throughout Ordinary pair.2
  | [], _, h => nomatch h
  | type :: rest, pair, h => by
    rcases List.mem_cons.mp h with rfl | h
    · exact throughout_views type
    · exact throughout_viewsOfAll rest pair h

end

theorem throughout_canonical (type : TypeRef) : Throughout Ordinary (canonical type) := (throughout_views type).2

/-- The second arguments are the first ones but for the outer mark of the element, which is the last
argument that is a type. References pass on what they refer to. -/
inductive ElementMarked : Base → List Descriptor → List Descriptor → Prop where
  | last {base : Base} {before after : List Descriptor} {element : Descriptor} (n : Bool)
      (hbase : ∀ lifetime mutable, base ≠ .reference lifetime mutable) (helement : element.isLifetime = false)
      (hafter : ∀ argument ∈ after, argument.isLifetime = true) :
      ElementMarked base (before ++ element :: after) (before ++ element.marked n :: after)
  | behind {lifetime : Option String} {mutable : Bool} {base : Base} {arguments given : List Descriptor} {n m : Bool}
      (h : ElementMarked base arguments given) :
      ElementMarked (.reference lifetime mutable) [mk base arguments n m] [mk base given n m]

theorem nullableLast_eq_none {ds : List Descriptor} (h : nullableLast ds = none) :
    ∀ d ∈ ds, d.isLifetime = true := by
  induction ds with
  | nil => nofun
  | cons d rest ih =>
    rw [nullableLast] at h
    split at h
    · cases h
    · rename_i hrest
      split at h
      · rename_i hd
        exact List.forall_mem_cons.mpr ⟨hd, ih hrest⟩
      · cases h

theorem nullableLast_eq_some {ds adjusted : List Descriptor} (h : nullableLast ds = some adjusted) :
    ∃ before element after, ds = before ++ element :: after ∧ adjusted = before ++ element.marked true :: after ∧
      element.isLifetime = false ∧ ∀ d ∈ after, d.isLifetime = true := by
  induction ds generalizing adjusted with
  | nil => cases h
  | cons d rest ih =>
    rw [nullableLast] at h
    split at h
    · rename_i found hfound
      obtain rfl := Option.some.inj h
      obtain ⟨before, element, after, rfl, rfl, helement, hafter⟩ := ih hfound
      exact ⟨d :: before, element, after, rfl, rfl, helement, hafter⟩
    · rename_i hrest
      split at h
      · cases h
      · rename_i hd
        obtain rfl := Option.some.inj h
        obtain ⟨base, arguments, n, m⟩ := d
        exact ⟨[], _, rest, rfl, rfl, Bool.eq_false_iff.mpr hd, nullableLast_eq_none hrest⟩

theorem elementMarked_of_nullableElement {d adjusted : Descriptor} (hd : Throughout Ordinary d)
    (h : d.nullableElement? = some adjusted) : ElementMarked d.base d.arguments adjusted.arguments := by
  fun_induction nullableElement? d generalizing adjusted with
  | case1 lifetime mutable referent rest n m ih =>
    obtain ⟨inner, hinner, rfl⟩ := Option.map_eq_some_iff.mp h
    obtain ⟨⟨-, hone⟩, hinside⟩ := hd
    obtain ⟨only, honly⟩ := hone lifetime mutable rfl
    obtain ⟨rfl, rfl⟩ := List.cons_eq_cons.mp honly
    have hreferent := ih (hinside referent List.mem_cons_self) hinner
    obtain ⟨base, arguments, k, l⟩ := referent
    rw [nullableElement_mk] at hinner
    obtain ⟨given, -, rfl⟩ := Option.map_eq_some_iff.mp hinner
    exact .behind hreferent
  | case2 => cases h
  | case3 base arguments n m hsome hnone =>
    obtain ⟨given, hgiven, rfl⟩ := Option.map_eq_some_iff.mp h
    obtain ⟨before, element, after, rfl, rfl, helement, hafter⟩ := nullableLast_eq_some hgiven
    refine .last true (fun lifetime mutable hbase => ?_) helement hafter
    rcases hparts : before ++ element :: after with _ | ⟨referent, rest⟩
    · exact hnone lifetime mutable hbase hparts
    · exact hsome lifetime mutable referent rest hbase hparts

/-- No descriptor inside is a mutable counterpart. -/
def Unmarked (d : Descriptor) : Prop := Throughout (·.mutableCollection = false) d

theorem Throughout.unmarked {d : Descriptor} (h : Throughout Ordinary d) : Unmarked d := by
  induction h with
  | intro here _ ih => exact .intro here.1 ih

theorem ElementMarked.ne_nil {base : Base} {arguments given : List Descriptor}
    (h : ElementMarked base arguments given) : given ≠ [] := by
  cases h with
  | last n _ _ _ => exact List.append_ne_nil_of_right_ne_nil _ (List.cons_ne_nil _ _)
  | behind _ => exact List.cons_ne_nil _ _

/-- A property that does not look at outer marks, and not at which arguments are marked, stays. -/
theorem ElementMarked.throughout {P : Descriptor → Prop} (hmark : ∀ (d : Descriptor) (n : Bool), P d → P (d.marked n))
    (hgiven : ∀ {base arguments given n m}, ElementMarked base arguments given → P (mk base arguments n m) →
      P (mk base given n m))
    {base : Base} {arguments given : List Descriptor} (h : ElementMarked base arguments given)
    (hinside : ∀ argument ∈ arguments, Throughout P argument) : ∀ argument ∈ given, Throughout P argument := by
  induction h with
  | last n _ _ _ =>
    intro argument hargument
    rw [List.mem_append, List.mem_cons] at hargument
    rcases hargument with hbefore | rfl | hafter
    · exact hinside argument (List.mem_append_left _ hbefore)
    · obtain ⟨here, inside⟩ := hinside _ (List.mem_append_right _ List.mem_cons_self)
      exact .intro (hmark _ n here) inside
    · exact hinside argument (List.mem_append_right _ (List.mem_cons_of_mem _ hafter))
  | behind h ih =>
    obtain ⟨here, inside⟩ := hinside _ List.mem_cons_self
    exact List.forall_mem_singleton.mpr (.intro (hgiven h here) (ih inside))

theorem adjustedBy_mutable_arguments (d : Descriptor) : (d.adjustedBy .mutable).arguments = d.arguments := by
  rw [adjustedBy_mutable]
  rfl

theorem settled_arguments (d : Descriptor) (element mutable : Bool) (mark? : Option Bool) :
    (d.settled element mutable mark?).arguments = (d.settled element false none).arguments := by
  have hunmarked : (d.settled element mutable none).arguments = (d.settled element false none).arguments := by
    cases mutable with
    | false => rfl
    | true => exact adjustedBy_mutable_arguments _
  cases mark? <;> exact hunmarked

/-- The arguments stay, but for the outer mark of the element. -/
theorem arguments_adjusted {d : Descriptor} (hd : Throughout Ordinary d) (as : List Adjustment) :
    (d.adjusted as).arguments = d.arguments ∨ ElementMarked d.base d.arguments (d.adjusted as).arguments := by
  rw [adjusted_eq_settled, settled_arguments]
  cases as.contains .nullableElement with
  | false => exact .inl rfl
  | true =>
    change (d.adjustedBy .nullableElement).arguments = _ ∨ ElementMarked _ _ (d.adjustedBy .nullableElement).arguments
    rw [adjustedBy, apply, withNullableElement]
    cases hadjusted : d.nullableElement? with
    | none => exact .inl rfl
    | some adjusted => exact .inr (elementMarked_of_nullableElement hd hadjusted)

/-- Only a collection is exchanged for its counterpart. -/
theorem mutableCollection_adjusted {d : Descriptor} {as : List Adjustment}
    (h : (d.adjusted as).mutableCollection = true) : d.mutableCollection = true ∨ d.collectionKind?.isSome := by
  induction as using List.reverseRecOn with
  | nil => exact .inl h
  | append_singleton as a ih =>
    rw [adjusted_append] at h
    cases ha : a.mark? with
    | some n =>
      rw [adjustedBy_mark _ ha] at h
      exact ih h
    | none =>
      cases a with
      | nullable | nonNull => cases ha
      | nullableElement =>
        refine ih ?_
        rcases hadjusted : d.adjusted as with ⟨base, arguments, n, m⟩
        rw [hadjusted, adjustedBy_nullableElement] at h
        exact h
      | mutable =>
        rw [adjustedBy_mutable] at h
        rcases (Bool.or_eq_true ..).mp h with h | h
        · exact ih h
        · refine .inr ?_
          rw [← collectionKind_adjusted d as, collectionKind?]
          unfold hasCounterpart at h
          split at h <;> simp_all

/-- What a sequence of adjustments makes of a descriptor. -/
structure Settles (d : Descriptor) (as : List Adjustment) : Prop where
  /-- Neither their order nor their number matters, but for the outer mark that comes last. -/
  effect : ∀ others : List Adjustment, lastMark? others = lastMark? as →
    (.nullableElement ∈ others ↔ .nullableElement ∈ as) → (.mutable ∈ others ↔ .mutable ∈ as) →
    d.adjusted others = d.adjusted as
  /-- What applies at the start applies after any part of the sequence, and nothing else does. -/
  applies : ∀ before : List Adjustment, before <+: as → ∀ a, ((d.adjusted before).apply a).isOk = (d.apply a).isOk
  kind : (d.adjusted as).collectionKind? = d.collectionKind?
  unmarked : ∀ argument ∈ (d.adjusted as).arguments, argument.Unmarked
  collection : (d.adjusted as).mutableCollection = true → (d.adjusted as).collectionKind?.isSome
  arguments : (d.adjusted as).arguments = d.arguments ∨ ElementMarked d.base d.arguments (d.adjusted as).arguments

/-- Every sequence of adjustments of a declared type has a normal form. -/
theorem adjusted_canonical (type : TypeRef) (as : List Adjustment) : (canonical type).Settles as := by
  have hordinary := throughout_canonical type
  have hunmarked : (canonical type).mutableCollection = false ∧
      ∀ argument ∈ (canonical type).arguments, argument.Unmarked := by
    obtain ⟨here, inside⟩ := hordinary.unmarked
    exact ⟨here, inside⟩
  have harguments := arguments_adjusted hordinary as
  refine ⟨fun others hlast helement hmutable => ?_, fun before _ a => applies_adjusted _ before a,
    collectionKind_adjusted _ as, ?_, fun hmark => ?_, harguments⟩
  · have hcontains : ∀ a, (a ∈ others ↔ a ∈ as) → others.contains a = as.contains a := fun a h => by
      rw [Bool.eq_iff_iff, List.contains_iff_mem, List.contains_iff_mem, h]
    rw [adjusted_eq_settled, adjusted_eq_settled _ as, hlast, hcontains _ helement, hcontains _ hmutable]
  · rcases harguments with hsame | hmarked
    · exact hsame ▸ hunmarked.2
    · exact hmarked.throughout (fun _ _ h => h) (fun _ h => h) hunmarked.2
  · rw [collectionKind_adjusted]
    exact (mutableCollection_adjusted hmark).resolve_left (by rw [hunmarked.1]; exact Bool.false_ne_true)

end Descriptor

end BuilderSynthesis
