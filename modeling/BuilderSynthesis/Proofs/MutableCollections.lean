/-
  BuilderSynthesis.Proofs.MutableCollections — the declared types that `mutable` applies to.

  The table of collections lists references to slices and to seven owned collections, and seven iterators with
  their mutable counterparts. A path stands for one of them by the names it ends in (`Text.EndsIn`), so whether a
  declared type is listed can be read off the type (`TypeRef.IsListed`).

  `mutable` applies to a listed type, optional or not, and to a reference to an optional collection besides: of
  what a reference refers to, only the base is looked at, and being optional is no part of it
  (`mutable_is_for_the_table`, `a_reference_to_an_optional_list_is_accepted`).
-/

import BuilderSynthesis.Proofs.Adjustments

namespace BuilderSynthesis

/-! ## The names that a path ends in -/

namespace Text

/-- A path is made of these names, or has others and a separator before them. -/
def EndsIn (path names : String) : Prop := path = names ∨ ("::" ++ names).toList <:+ path.toList

instance (path names : String) : Decidable (EndsIn path names) := inferInstanceAs (Decidable (_ ∨ _))

variable {path name module : String}

theorem splitSegments_eq_singleton {cs part : List Char} (h : splitSegments cs = [part]) : cs = part := by
  induction cs using splitSegments.induct generalizing part with
  | case1 rest ih =>
    rw [splitSegments] at h
    exact absurd (List.cons.inj h).2 (splitSegments_ne_nil rest)
  | case2 c rest hne first others hrest ih =>
    rw [splitSegments, hrest] at h
    · obtain ⟨rfl, rfl⟩ := List.cons_eq_cons.mp h
      rw [ih hrest]
    · exact hne
  | case3 c rest hne hrest ih => exact absurd hrest (splitSegments_ne_nil rest)
  | case4 =>
    cases h
    rfl

/-- The last name of a path is all of it, or it stands behind a separator and the other names before that. -/
theorem segmentsFromEnd_eq_cons_iff (h : ∀ c ∈ name.toList, c ≠ ':') {others : List String} :
    segmentsFromEnd path = name :: others ↔
      path = name ∧ others = [] ∨ ∃ front, path = front ++ "::" ++ name ∧ segmentsFromEnd front = others := by
  have hreverse : ∀ c ∈ name.toList.reverse, c ≠ ':' := fun c hc => h c (List.mem_reverse.mp hc)
  constructor
  · intro hpath
    obtain ⟨part, parts, hsplit, rfl, rfl⟩ := List.map_eq_cons_iff.mp hpath
    cases parts with
    | nil =>
      left
      rw [← splitSegments_eq_singleton hsplit, List.reverse_reverse, String.ofList_toList]
      exact ⟨rfl, rfl⟩
    | cons next more =>
      right
      obtain ⟨rest, hrest, hnext⟩ := splitSegments_eq_cons hsplit
      refine ⟨String.ofList rest.reverse, ?_, ?_⟩
      · rw [← String.toList_inj, ← List.reverse_reverse path.toList, hrest]
        simp
      · rw [segmentsFromEnd, String.toList_ofList, List.reverse_reverse, hnext]
  · rintro (⟨rfl, rfl⟩ | ⟨front, rfl, rfl⟩)
    · rw [segmentsFromEnd, splitSegments_of_no_colon hreverse]
      simp
    · have hsplit : (front ++ "::" ++ name).toList.reverse =
          name.toList.reverse ++ ':' :: ':' :: front.toList.reverse := by simp
      rw [segmentsFromEnd, hsplit, splitSegments_append hreverse]
      simp [segmentsFromEnd]

theorem segmentsFromEnd_ne_nil (path : String) : segmentsFromEnd path ≠ [] :=
  fun h => splitSegments_ne_nil _ (List.map_eq_nil_iff.mp h)

theorem endsIn_iff : EndsIn path name ↔ path = name ∨ ∃ front, path = front ++ "::" ++ name := by
  refine or_congr_right ⟨?_, ?_⟩
  · rintro ⟨front, hfront⟩
    refine ⟨String.ofList front, ?_⟩
    rw [← String.toList_inj, ← hfront]
    simp
  · rintro ⟨front, rfl⟩
    exact ⟨front.toList, by simp⟩

theorem exists_segmentsFromEnd_iff (h : ∀ c ∈ name.toList, c ≠ ':') :
    (∃ others, segmentsFromEnd path = name :: others) ↔ EndsIn path name := by
  simp [segmentsFromEnd_eq_cons_iff h, endsIn_iff, exists_or]

theorem lastSegment_eq_iff (h : ∀ c ∈ name.toList, c ≠ ':') : lastSegment path = name ↔ EndsIn path name := by
  obtain ⟨last, others, hpath⟩ := List.exists_cons_of_ne_nil (segmentsFromEnd_ne_nil path)
  rw [← exists_segmentsFromEnd_iff h, lastSegment, hpath]
  simp

/-- The last two parts of a path are a module and a name in it. -/
theorem endsIn_member_iff (hname : ∀ c ∈ name.toList, c ≠ ':') (hmodule : ∀ c ∈ module.toList, c ≠ ':') :
    (∃ others, segmentsFromEnd path = name :: module :: others) ↔ EndsIn path (module ++ "::" ++ name) := by
  have hparts : (∃ others, segmentsFromEnd path = name :: module :: others) ↔
      ∃ front, path = front ++ "::" ++ name ∧ EndsIn front module := by
    simp only [segmentsFromEnd_eq_cons_iff hname, ← exists_segmentsFromEnd_iff hmodule]
    simp only [reduceCtorEq, and_false, false_or]
    exact ⟨fun ⟨others, front, hpath, hfront⟩ => ⟨front, hpath, others, hfront⟩,
      fun ⟨front, hpath, others, hfront⟩ => ⟨others, front, hpath, hfront⟩⟩
  rw [hparts, endsIn_iff]
  constructor
  · rintro ⟨front, rfl, hfront⟩
    rcases endsIn_iff.mp hfront with rfl | ⟨before, rfl⟩
    · exact .inl rfl
    · exact .inr ⟨before, by simp only [String.append_assoc]⟩
  · rintro (rfl | ⟨before, rfl⟩)
    · exact ⟨module, rfl, .inl rfl⟩
    · exact ⟨before ++ "::" ++ module, by simp only [String.append_assoc], endsIn_iff.mpr (.inr ⟨before, rfl⟩)⟩

end Text

/-! ## The table -/

/-- What a reference can borrow, by the last names of their paths. -/
def ownedCollections : List String :=
  ["Vec", "VecDeque", "LinkedList", "HashSet", "BTreeSet", "HashMap", "BTreeMap"]

/-- The borrowing iterators with their modules, and after each the one that lends mutably. -/
def lendingIterators : List String :=
  ["slice::Iter", "slice::IterMut", "vec_deque::Iter", "vec_deque::IterMut", "linked_list::Iter",
   "linked_list::IterMut", "hash_map::Iter", "hash_map::IterMut", "btree_map::Iter", "btree_map::IterMut",
   "hash_map::Values", "hash_map::ValuesMut", "btree_map::Values", "btree_map::ValuesMut"]

theorem isSome_lookup_iff (path : String) :
    (borrowedCollections.lookup (Text.lastSegment path)).isSome ↔ ∃ name ∈ ownedCollections, Text.EndsIn path name := by
  have hcolons : ∀ name ∈ ownedCollections, name.toList.all (· != ':') = true := by decide
  have hcolon : ∀ name ∈ ownedCollections, ∀ c ∈ name.toList, c ≠ ':' := fun name h c hc =>
    bne_iff_ne.mp (List.all_eq_true.mp (hcolons name h) c hc)
  have hlisted (name : String) :
      (∃ entry ∈ borrowedCollections, (name == entry.1) = true) ↔ name ∈ borrowedCollections.map Prod.fst := by
    rw [List.mem_map]
    exact exists_congr fun entry => and_congr_right fun _ => beq_iff_eq.trans eq_comm
  have hnames : borrowedCollections.map Prod.fst = ownedCollections := rfl
  rw [List.lookup_isSome_iff, hlisted, hnames]
  constructor
  · intro h
    exact ⟨_, h, (Text.lastSegment_eq_iff (hcolon _ h)).mp rfl⟩
  · rintro ⟨name, h, hends⟩
    rw [(Text.lastSegment_eq_iff (hcolon _ h)).mpr hends]
    exact h

/-- A path is looked up by its last two parts. -/
theorem isSome_iteratorForm_iff_segments (path : String) : (iteratorForm? path).isSome ↔
    ∃ entry ∈ borrowingIterators, (∃ others, Text.segmentsFromEnd path = entry.2.1 :: entry.1 :: others) ∨
      ∃ others, Text.segmentsFromEnd path = entry.2.2 :: entry.1 :: others := by
  unfold iteratorForm?
  split
  · rename_i name module others hsegments
    have hparts : ∀ last first, (∃ more, Text.segmentsFromEnd path = last :: first :: more) ↔
        last = name ∧ first = module := by
      intro last first
      rw [hsegments]
      simp [eq_comm]
    simp only [List.findSome?_isSome_iff, List.mem_filter, beq_iff_eq, hparts]
    constructor
    · rintro ⟨⟨first, reading, writing⟩, ⟨hentry, rfl⟩, hform⟩
      refine ⟨_, hentry, ?_⟩
      dsimp only at hform
      split at hform
      · exact .inl ⟨Eq.symm ‹_›, rfl⟩
      · split at hform
        · exact .inr ⟨Eq.symm ‹_›, rfl⟩
        · cases hform
    · rintro ⟨⟨first, reading, writing⟩, hentry, ⟨rfl, rfl⟩ | ⟨rfl, rfl⟩⟩ <;> refine ⟨_, ⟨hentry, rfl⟩, ?_⟩
      · simp
      · dsimp only
        split <;> simp
  · rename_i hsegments
    simp only [Option.isSome_none, Bool.false_eq_true, false_iff]
    rintro ⟨entry, -, ⟨others, h⟩ | ⟨others, h⟩⟩ <;> exact hsegments _ _ _ h

theorem isSome_iteratorForm_iff (path : String) :
    (iteratorForm? path).isSome ↔ ∃ name ∈ lendingIterators, Text.EndsIn path name := by
  have hcolons : ∀ entry ∈ borrowingIterators, ∀ name ∈ [entry.1, entry.2.1, entry.2.2],
      name.toList.all (· != ':') = true := by decide
  have hcolon : ∀ entry ∈ borrowingIterators, ∀ name ∈ [entry.1, entry.2.1, entry.2.2], ∀ c ∈ name.toList, c ≠ ':' :=
    fun entry h name hn c hc => bne_iff_ne.mp (List.all_eq_true.mp (hcolons entry h name hn) c hc)
  have hends : ∀ entry ∈ borrowingIterators, ∀ name ∈ [entry.2.1, entry.2.2],
      ((∃ others, Text.segmentsFromEnd path = name :: entry.1 :: others) ↔
        Text.EndsIn path (entry.1 ++ "::" ++ name)) := fun entry h name hn =>
    Text.endsIn_member_iff (hcolon entry h name (List.mem_cons_of_mem _ hn)) (hcolon entry h entry.1 List.mem_cons_self)
  have hnames : lendingIterators =
      borrowingIterators.flatMap fun entry => [entry.2.1, entry.2.2].map (entry.1 ++ "::" ++ ·) := rfl
  rw [isSome_iteratorForm_iff_segments, hnames]
  simp only [List.mem_flatMap, List.mem_map]
  constructor
  · rintro ⟨entry, hentry, h | h⟩
    · exact ⟨_, ⟨entry, hentry, _, List.mem_cons_self, rfl⟩, (hends entry hentry _ List.mem_cons_self).mp h⟩
    · have hlast : entry.2.2 ∈ [entry.2.1, entry.2.2] := List.mem_cons_of_mem _ List.mem_cons_self
      exact ⟨_, ⟨entry, hentry, _, hlast, rfl⟩, (hends entry hentry _ hlast).mp h⟩
  · rintro ⟨name, ⟨entry, hentry, last, hlast, rfl⟩, h⟩
    have hsegments := (hends entry hentry last hlast).mpr h
    refine ⟨entry, hentry, ?_⟩
    rcases List.mem_cons.mp hlast with rfl | hlast
    · exact .inl hsegments
    · rw [List.mem_singleton.mp hlast] at hsegments
      exact .inr hsegments

namespace TypeRef

/-- The type inside, if it is optional; of options inside of each other only the outer one is left out. -/
def withoutOption (t : TypeRef) : TypeRef := t.optional?.getD t

/-- A slice, or a path to an owned collection. -/
def IsBorrowable : TypeRef → Prop
  | slice _ => True
  | path p _ => ∃ name ∈ ownedCollections, Text.EndsIn p name
  | _ => False

/-- The types that the table of collections lists. -/
def IsListed : TypeRef → Prop
  | reference _ _ referent => referent.IsBorrowable
  | path p _ => ∃ name ∈ lendingIterators, Text.EndsIn p name
  | _ => False

/-- A reference to an optional collection. -/
def LendsOption : TypeRef → Prop
  | reference _ _ referent => ∃ inner, referent.optional? = some inner ∧ inner.IsBorrowable
  | _ => False

variable {t inner : TypeRef}

theorem withoutOption_of_optional (h : t.optional? = some inner) : t.withoutOption = inner := by
  rw [withoutOption, h, Option.getD_some]

theorem withoutOption_of_not_optional (h : t.optional? = none) : t.withoutOption = t := by
  rw [withoutOption, h, Option.getD_none]

/-- Paths of options end in another letter than the names of the table. -/
theorem not_endsIn_of_isOptionPath {path name : String} (hpath : isOptionPath path = true)
    (hname : name ∈ ownedCollections) : ¬ Text.EndsIn path name := by
  intro hends
  have hoptions : ∀ path ∈ ["Option", "option::Option", "std::option::Option", "core::option::Option"],
      path.toList.getLast? = some 'n' := by decide
  have hnames : ∀ name ∈ ownedCollections, name.toList ≠ [] ∧ name.toList.getLast? ≠ some 'n' := by decide
  have hoption := hoptions _ (List.contains_iff_mem.mp hpath)
  rw [Text.withoutLeadingSeparators, String.toList_ofList] at hoption
  have hlast : path.toList.getLast? = some 'n' := by
    obtain ⟨before, hbefore⟩ := withoutLeadingSeparators_suffix path.toList
    rw [← hbefore, List.getLast?_append, hoption, Option.some_or]
  obtain ⟨hne, hother⟩ := hnames name hname
  rcases Text.endsIn_iff.mp hends with rfl | ⟨front, rfl⟩
  · exact hother hlast
  · rw [String.toList_append, List.getLast?_append_of_ne_nil _ hne] at hlast
    exact hother hlast

/-- No name of the table is one that an optional type has. -/
theorem not_isBorrowable_of_optional (h : t.optional? = some inner) : ¬ t.IsBorrowable := by
  unfold optional? at h
  split at h
  · split at h
    · rintro ⟨name, hname, hends⟩
      exact not_endsIn_of_isOptionPath ‹_› hname hends
    · cases h
  · cases h

/-- What counts of the referent is the type inside, optional or not. -/
theorem isBorrowable_withoutOption_iff : t.withoutOption.IsBorrowable ↔
    t.IsBorrowable ∨ ∃ inner, t.optional? = some inner ∧ inner.IsBorrowable := by
  cases h : t.optional? with
  | none => simp [withoutOption_of_not_optional h]
  | some inner => simp [withoutOption_of_optional h, not_isBorrowable_of_optional h]

theorem not_isListed_of_lendsOption (h : t.LendsOption) : ¬ t.IsListed := by
  cases t with
  | reference lifetime mutable referent =>
    obtain ⟨inner, hinner, -⟩ := h
    exact not_isBorrowable_of_optional hinner
  | _ => exact h.elim

end TypeRef

namespace Descriptor

/-- An outer option is no part of the base. -/
theorem base_canonical (t : TypeRef) : (canonical t).base = (structural t.withoutOption).base := by
  cases h : t.optional? with
  | none => rw [canonical_of_not_optional h, TypeRef.withoutOption_of_not_optional h]
  | some inner =>
    rw [canonical_of_optional h, TypeRef.withoutOption_of_optional h]
    rcases structural inner with ⟨base, arguments, n, m⟩
    rfl

theorem collectionForm_canonical (t : TypeRef) :
    (canonical t).collectionForm? = (structural t.withoutOption).collectionForm? := by
  cases h : t.optional? with
  | none => rw [canonical_of_not_optional h, TypeRef.withoutOption_of_not_optional h]
  | some inner =>
    rw [canonical_of_optional h, TypeRef.withoutOption_of_optional h]
    rcases hd : structural inner with ⟨base, arguments, n, m⟩
    exact collectionForm_marked (mk base arguments n m) true

theorem isSome_borrowedKind_structural (referent : TypeRef) :
    (structural referent).borrowedKind?.isSome ↔ referent.IsBorrowable := by
  cases referent with
  | path p arguments =>
    rw [structural_path]
    exact isSome_lookup_iff p
  | _ => simp [structural, views, views.both, plain, borrowedKind?, base, TypeRef.IsBorrowable]

theorem isSome_borrowedKind_canonical (referent : TypeRef) :
    (canonical referent).borrowedKind?.isSome ↔ referent.withoutOption.IsBorrowable := by
  rw [← isSome_borrowedKind_structural, borrowedKind?, borrowedKind?, base_canonical]

theorem isSome_collectionForm_structural (t : TypeRef) :
    (structural t).collectionForm?.isSome ↔ t.IsListed ∨ t.LendsOption := by
  cases t with
  | reference lifetime mutable referent =>
    have hform : (structural (.reference lifetime mutable referent)).collectionForm? =
        (canonical referent).borrowedKind?.map (.borrowed · (mutable || false)) := rfl
    rw [hform, Option.isSome_map, isSome_borrowedKind_canonical]
    exact TypeRef.isBorrowable_withoutOption_iff
  | path p arguments =>
    rw [structural_path]
    exact (isSome_iteratorForm_iff p).trans (or_iff_left id).symm
  | _ => simp [structural, views, views.both, plain, collectionForm?, base, TypeRef.IsListed, TypeRef.LendsOption]

theorem mutable_applies_iff (t : TypeRef) :
    (∃ d, (canonical t).asMutableCollection = .ok d) ↔ t.withoutOption.IsListed ∨ t.withoutOption.LendsOption := by
  rw [← isSome_collectionForm_structural, ← collectionForm_canonical]
  unfold asMutableCollection
  split <;> simp_all

/-- The adjustment applies to the types of the table, optional or not, and is refused with their text for all
others, save a reference to an optional collection: it applies to one of these although the table does not list it. -/
theorem mutable_is_for_the_table (t : TypeRef) :
    ((∃ d, (canonical t).asMutableCollection = .ok d) ↔ t.withoutOption.IsListed ∨ t.withoutOption.LendsOption) ∧
    (((∃ d, (canonical t).asMutableCollection = .ok d) ↔ t.withoutOption.IsListed) ↔ ¬ t.withoutOption.LendsOption) ∧
    ((canonical t).asMutableCollection = .error (.notACollection (canonical t).text) ↔
      ¬ (t.withoutOption.IsListed ∨ t.withoutOption.LendsOption)) := by
  have hiff := mutable_applies_iff t
  have hdisjoint := TypeRef.not_isListed_of_lendsOption (t := t.withoutOption)
  refine ⟨hiff, ?_, ?_⟩
  · rw [hiff]
    tauto
  · rw [← hiff]
    unfold asMutableCollection
    split <;> simp_all

/-- Of `&'a Option<Vec<u8>>`, with `mut` put before the option. -/
theorem a_reference_to_an_optional_list_is_accepted :
    let t : TypeRef := .reference (some "'a") false (.path "Option" [.path "Vec" [.primitive "u8"]])
    (canonical t).asMutableCollection.toOption.map text = some "&'a mut Option<Vec<u8>>" ∧
      ¬ t.withoutOption.IsListed := by
  intro t
  refine ⟨by decide, ?_⟩
  have hlends : t.LendsOption := ⟨_, rfl, "Vec", List.mem_cons_self, .inl rfl⟩
  exact TypeRef.not_isListed_of_lendsOption hlends

end Descriptor

end BuilderSynthesis
