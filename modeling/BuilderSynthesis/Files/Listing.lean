/-
  BuilderSynthesis.Files.Listing — the orders in which directories are listed.

  A directory is listed in any order, but with every name once. What is listed lies below the
  directory, and no two names lead to the same place, so there is less below all of them than below
  the directory (`weight_inside`): going on from directories to what they hold comes to an end.
-/

import BuilderSynthesis.Files.Tree

namespace BuilderSynthesis

/-- An order of the names in each directory of a tree. -/
structure Listing (tree : FileTree) where
  names : Place → List String
  perm : ∀ place, (names place).Perm (tree.names place)

namespace Listing

variable {tree : FileTree}

/-- The places in a directory. -/
def inside (listing : Listing tree) (place : Place) : List Place := (listing.names place).map fun name => place ++ [name]

/-- Every directory is listed from its last name to its first. -/
def lastToFirst (tree : FileTree) : Listing tree where
  names place := (tree.names place).mergeSort fun a b => decide (b ≤ a)
  perm place := List.mergeSort_perm (tree.names place) _

end Listing

namespace FileTree

variable {tree : FileTree} {place : Place} {name : String}

/-! ## Names in a directory -/

theorem listed_iff (found : Located) (place : Place) (name : String) :
    (if found.depth == place.length + 1 && found.place.dropLast == place then found.place.getLast? else none) = some name ↔
      found.place = place ++ [name] := by
  rw [found.depth_eq]
  constructor
  · intro h
    split at h
    · rename_i hplace
      obtain ⟨before, hbefore⟩ := List.getLast?_eq_some_iff.mp h
      rw [← beq_iff_eq.mp (Bool.and_eq_true_iff.mp hplace).2, hbefore, List.dropLast_concat]
    · cases h
  · intro h
    simp [h]

theorem mem_names_iff : name ∈ tree.names place ↔ ∃ e, tree.get? (place ++ [name]) = some e := by
  have hne : place ++ [name] ≠ [] := List.append_ne_nil_of_right_ne_nil _ (List.cons_ne_nil _ _)
  unfold names
  rw [List.mem_filterMap]
  constructor
  · rintro ⟨found, hf, hn⟩
    have hplace := (listed_iff found place name).mp hn
    exact ⟨found.entry, hplace ▸ Entries.get?_of_mem tree.wellFormed.distinct hf (hplace ▸ hne)⟩
  · rintro ⟨e, he⟩
    obtain ⟨found, hf, hplace, -⟩ := Entries.exists_of_get? hne he
    exact ⟨found, hf, (listed_iff found place name).mpr hplace⟩

theorem nodup_names (tree : FileTree) (place : Place) : (tree.names place).Nodup := by
  have hentries : tree.entries.Pairwise fun a b => a.place ≠ b.place := List.pairwise_map.mp tree.wellFormed.distinct
  refine hentries.filterMap _ fun a b hne x hx y hy he => hne ?_
  rw [(listed_iff a place x).mp hx, (listed_iff b place y).mp hy, he]

/-! ## What is left to visit -/

/-- A place and the places below it. -/
def placesFrom (tree : FileTree) (place : Place) : List Place := place :: (tree.below place).map Located.place

theorem mem_below_iff {found : Located} :
    found ∈ tree.below place ↔ found ∈ tree.entries ∧ place.length < found.place.length ∧ place <+: found.place := by
  simp [below, found.depth_eq]

theorem prefix_of_mem_placesFrom {p : Place} (h : p ∈ tree.placesFrom place) : place <+: p := by
  rcases List.mem_cons.mp h with rfl | h
  · exact List.prefix_refl p
  · obtain ⟨found, hf, rfl⟩ := List.mem_map.mp h
    exact (mem_below_iff.mp hf).2.2

theorem nodup_placesFrom (tree : FileTree) (place : Place) : (tree.placesFrom place).Nodup := by
  refine List.nodup_cons.mpr ⟨fun hm => ?_, tree.wellFormed.distinct.sublist (List.filter_sublist.map _)⟩
  obtain ⟨found, hf, hp⟩ := List.mem_map.mp hm
  have hlength := (mem_below_iff.mp hf).2.1
  rw [hp] at hlength
  exact Nat.lt_irrefl _ hlength

/-- How many places there are from some places on. -/
def weight (tree : FileTree) (places : List Place) : Nat := (places.flatMap tree.placesFrom).length

theorem weight_cons (tree : FileTree) (place : Place) (places : List Place) :
    tree.weight (place :: places) = (tree.placesFrom place).length + tree.weight places := by
  rw [weight, List.flatMap_cons, List.length_append, weight]

theorem weight_append (tree : FileTree) (first second : List Place) :
    tree.weight (first ++ second) = tree.weight first + tree.weight second := by
  rw [weight, List.flatMap_append, List.length_append, weight, weight]

theorem weight_reverse (tree : FileTree) (places : List Place) : tree.weight places.reverse = tree.weight places := by
  induction places with
  | nil => rfl
  | cons place rest ih =>
    rw [List.reverse_cons, weight_append, ih, weight_cons, weight_cons, Nat.add_comm]
    rfl

theorem weight_rest (tree : FileTree) (place : Place) (places : List Place) :
    tree.weight places < tree.weight (place :: places) := by
  rw [weight_cons]
  exact Nat.lt_add_of_pos_left (Nat.succ_pos _)

/-- Places in one directory with different names have nothing in common. -/
theorem name_eq_of_shared {a b : String} {p : Place} (ha : place ++ [a] <+: p) (hb : place ++ [b] <+: p) : a = b := by
  obtain ⟨more, rfl⟩ := ha
  rw [List.append_assoc, List.prefix_append_right_inj] at hb
  obtain ⟨rest, hrest⟩ := hb
  exact (List.cons.inj hrest).1.symm

end FileTree

namespace Listing

open FileTree

variable {tree : FileTree}

theorem mem_inside_iff (listing : Listing tree) {place p : Place} :
    p ∈ listing.inside place ↔ ∃ name ∈ tree.names place, p = place ++ [name] := by
  simp [inside, (listing.perm place).mem_iff, eq_comm]

theorem nodup_names (listing : Listing tree) (place : Place) : (listing.names place).Nodup :=
  (listing.perm place).nodup_iff.mpr (tree.nodup_names place)

theorem nodup_placesInside (listing : Listing tree) (place : Place) : ((listing.inside place).flatMap tree.placesFrom).Nodup := by
  refine List.pairwise_flatMap.mpr ⟨fun p _ => tree.nodup_placesFrom p, List.pairwise_map.mpr ?_⟩
  refine (listing.nodup_names place).imp ?_
  rintro a b hne p hp q hq rfl
  exact hne (name_eq_of_shared (prefix_of_mem_placesFrom hp) (prefix_of_mem_placesFrom hq))

theorem placesInside_subset (listing : Listing tree) (place : Place) :
    (listing.inside place).flatMap tree.placesFrom ⊆ (tree.below place).map Located.place := by
  intro p hp
  obtain ⟨start, hs, hp⟩ := List.mem_flatMap.mp hp
  obtain ⟨name, hname, rfl⟩ := listing.mem_inside_iff.mp hs
  have hprefix := prefix_of_mem_placesFrom hp
  have hentry : ∃ found ∈ tree.entries, found.place = p := by
    rcases List.mem_cons.mp hp with rfl | hp
    · obtain ⟨e, he⟩ := mem_names_iff.mp hname
      obtain ⟨found, hf, hfp, -⟩ := Entries.exists_of_get? (List.append_ne_nil_of_right_ne_nil _ (List.cons_ne_nil _ _)) he
      exact ⟨found, hf, hfp⟩
    · obtain ⟨found, hf, hfp⟩ := List.mem_map.mp hp
      exact ⟨found, (mem_below_iff.mp hf).1, hfp⟩
  obtain ⟨found, hf, rfl⟩ := hentry
  have hlength := hprefix.length_le
  rw [List.length_append, List.length_singleton] at hlength
  exact List.mem_map_of_mem (mem_below_iff.mpr ⟨hf, hlength, (List.prefix_append place [name]).trans hprefix⟩)

/-- There is less from all places in a directory on than from the directory on. -/
theorem weight_inside (listing : Listing tree) (place : Place) :
    tree.weight (listing.inside place) < (tree.placesFrom place).length :=
  Nat.lt_succ_of_le ((listing.nodup_placesInside place).length_le_of_subset (listing.placesInside_subset place))

theorem weight_opened (listing : Listing tree) (place : Place) (pending : List Place) :
    tree.weight ((listing.inside place).reverse ++ pending) < tree.weight (place :: pending) := by
  rw [weight_append, weight_reverse, weight_cons]
  exact Nat.add_lt_add_right (listing.weight_inside place) _

end Listing

end BuilderSynthesis
