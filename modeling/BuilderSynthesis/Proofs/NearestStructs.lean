/-
  BuilderSynthesis.Proofs.NearestStructs — which struct a path means, wherever it is written.

  The names of a path before the last, without the words that anchor it, have to end the sequence of
  the name of a crate and the names of a module in it (`moduleMatches_iff`). Every struct of a scan
  belongs to one of its roots (`root_lt_of_mem_types`), so its crate has a name. Of the structs that a path
  may mean, the first of those that are nearest to the user is found, and one is found if there is any
  (`findType_is_nearest`).
-/

import BuilderSynthesis.Proofs.AnchoredPaths

namespace BuilderSynthesis

open Syntax

/-! ## The crate of a struct -/

namespace Syntax

mutual

theorem Item.root_of_mem_parts {module : ModulePath} {part : ModulePath × Item} :
    ∀ item : Item, part ∈ item.parts module → part.1.root = module.root
  | .module _ _ name content, h => by
    rw [parts] at h
    rcases List.mem_cons.mp h with rfl | h
    · rfl
    · have hchild : part.1.root = (module.child name).root := root_of_mem_partsOfAll content h
      exact hchild
  | .struct _, h | .functions .., h | .function _, h | .named .., h | .plain, h => by
    rw [List.mem_singleton.mp h]

/-- The modules in a module belong to the same crate. -/
theorem Item.root_of_mem_partsOfAll {module : ModulePath} {part : ModulePath × Item} :
    ∀ items : List Item, part ∈ Item.partsOfAll module items → part.1.root = module.root
  | [], h => absurd h List.not_mem_nil
  | item :: rest, h => by
    rcases List.mem_append.mp h with h | h
    · exact root_of_mem_parts item h
    · exact root_of_mem_partsOfAll rest h

end

end Syntax

namespace Scan

variable {file : String} {module : ModulePath} {t : DeclaredType}

theorem declared_not_mem_blockFindings {typeName : Option String} {functions : List FunctionItem} :
    .declared t ∉ blockFindings file module typeName functions := by
  have hnone : .declared t ∉ (functions.map fun f => (f, functionFindings file module typeName f)).flatMap (·.2.2) := by
    intro h
    obtain ⟨read, hr, hin⟩ := List.mem_flatMap.mp h
    obtain ⟨f, -, rfl⟩ := List.mem_map.mp hr
    rcases functionFindings_cases hin with ⟨_, he⟩ | ⟨_, _, _, -, he⟩ | ⟨_, _, _, he⟩
    · cases he
    · cases he
    · cases he
  unfold blockFindings
  cases typeName with
  | none => exact hnone
  | some name =>
    intro h
    rcases List.mem_append.mp h with h | h
    · exact hnone h
    · cases List.mem_singleton.mp h

/-- A struct is declared in the module in which it is found. -/
theorem module_of_mem_outerFindings {item : Item} (h : .declared t ∈ outerFindings file module item) : t.module = module := by
  cases item with
  | struct s =>
    rcases List.mem_append.mp h with h | h
    · rcases List.mem_append.mp h with h | h
      · exact absurd h declared_not_mem_itemDirectives
      · obtain ⟨problem, -, he⟩ := List.mem_map.mp h
        cases he
    · cases List.mem_singleton.mp h
      rfl
  | functions attributes ofTrait subject functions =>
    rcases List.mem_append.mp h with h | h
    · exact absurd h declared_not_mem_itemDirectives
    · exact absurd h declared_not_mem_blockFindings
  | module attributes v name content => exact absurd h declared_not_mem_itemDirectives
  | function f => exact absurd h declared_not_mem_itemDirectives
  | named kind attributes v name => exact absurd h declared_not_mem_itemDirectives
  | plain => cases h

theorem root_of_mem_fileFindings {root : Nat} {dir text : String} (h : .declared t ∈ fileFindings root dir file text) :
    t.module.root = root := by
  unfold fileFindings findingsIn at h
  split at h
  · cases List.mem_singleton.mp h
  · rename_i items hread
    rcases List.mem_cons.mp h with h | h
    · cases h
    · rw [itemsFindings_eq] at h
      obtain ⟨part, hp, hin⟩ := List.mem_flatMap.mp h
      rw [module_of_mem_outerFindings hin]
      exact Item.root_of_mem_partsOfAll items hp

theorem root_of_mem_loadFile {tree : FileTree} {root : Nat} {dir : String} (h : .declared t ∈ loadFile tree root dir file) :
    t.module.root = root := by
  unfold loadFile at h
  split at h
  · exact root_of_mem_fileFindings h
  · cases List.mem_singleton.mp h

/-- Roots are numbered from the first on. -/
theorem root_of_mem_loadRoots {tree : FileTree} {index : Nat} {roots : List SourceRoot}
    (h : .declared t ∈ (loadRoots tree index roots).2.1) : t.module.root < index + roots.length := by
  induction roots generalizing index with
  | nil => cases h
  | cons root rest ih =>
    unfold loadRoots at h
    cases hr : loadRoot? tree index root with
    | none =>
      rw [hr] at h
      cases h
    | some loaded =>
      rw [hr] at h
      obtain ⟨files, -, rfl⟩ := Option.map_eq_some_iff.mp hr
      rw [List.length_cons]
      rcases List.mem_append.mp h with h | h
      · rcases List.mem_cons.mp h with h | h
        · cases h
        · obtain ⟨file, -, hin⟩ := List.mem_flatMap.mp h
          rw [root_of_mem_loadFile hin]
          omega
      · have hmore := ih h
        omega

end Scan

namespace SourceTree

variable {tree : SourceTree} {t : DeclaredType} {path : String} {user : ModulePath}

theorem root_lt_of_mem_types (hs : tree.IsScanned) (ht : t ∈ tree.types) : t.module.root < tree.roots.length := by
  obtain ⟨finding, hf, he⟩ := List.mem_filterMap.mp ht
  obtain rfl : finding = .declared t := by
    cases finding with
    | declared found => exact congrArg Finding.declared (Option.some.inj he)
    | _ => cases he
  rcases hs with ⟨sources, rfl⟩ | ⟨files, roots, rfl⟩
  · obtain ⟨source, -, hin⟩ := List.mem_flatMap.mp hf
    rw [Scan.root_of_mem_fileFindings hin]
    exact Nat.zero_lt_one
  · have hroot := Scan.root_of_mem_loadRoots hf
    rwa [Nat.zero_add] at hroot

/-- The crate of a struct has a name. -/
theorem exists_rootName (hs : tree.IsScanned) (ht : t ∈ tree.types) : ∃ crate, tree.rootName? t.module.root = some crate := by
  rw [rootName?, List.getElem?_eq_getElem (root_lt_of_mem_types hs ht)]
  exact ⟨_, rfl⟩

/-! ## The modules that names lead to -/

/-- Names agree with a module if they end the sequence of the name of its crate and its own names. -/
theorem moduleMatches_iff {module : ModulePath} {crate : String} {names : List String}
    (hc : tree.rootName? module.root = some crate) :
    tree.moduleMatches module names = true ↔ names <:+ crate :: module.segments := by
  unfold moduleMatches
  simp only
  split
  · -- More names than there are.
    rename_i hlong
    refine iff_of_false Bool.false_ne_true fun h => ?_
    have hlength := h.length_le
    rw [List.length_cons] at hlength
    omega
  · rename_i hshort
    rw [List.suffix_cons_iff]
    split
    · -- The first name is that of the crate.
      rename_i hmore
      obtain ⟨first, rest, rfl⟩ : ∃ first rest, names = first :: rest :=
        List.exists_cons_of_length_pos (Nat.zero_lt_of_lt hmore)
      rw [List.length_cons] at hshort hmore
      have hno : ¬ first :: rest <:+ module.segments := by
        intro h
        have hlength := h.length_le
        rw [List.length_cons] at hlength
        omega
      have hsame : rest <:+ module.segments ↔ rest = module.segments :=
        ⟨fun h => h.eq_of_length (by omega), fun h => h ▸ List.suffix_refl _⟩
      simp only [List.drop_one, List.tail_cons, List.head?_cons, Bool.and_eq_true, List.isPrefixOf_iff_prefix,
        List.reverse_prefix, hsame, hc, beq_iff_eq, Option.some.injEq, List.cons.injEq, hno, or_false]
      rw [and_comm, eq_comm (a := crate)]
    · -- The crate is not named.
      rename_i hfits
      have hne : names ≠ crate :: module.segments := by
        rintro rfl
        exact hfits (Nat.lt_succ_self _)
      rw [List.isPrefixOf_iff_prefix, List.reverse_prefix, or_iff_right hne]

/-- The names in a path, without the blank ones. -/
def pathNames (path : String) : List String := ((Text.segments path).map Text.trimBlank).filter (· != "")

/-- A path may mean a struct: it ends in its name, and the names before, the words that anchor the path
apart, end the sequence of the name of its crate and the names of its module. -/
def MayMean (tree : SourceTree) (path : String) (t : DeclaredType) : Prop :=
  ∃ qualifiers crate, pathNames path = qualifiers ++ [t.name] ∧ tree.rootName? t.module.root = some crate ∧
    qualifiers.filter (!anchors.contains ·) <:+ crate :: t.module.segments

/-! ## The first of the nearest -/

/-- One struct is nearer to a user than another one: it lies in the user's crate and the other does not,
or there they are alike, and it lies in the user's module and the other does not. -/
def Nearer (user : ModulePath) (a b : DeclaredType) : Prop :=
  (a.module.root = user.root ∧ b.module.root ≠ user.root) ∨
    (a.module.root = user.root ↔ b.module.root = user.root) ∧ a.module = user ∧ b.module ≠ user

theorem distance_lt_iff {a b : DeclaredType} : distance user a < distance user b ↔ Nearer user a b := by
  have hown : ∀ {t : DeclaredType}, t.module.root ≠ user.root → t.module ≠ user := fun h he => h (congrArg ModulePath.root he)
  unfold distance Nearer
  by_cases ha : a.module.root = user.root <;> by_cases hb : b.module.root = user.root <;>
    by_cases ham : a.module = user <;> by_cases hbm : b.module = user <;> simp_all

/-- Of the items that are taken into account. -/
theorem firstLeast_filter_eq_some_iff {α : Type} {measure : α → Nat} {p : α → Bool} {as : List α} {a : α} :
    firstLeast measure (as.filter p) = some a ↔ ∃ before after, as = before ++ a :: after ∧ p a = true ∧
      (∀ b ∈ before, p b = true → measure a < measure b) ∧ ∀ b ∈ after, p b = true → measure a ≤ measure b := by
  rw [firstLeast_eq_some_iff]
  constructor
  · rintro ⟨_, _, hfilter, hbefore, hafter⟩
    obtain ⟨first, second, rfl, rfl, hsecond⟩ := List.filter_eq_append_iff.mp hfilter
    obtain ⟨skipped, after, rfl, hskipped, ha, rfl⟩ := List.filter_eq_cons_iff.mp hsecond
    refine ⟨first ++ skipped, after, (List.append_assoc ..).symm, ha, fun b hb hp => ?_, fun b hb hp => ?_⟩
    · rcases List.mem_append.mp hb with hb | hb
      · exact hbefore b (List.mem_filter.mpr ⟨hb, hp⟩)
      · exact absurd hp (hskipped b hb)
    · exact hafter b (List.mem_filter.mpr ⟨hb, hp⟩)
  · rintro ⟨before, after, rfl, ha, hbefore, hafter⟩
    refine ⟨before.filter p, after.filter p, ?_, fun b hb => ?_, fun b hb => ?_⟩
    · rw [List.filter_append, List.filter_cons_of_pos ha]
    · exact hbefore b (List.mem_filter.mp hb).1 (List.mem_filter.mp hb).2
    · exact hafter b (List.mem_filter.mp hb).1 (List.mem_filter.mp hb).2

/-! ## The struct that is found -/

/-- What is looked up is the last name of a path that has one. -/
theorem splitPath_eq_some_iff {name : String} {names : List String} :
    splitPath path = some (name, names) ↔
      ∃ qualifiers, pathNames path = qualifiers ++ [name] ∧ qualifiers.filter (!anchors.contains ·) = names := by
  unfold splitPath
  rw [← pathNames, Option.map_eq_some_iff]
  constructor
  · rintro ⟨last, hlast, he⟩
    obtain ⟨rfl, rfl⟩ := Prod.mk.inj he
    obtain ⟨qualifiers, hq⟩ := List.getLast?_eq_some_iff.mp hlast
    exact ⟨qualifiers, hq, by rw [hq, List.dropLast_concat]⟩
  · rintro ⟨qualifiers, hq, rfl⟩
    exact ⟨name, by rw [hq, List.getLast?_concat], by rw [hq, List.dropLast_concat]⟩

/-- The lookup takes the struct for meant. -/
def takes (tree : SourceTree) (path : String) (t : DeclaredType) : Bool :=
  (splitPath path).any fun (name, names) => t.name == name && tree.moduleMatches t.module names

theorem findType_eq_firstLeast (tree : SourceTree) (path : String) (user : ModulePath) :
    tree.findType path user = firstLeast (distance user) (tree.types.filter (tree.takes path)) := by
  unfold findType takes
  cases splitPath path with
  | none => simp [firstLeast]
  | some split => rfl

theorem takes_iff (hs : tree.IsScanned) (ht : t ∈ tree.types) : tree.takes path t = true ↔ tree.MayMean path t := by
  obtain ⟨crate, hc⟩ := exists_rootName hs ht
  unfold takes
  rw [Option.any_eq_true]
  constructor
  · rintro ⟨⟨name, names⟩, hsplit, htakes⟩
    obtain ⟨hname, hmatches⟩ := Bool.and_eq_true_iff.mp htakes
    obtain ⟨qualifiers, hq, rfl⟩ := splitPath_eq_some_iff.mp hsplit
    exact ⟨qualifiers, crate, beq_iff_eq.mp hname ▸ hq, hc, (moduleMatches_iff hc).mp hmatches⟩
  · rintro ⟨qualifiers, other, hq, ho, hsuffix⟩
    obtain rfl : crate = other := Option.some.inj (hc.symm.trans ho)
    refine ⟨(t.name, _), splitPath_eq_some_iff.mpr ⟨qualifiers, hq, rfl⟩, Bool.and_eq_true_iff.mpr ⟨beq_self_eq_true t.name, ?_⟩⟩
    exact (moduleMatches_iff hc).mpr hsuffix

/-- A struct is found under a path exactly if it is the first, in the order of the sources, of those that
the path may mean and that are nearest to the user. None is found exactly if the path may mean none. -/
theorem findType_is_nearest (hs : tree.IsScanned) (path : String) (user : ModulePath) :
    (∀ t, tree.findType path user = some t ↔ ∃ before after, tree.types = before ++ t :: after ∧ tree.MayMean path t ∧
      (∀ other ∈ before, tree.MayMean path other → Nearer user t other) ∧
      ∀ other ∈ after, tree.MayMean path other → ¬ Nearer user other t) ∧
    (tree.findType path user = none ↔ ∀ t ∈ tree.types, ¬ tree.MayMean path t) := by
  refine ⟨fun t => ?_, ?_⟩
  · rw [findType_eq_firstLeast, firstLeast_filter_eq_some_iff]
    refine exists_congr fun before => exists_congr fun after => and_congr_right fun hsplit => ?_
    have hbefore : ∀ other ∈ before, tree.takes path other = true ↔ tree.MayMean path other := fun other ho =>
      takes_iff hs (hsplit ▸ List.mem_append_left _ ho)
    have hafter : ∀ other ∈ after, tree.takes path other = true ↔ tree.MayMean path other := fun other ho =>
      takes_iff hs (hsplit ▸ List.mem_append_right _ (List.mem_cons_of_mem _ ho))
    have ht : t ∈ tree.types := hsplit ▸ List.mem_append_right _ List.mem_cons_self
    refine and_congr (takes_iff hs ht) (and_congr ?_ ?_)
    · exact forall₂_congr fun other ho => imp_congr (hbefore other ho) distance_lt_iff
    · refine forall₂_congr fun other ho => imp_congr (hafter other ho) ?_
      rw [← distance_lt_iff, Nat.not_lt]
  · rw [findType_eq_firstLeast, firstLeast_eq_none_iff, List.filter_eq_nil_iff]
    exact forall₂_congr fun t ht => not_congr (takes_iff hs ht)

/-- The name alone means the struct of the user's own module, though another one is declared before. -/
def findsOwn (tree : SourceTree) : Bool := (tree.findType "Item" ⟨0, ["b"]⟩).any (·.module == ⟨0, ["b"]⟩)

set_option maxRecDepth 100000 in
theorem siblings_findsOwn : siblings.findsOwn = true :=
  (congrArg findsOwn (ofSources_ofList [("a.rs", _), ("b.rs", _)])).trans (by decide +kernel)

theorem findType_is_nearest_of_siblings :
    siblings.IsScanned ∧ ∃ t, t.module = ⟨0, ["b"]⟩ ∧ ∃ before after, siblings.types = before ++ t :: after ∧
      siblings.MayMean "Item" t ∧ ∀ other ∈ before, siblings.MayMean "Item" other → Nearer ⟨0, ["b"]⟩ t other := by
  have hs : siblings.IsScanned := isScanned_ofSources _
  obtain ⟨t, ht, hm⟩ := (Option.any_eq_true ..).mp siblings_findsOwn
  obtain ⟨before, after, hsplit, hmeant, hbefore, -⟩ := ((findType_is_nearest hs "Item" ⟨0, ["b"]⟩).1 t).mp ht
  exact ⟨hs, t, beq_iff_eq.mp hm, before, after, hsplit, hmeant, hbefore⟩

end SourceTree

end BuilderSynthesis
