/-
  BuilderSynthesis.Proofs.AnchoredPaths — looking a struct up by a path that starts with an anchor.

  A path that starts with `crate`, `self` or `super` denotes one module (`denoted?`), and if that
  module declares a struct of the last name, this is the struct that is meant. The lookup does not
  keep the anchor: it takes every struct for meant whose module ends in the names that are left, and
  prefers the nearest of them. The meant module always ends so (`suffix_of_denoted?`), so some struct
  is found; it lies in the meant module exactly if no nearer or earlier one does
  (`findType_anchored_iff`). A struct of the same name in the user's own module hides the one at the
  root of the crate (`a_nearer_struct_hides_the_anchored_one`).
-/

import BuilderSynthesis.Proofs.Lookup
import BuilderSynthesis.Proofs.Scanned

namespace BuilderSynthesis

open Syntax

/-! ## The module that is meant -/

namespace ModulePath

/-- The module around a module. The root of a crate lies in none. -/
def outer? (module : ModulePath) : Option ModulePath :=
  if module.segments.isEmpty then none else some ⟨module.root, module.segments.dropLast⟩

/-- The module that names lead to. Each `super` at their front steps outwards; no other name is an
anchor. -/
def follow? (module : ModulePath) : List String → Option ModulePath
  | [] => some module
  | name :: rest =>
    if name == "super" then module.outer?.bind (·.follow? rest)
    else if (name :: rest).any SourceTree.anchors.contains then none
    else some ⟨module.root, module.segments ++ name :: rest⟩

/-- The module that the names before the last of an anchored path denote where a user writes it.
Names are compared as they are written. -/
def denoted? (user : ModulePath) : List String → Option ModulePath
  | "crate" :: rest => (crateRoot user.root).follow? rest
  | "self" :: rest => user.follow? rest
  | "super" :: rest => user.follow? ("super" :: rest)
  | _ => none

theorem filter_anchor_cons {name : String} (h : SourceTree.anchors.contains name = true) (rest : List String) :
    (name :: rest).filter (!SourceTree.anchors.contains ·) = rest.filter (!SourceTree.anchors.contains ·) :=
  List.filter_cons_of_neg (by rw [h]; decide)

theorem root_of_outer? {module around : ModulePath} (h : module.outer? = some around) : around.root = module.root := by
  unfold outer? at h
  split at h
  · cases h
  · exact (congrArg ModulePath.root (Option.some.inj h)).symm

/-- What leads outwards leaves the end of the names, and what leads inwards appends them. -/
theorem suffix_of_follow? {module reached : ModulePath} {names : List String} (h : module.follow? names = some reached) :
    reached.root = module.root ∧ names.filter (!SourceTree.anchors.contains ·) <:+ reached.segments := by
  induction names generalizing module with
  | nil =>
    obtain rfl : module = reached := Option.some.inj h
    exact ⟨rfl, List.nil_suffix⟩
  | cons name rest ih =>
    rw [follow?] at h
    split at h
    · rename_i hsuper
      obtain ⟨around, ho, hf⟩ := Option.bind_eq_some_iff.mp h
      obtain ⟨hroot, hsuffix⟩ := ih hf
      rw [beq_iff_eq.mp hsuper, filter_anchor_cons (by decide)]
      exact ⟨hroot.trans (root_of_outer? ho), hsuffix⟩
    · split at h
      · cases h
      · rename_i hnone
        cases h
        have hkept : (name :: rest).filter (!SourceTree.anchors.contains ·) = name :: rest := by
          rw [List.filter_eq_self]
          intro other ho
          rw [List.any_eq_true, not_exists] at hnone
          simpa using fun hc => hnone other ⟨ho, hc⟩
        refine ⟨rfl, ?_⟩
        rw [hkept]
        exact List.suffix_append _ _

/-- The module that is meant lies in the user's crate and ends in the names that are no anchors. -/
theorem suffix_of_denoted? {user meant : ModulePath} {qualifiers : List String}
    (h : user.denoted? qualifiers = some meant) :
    meant.root = user.root ∧ qualifiers.filter (!SourceTree.anchors.contains ·) <:+ meant.segments := by
  unfold denoted? at h
  split at h
  · rw [filter_anchor_cons (by decide)]
    have hinwards := suffix_of_follow? h
    exact hinwards
  · rw [filter_anchor_cons (by decide)]
    exact suffix_of_follow? h
  · exact suffix_of_follow? h
  · cases h

end ModulePath

namespace SourceTree

variable {tree : SourceTree} {user meant : ModulePath} {qualifiers : List String} {name : String}

/-! ## The structs that the lookup takes for meant -/

/-- The structs of a name whose module agrees with the names before it, in the order of the sources. -/
def candidates (tree : SourceTree) (qualifiers : List String) (name : String) : List DeclaredType :=
  tree.types.filter fun t => t.name == name && tree.moduleMatches t.module (qualifiers.filter (!anchors.contains ·))

theorem moduleMatches_of_suffix {module : ModulePath} {names : List String} (h : names <:+ module.segments) :
    tree.moduleMatches module names = true := by
  have hlength := h.length_le
  unfold moduleMatches
  simp only
  rw [if_neg (by omega), if_neg (by omega), List.isPrefixOf_iff_prefix]
  exact List.reverse_prefix.mpr h

theorem mem_candidates_of_denoted? {t : DeclaredType} (hd : user.denoted? qualifiers = some meant) (ht : t ∈ tree.types)
    (hn : t.name = name) (hm : t.module = meant) : t ∈ tree.candidates qualifiers name := by
  refine List.mem_filter.mpr ⟨ht, Bool.and_eq_true_iff.mpr ⟨beq_iff_eq.mpr hn, ?_⟩⟩
  exact moduleMatches_of_suffix (hm ▸ (ModulePath.suffix_of_denoted? hd).2)

theorem splitPath_intercalate (h : ∀ n ∈ qualifiers ++ [name], IsName n) :
    splitPath ("::".intercalate (qualifiers ++ [name])) = some (name, qualifiers.filter (!anchors.contains ·)) := by
  have hne : ∀ n ∈ qualifiers ++ [name], n ≠ "" := by
    rintro n hn rfl
    exact (h "" hn).nonempty rfl
  unfold splitPath
  rw [segments_intercalate (List.append_ne_nil_of_right_ne_nil _ (List.cons_ne_nil _ _)) h,
    List.map_congr_left (f := Text.trimBlank) (g := id) fun n hn => trimBlank_of_isName (h n hn), List.map_id,
    List.filter_eq_self.mpr fun n hn => bne_iff_ne.mpr (hne n hn)]
  simp only [List.getLast?_append, List.getLast?_singleton, Option.some_or, Option.map_some, List.dropLast_concat]

theorem findType_intercalate (h : ∀ n ∈ qualifiers ++ [name], IsName n) :
    tree.findType ("::".intercalate (qualifiers ++ [name])) user =
      firstLeast (distance user) (tree.candidates qualifiers name) := by
  unfold findType
  rw [splitPath_intercalate h]
  rfl

/-! ## The nearest of them -/

/-- Of items none of which has a measure less than `k`, the first with just this measure comes out. -/
theorem firstLeast_eq_find? {α : Type} {measure : α → Nat} {items : List α} {k : Nat} {least : α → Bool}
    (hleast : ∀ a ∈ items, k ≤ measure a ∧ (least a = true ↔ measure a = k)) (hk : ∃ a ∈ items, least a = true) :
    firstLeast measure items = items.find? least := by
  obtain ⟨a, ha⟩ := Option.isSome_iff_exists.mp (List.find?_isSome.mpr hk)
  obtain ⟨hfirst, before, after, rfl, hbefore⟩ := List.find?_eq_some_iff_append.mp ha
  have hin : a ∈ before ++ a :: after := List.mem_append_right _ List.mem_cons_self
  have hak : measure a = k := (hleast a hin).2.mp hfirst
  rw [ha, firstLeast_eq_some_iff]
  refine ⟨before, after, rfl, fun b hb => ?_, fun b hb => ?_⟩
  · obtain ⟨hle, hiff⟩ := hleast b (List.mem_append_left _ hb)
    have hne : measure b ≠ k := fun he => by simpa [hiff.mpr he] using hbefore b hb
    omega
  · have hle := (hleast b (List.mem_append_right _ (List.mem_cons_of_mem _ hb))).1
    omega

theorem distance_eq_zero_iff {t : DeclaredType} : distance user t = 0 ↔ t.module = user := by
  unfold distance
  constructor
  · intro h
    split at h
    · split at h <;> omega
    · split at h
      · omega
      · rename_i hm
        simpa using hm
  · rintro rfl
    simp

theorem distance_of_module_ne {t : DeclaredType} (h : t.module ≠ user) :
    1 ≤ distance user t ∧ (distance user t = 1 ↔ t.module.root = user.root) := by
  unfold distance
  by_cases hr : t.module.root = user.root
  · simp [hr, h]
  · simp [hr, h]

/-- A struct that is taken for meant in the user's own module is found. -/
theorem findType_own (hnames : ∀ n ∈ qualifiers ++ [name], IsName n)
    (hown : ∃ a ∈ tree.candidates qualifiers name, a.module = user) :
    ∃ found ∈ tree.candidates qualifiers name,
      tree.findType ("::".intercalate (qualifiers ++ [name])) user = some found ∧ found.module = user := by
  obtain ⟨a, ha, hau⟩ := hown
  have hleast : ∃ a ∈ tree.candidates qualifiers name, (a.module == user) = true := ⟨a, ha, beq_iff_eq.mpr hau⟩
  have hfind : firstLeast (distance user) (tree.candidates qualifiers name) =
      (tree.candidates qualifiers name).find? (·.module == user) :=
    firstLeast_eq_find? (fun a _ => ⟨Nat.zero_le _, by rw [beq_iff_eq, distance_eq_zero_iff]⟩) hleast
  obtain ⟨found, hf⟩ := Option.isSome_iff_exists.mp (List.find?_isSome.mpr hleast)
  refine ⟨found, List.mem_of_find?_eq_some hf, ?_, by simpa using List.find?_some hf⟩
  rw [findType_intercalate hnames]
  exact hfind.trans hf

/-! ## Single names -/

theorem findType_name (hn : IsName name) :
    tree.findType name user = firstLeast (distance user) (tree.candidates [] name) := by
  have hnames : ∀ n ∈ [] ++ [name], IsName n := fun n hm => List.mem_singleton.mp hm ▸ hn
  have hfind : tree.findType ("::".intercalate ([] ++ [name])) user = firstLeast (distance user) (tree.candidates [] name) :=
    findType_intercalate hnames
  rwa [List.nil_append, String.intercalate_singleton] at hfind

theorem mem_types_of_findType (hn : IsName name) {t : DeclaredType} (ht : tree.findType name user = some t) :
    t ∈ tree.types ∧ t.name = name := by
  rw [findType_name hn] at ht
  obtain ⟨hin, hcandidate⟩ := List.mem_filter.mp (mem_of_firstLeast ht)
  exact ⟨hin, beq_iff_eq.mp (Bool.and_eq_true_iff.mp hcandidate).1⟩

/-- A struct is found under its own name in the module that declares it. -/
theorem exists_findType_own (hn : IsName name) (hown : ∃ a ∈ tree.types, a.name = name ∧ a.module = user) :
    ∃ t ∈ tree.types, tree.findType name user = some t ∧ t.name = name ∧ t.module = user := by
  obtain ⟨a, ha, han, hau⟩ := hown
  have hcandidate : a ∈ tree.candidates [] name :=
    List.mem_filter.mpr ⟨ha, Bool.and_eq_true_iff.mpr ⟨beq_iff_eq.mpr han, moduleMatches_of_suffix List.nil_suffix⟩⟩
  have hnames : ∀ n ∈ [] ++ [name], IsName n := fun n hm => List.mem_singleton.mp hm ▸ hn
  obtain ⟨t, -, ht, hmodule⟩ := findType_own hnames ⟨a, hcandidate, hau⟩
  rw [List.nil_append, String.intercalate_singleton] at ht
  obtain ⟨hin, hname⟩ := mem_types_of_findType hn ht
  exact ⟨t, hin, ht, hname, hmodule⟩

theorem module_of_findType (hn : IsName name) (hown : ∃ a ∈ tree.types, a.name = name ∧ a.module = user)
    {t : DeclaredType} (ht : tree.findType name user = some t) : t.module = user := by
  obtain ⟨found, -, hfound, -, hmodule⟩ := exists_findType_own hn hown
  obtain rfl : found = t := Option.some.inj (hfound.symm.trans ht)
  exact hmodule

/-! ## The theorem -/

/-- A struct that an anchored path means is declared. Then one of its name is found, and it is one of
the meant module exactly if that module is the user's own, or if none that is taken for meant lies
there and the first of them in the crate lies in the meant module. -/
theorem findType_anchored_iff (hnames : ∀ n ∈ qualifiers ++ [name], IsName n)
    (hd : user.denoted? qualifiers = some meant) (ht : ∃ t ∈ tree.types, t.name = name ∧ t.module = meant) :
    ∃ found, tree.findType ("::".intercalate (qualifiers ++ [name])) user = some found ∧ found.name = name ∧
      (found.module = meant ↔ meant = user ∨
        (∀ t ∈ tree.candidates qualifiers name, t.module ≠ user) ∧
          ((tree.candidates qualifiers name).find? (·.module.root == user.root)).map DeclaredType.module = some meant) := by
  obtain ⟨t, htypes, hn, hm⟩ := ht
  have hin := mem_candidates_of_denoted? hd htypes hn hm
  have hname : ∀ a ∈ tree.candidates qualifiers name, a.name = name := by
    intro a ha
    exact beq_iff_eq.mp (Bool.and_eq_true_iff.mp (List.mem_filter.mp ha).2).1
  by_cases hnear : ∃ a ∈ tree.candidates qualifiers name, a.module = user
  · -- A candidate in the user's own module is nearest.
    obtain ⟨found, hcandidate, hf, hown⟩ := findType_own hnames hnear
    refine ⟨found, hf, hname found hcandidate, ?_⟩
    rw [hown]
    constructor
    · exact fun h => Or.inl h.symm
    · rintro (h | ⟨hfar, -⟩)
      · exact h.symm
      · exact absurd hown (hfar found hcandidate)
  · -- Otherwise the meant struct is as near as any, and the first one in the crate is found.
    have hfar : ∀ a ∈ tree.candidates qualifiers name, a.module ≠ user := fun a ha hau => hnear ⟨a, ha, hau⟩
    have hroot : t.module.root = user.root := hm ▸ (ModulePath.suffix_of_denoted? hd).1
    have hcrate : ∃ a ∈ tree.candidates qualifiers name, (a.module.root == user.root) = true :=
      ⟨t, hin, beq_iff_eq.mpr hroot⟩
    have hfind : firstLeast (distance user) (tree.candidates qualifiers name) =
        (tree.candidates qualifiers name).find? (·.module.root == user.root) := by
      refine firstLeast_eq_find? (k := 1) (fun a ha => ?_) hcrate
      obtain ⟨hle, hiff⟩ := distance_of_module_ne (hfar a ha)
      exact ⟨hle, by rw [beq_iff_eq, hiff]⟩
    obtain ⟨found, hf⟩ := Option.isSome_iff_exists.mp (List.find?_isSome.mpr hcrate)
    refine ⟨found, (findType_intercalate hnames).trans (hfind.trans hf), hname found (List.mem_of_find?_eq_some hf), ?_⟩
    rw [hf, Option.map_some, Option.some.injEq]
    constructor
    · exact fun h => Or.inr ⟨hfar, h⟩
    · rintro (h | ⟨-, h⟩)
      · exact absurd (hm.trans h) (hfar t hin)
      · exact h

/-! ### A nearer struct -/

/-- A struct of this name is declared in a module. -/
def declares (tree : SourceTree) (name : String) (module : ModulePath) : Bool :=
  tree.types.any fun t => t.name == name && t.module == module

theorem exists_of_declares {module : ModulePath} (h : tree.declares name module = true) :
    ∃ t ∈ tree.types, t.name = name ∧ t.module = module := by
  obtain ⟨t, ht, hm⟩ := List.any_eq_true.mp h
  obtain ⟨hn, hmodule⟩ := Bool.and_eq_true_iff.mp hm
  exact ⟨t, ht, beq_iff_eq.mp hn, beq_iff_eq.mp hmodule⟩

/-- Two sibling modules that declare structs of one name. -/
def siblings : SourceTree := .ofSources [("a.rs", "struct Item { x: u8 }"), ("b.rs", "struct Item { y: u8 }")]

/-- From one of them, the path of the other means the other one, and no candidate is nearer. -/
def meansSibling (tree : SourceTree) : Bool :=
  tree.declares "Item" ⟨0, ["a"]⟩ && ((tree.candidates ["crate", "a"] "Item").all fun t => t.module != ⟨0, ["b"]⟩) &&
    ((tree.candidates ["crate", "a"] "Item").find? (·.module.root == 0)).map DeclaredType.module == some ⟨0, ["a"]⟩

set_option maxRecDepth 100000 in
theorem siblings_meansSibling : siblings.meansSibling = true :=
  (congrArg meansSibling (ofSources_ofList [("a.rs", _), ("b.rs", _)])).trans (by decide +kernel)

theorem findType_anchored_of_siblings :
    ∃ found, siblings.findType "crate::a::Item" ⟨0, ["b"]⟩ = some found ∧ found.module = ⟨0, ["a"]⟩ := by
  obtain ⟨hrest, hfirst⟩ := Bool.and_eq_true_iff.mp siblings_meansSibling
  obtain ⟨hdeclares, hfar⟩ := Bool.and_eq_true_iff.mp hrest
  have hnames : ∀ n ∈ ["crate", "a"] ++ ["Item"], IsName n := by
    intro n hn
    rcases (by simpa using hn : n = "crate" ∨ n = "a" ∨ n = "Item") with rfl | rfl | rfl
    · exact isName_ofList (List.cons_ne_nil _ _) rfl
    · exact isName_ofList (List.cons_ne_nil _ _) rfl
    · exact isName_ofList (List.cons_ne_nil _ _) rfl
  have hmeant : ModulePath.denoted? ⟨0, ["b"]⟩ ["crate", "a"] = some ⟨0, ["a"]⟩ := by decide
  obtain ⟨found, hf, -, hiff⟩ := findType_anchored_iff hnames hmeant (exists_of_declares hdeclares)
  refine ⟨found, hf, hiff.mpr (Or.inr ⟨fun t ht => ?_, beq_iff_eq.mp hfirst⟩)⟩
  exact bne_iff_ne.mp (List.all_eq_true.mp hfar t ht)

/-- A struct at the root of a crate, and one of the same name in a module. -/
def nested : SourceTree := .ofSources [("lib.rs", "struct Pair { a: u8 } mod inner { struct Pair { b: u8 } }")]

/-- The struct at the root is declared, but its path finds the other one. -/
def missesRoot (tree : SourceTree) : Bool :=
  tree.declares "Pair" (.crateRoot 0) && (tree.findType "crate::Pair" ⟨0, ["inner"]⟩).any (·.module == ⟨0, ["inner"]⟩)

set_option maxRecDepth 100000 in
theorem nested_missesRoot : nested.missesRoot = true :=
  (congrArg missesRoot (ofSources_ofList [("lib.rs", _)])).trans (by decide +kernel)

theorem a_nearer_struct_hides_the_anchored_one :
    ModulePath.denoted? ⟨0, ["inner"]⟩ ["crate"] = some (.crateRoot 0) ∧
      (∃ t ∈ nested.types, t.name = "Pair" ∧ t.module = .crateRoot 0) ∧
      ∃ found, nested.findType "crate::Pair" ⟨0, ["inner"]⟩ = some found ∧ found.module ≠ .crateRoot 0 := by
  obtain ⟨hdeclares, hfound⟩ := Bool.and_eq_true_iff.mp nested_missesRoot
  obtain ⟨found, hf, hm⟩ := (Option.any_eq_true ..).mp hfound
  refine ⟨by decide, exists_of_declares hdeclares, found, hf, ?_⟩
  rw [beq_iff_eq.mp hm]
  decide

end SourceTree

end BuilderSynthesis
