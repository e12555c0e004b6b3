/-
  BuilderSynthesis.Proofs.ModuleFiles — the modules that source files hold.

  A file below a root is known by the names of the directories on the way and its own name, and so is a
  module. `moduleOf` is what the names of a file say about its module, and what is found for the file
  (`moduleSegments_of_isSourceAt`): `lib`, `main` and `mod` directly in the root are the crate, another
  `mod` is its directory, and all other names lead to the module they spell, also a `lib` further down or a
  directory called `mod`.

  So a module has at most two files, one beside its directory and one in it, unless it is the crate
  (`moduleOf_eq_iff`), and every list of names that may be a module has both
  (`files_and_modules_correspond`).
-/

import Mathlib.Data.List.Basic
import BuilderSynthesis.Files.Discovery
import BuilderSynthesis.Proofs.Names
import BuilderSynthesis.Proofs.Paths

namespace BuilderSynthesis

namespace Discovery

open Syntax FilePath

/-! ## The names of a file -/

/-- A file is the source below a directory that some names lead to, however its path is spelled. -/
structure IsSourceAt (dir file : String) (names : List String) : Prop where
  nonempty : names ≠ []
  identifiers : ∀ name ∈ names, IsIdentifier name
  path : same file (join dir ("/".intercalate names ++ ".rs")) = true

variable {dir file a b : String} {names others : List String}

theorem ne_dot_of_isNameChar {c : Char} (h : isNameChar c = true) : c ≠ '.' := by
  rintro rfl
  exact absurd h (by decide)

theorem isPart_of_isIdentifier {name : String} (h : IsIdentifier name) : IsPart name := by
  have hname := isName_of_isIdentifier h
  have hdot : '.' ∉ name.toList := fun hm => ne_dot_of_isNameChar (hname.chars _ hm) rfl
  have hslash : '/' ∉ name.toList := fun hm => absurd (hname.chars _ hm) (by decide)
  have hne : ∀ part : List Char, '.' ∈ part → name.toList ≠ part := fun part hp he => hdot (he ▸ hp)
  refine ⟨hslash, ?_⟩
  rw [ofPart_eq_name hname.nonempty (hne _ (by decide)) (hne _ (by decide)), String.ofList_toList]

theorem withoutExtension_source {name : String} (h : IsIdentifier name) : withoutExtension (name ++ ".rs") = name := by
  have hne : name ≠ "" := (isPart_of_isIdentifier h).ne_empty
  unfold withoutExtension
  rw [splitExtension_source hne]
  split
  · rename_i hdot
    obtain rfl := (Prod.mk.inj hdot).1
    exact absurd h (by decide)
  · rename_i hstem
    exact (Prod.mk.inj hstem).1.symm

theorem intercalate_concat_append (lead : List String) (last suffix : String) :
    "/".intercalate (lead ++ [last]) ++ suffix = "/".intercalate (lead ++ [last ++ suffix]) := by
  by_cases h : lead = []
  · simp [h]
  · rw [String.intercalate_append_of_ne_nil h (List.cons_ne_nil _ _), String.intercalate_append_of_ne_nil h (List.cons_ne_nil _ _)]
    simp [String.append_assoc]

theorem exists_concat {names : List String} (h : names ≠ []) : ∃ lead last, names = lead ++ [last] :=
  (List.eq_nil_or_concat' names).resolve_left h

/-- The components of a source are those of its directory and its names, the last with the extension. -/
theorem components_source (dir : String) {lead : List String} {last : String}
    (h : ∀ name ∈ lead ++ [last], IsIdentifier name) :
    components (join dir ("/".intercalate (lead ++ [last]) ++ ".rs")) =
      components dir ++ (lead ++ [last ++ ".rs"]).map .name := by
  have hne : lead ++ [last ++ ".rs"] ≠ [] := by simp
  have hparts : ∀ name ∈ lead ++ [last ++ ".rs"], IsPart name := by
    intro name hname
    rcases List.mem_append.mp hname with hlead | hlast
    · exact isPart_of_isIdentifier (h name (List.mem_append_left _ hlead))
    · obtain rfl := List.mem_singleton.mp hlast
      exact isPart_source (isPart_of_isIdentifier (h last (by simp))).1
  have hjoin : join dir ("/".intercalate (lead ++ [last ++ ".rs"])) = joinAll dir (lead ++ [last ++ ".rs"]) := by
    rw [joinAll, if_neg (by simp)]
  rw [intercalate_concat_append, hjoin, components_joinAll dir hne hparts]

/-- Two sources below one directory are the same file only if the names that lead there are the same. -/
theorem same_iff_of_isSourceAt (ha : IsSourceAt dir a names) (hb : IsSourceAt dir b others) :
    same a b = true ↔ names = others := by
  have hpath := ha.path
  have hpath' := hb.path
  unfold same at hpath hpath' ⊢
  rw [beq_iff_eq] at hpath hpath' ⊢
  rw [hpath, hpath']
  constructor
  · intro h
    obtain ⟨lead, last, rfl⟩ := exists_concat ha.nonempty
    obtain ⟨lead', last', rfl⟩ := exists_concat hb.nonempty
    rw [components_source dir ha.identifiers, components_source dir hb.identifiers] at h
    have hnames := List.map_injective_iff.mpr (fun _ _ => PathComponent.name.inj) (List.append_cancel_left h)
    obtain ⟨rfl, hlast⟩ := List.append_inj' hnames rfl
    obtain rfl := (String.append_left_inj ".rs").mp (List.cons.inj hlast).1
    rfl
  · rintro rfl
    rfl

/-! ## The module of some names -/

/-- The files that are the root of their crate. -/
def rootNames : List (List String) := [["lib"], ["main"], ["mod"]]

def moduleOf (names : List String) : List String :=
  if names ∈ rootNames then [] else if names.getLast? = some "mod" then names.dropLast else names

/-- The names lead to a file of the module they spell. -/
def NamesItself (names : List String) : Prop := names ∉ rootNames ∧ names.getLast? ≠ some "mod"

theorem concat_mem_rootNames_iff {lead : List String} {last : String} :
    lead ++ [last] ∈ rootNames ↔ lead = [] ∧ last ∈ ["lib", "main", "mod"] := by
  cases lead <;> simp [rootNames]

theorem moduleSegments_of_isSourceAt (h : IsSourceAt dir file names) : moduleSegments dir file = moduleOf names := by
  obtain ⟨lead, last, rfl⟩ := exists_concat h.nonempty
  have hlast : IsIdentifier last := h.identifiers last (by simp)
  have hbelow : below? dir file = some ((lead ++ [last ++ ".rs"]).map .name) := by
    have hpath := h.path
    unfold same at hpath
    rw [below?, beq_iff_eq.mp hpath, components_source dir h.identifiers]
    simp
  have hreverse : ((lead ++ [last ++ ".rs"]).map PathComponent.name).reverse =
      .name (last ++ ".rs") :: (lead.map .name).reverse := by simp
  have htexts : (lead.map PathComponent.name).map PathComponent.text = lead := by
    rw [List.map_map]
    exact List.map_id lead
  unfold moduleSegments
  rw [hbelow]
  simp only [hreverse, List.reverse_reverse, htexts, withoutExtension_source hlast, moduleOf, concat_mem_rootNames_iff,
    List.getLast?_concat, List.dropLast_concat]
  by_cases hempty : lead = []
  · split <;> simp_all
  · split <;> simp_all

theorem NamesItself.moduleOf (h : NamesItself names) : moduleOf names = names := by
  rw [Discovery.moduleOf, if_neg h.1, if_neg h.2]

theorem moduleOf_concat_mod (h : names ≠ []) : moduleOf (names ++ ["mod"]) = names := by
  have hroot : names ++ ["mod"] ∉ rootNames := fun hm => h (concat_mem_rootNames_iff.mp hm).1
  rw [moduleOf, if_neg hroot, if_pos List.getLast?_concat, List.dropLast_concat]

/-- The names of a file are those of a crate root, of a module or of the file in its directory. -/
theorem moduleOf_cases (h : names ≠ []) :
    (names ∈ rootNames ∧ moduleOf names = []) ∨ (NamesItself names ∧ moduleOf names = names) ∨
      ∃ module, module ≠ [] ∧ names = module ++ ["mod"] ∧ moduleOf names = module := by
  by_cases hroot : names ∈ rootNames
  · exact .inl ⟨hroot, by rw [moduleOf, if_pos hroot]⟩
  by_cases hmod : names.getLast? = some "mod"
  · obtain ⟨module, rfl⟩ := List.getLast?_eq_some_iff.mp hmod
    have hne : module ≠ [] := by
      rintro rfl
      exact hroot (by decide)
    exact .inr (.inr ⟨module, hne, rfl, moduleOf_concat_mod hne⟩)
  · exact .inr (.inl ⟨⟨hroot, hmod⟩, NamesItself.moduleOf ⟨hroot, hmod⟩⟩)

/-- Names lead to one module only if they are the same, if both are the root of the crate, or if one of them
is the module and the other the file in its directory. -/
theorem moduleOf_eq_iff (hn : names ≠ []) (ho : others ≠ []) :
    moduleOf names = moduleOf others ↔
      names = others ∨ (names ∈ rootNames ∧ others ∈ rootNames) ∨
        (NamesItself names ∧ others = names ++ ["mod"]) ∨ (NamesItself others ∧ names = others ++ ["mod"]) := by
  constructor
  · intro h
    rcases moduleOf_cases hn with ⟨hroot, hm⟩ | ⟨hself, hm⟩ | ⟨module, hne, rfl, hm⟩ <;>
      rcases moduleOf_cases ho with ⟨hroot', hm'⟩ | ⟨hself', hm'⟩ | ⟨module', hne', rfl, hm'⟩ <;>
      rw [hm, hm'] at h
    · exact .inr (.inl ⟨hroot, hroot'⟩)
    · exact absurd h.symm ho
    · exact absurd h.symm hne'
    · exact absurd h hn
    · exact .inl h
    · exact .inr (.inr (.inl ⟨hself, h ▸ rfl⟩))
    · exact absurd h hne
    · exact .inr (.inr (.inr ⟨hself', h ▸ rfl⟩))
    · exact .inl (h ▸ rfl)
  · rintro (rfl | ⟨hroot, hroot'⟩ | ⟨hself, rfl⟩ | ⟨hself, rfl⟩)
    · rfl
    · rw [moduleOf, if_pos hroot, moduleOf, if_pos hroot']
    · rw [hself.moduleOf, moduleOf_concat_mod hn]
    · rw [hself.moduleOf, moduleOf_concat_mod ho]

/-! ## Files and modules -/

theorem isSourceAt_join (hne : names ≠ []) (h : ∀ name ∈ names, IsIdentifier name) :
    IsSourceAt dir (join dir ("/".intercalate names ++ ".rs")) names := ⟨hne, h, beq_self_eq_true _⟩

theorem isSourceAt_join_mod (hne : names ≠ []) (h : ∀ name ∈ names, IsIdentifier name) :
    IsSourceAt dir (join dir ("/".intercalate names ++ "/mod.rs")) (names ++ ["mod"]) := by
  have hmod : IsIdentifier "mod" := by decide
  have htext : "/".intercalate names ++ "/mod.rs" = "/".intercalate (names ++ ["mod"]) ++ ".rs" := by
    rw [String.intercalate_append_of_ne_nil hne (List.cons_ne_nil _ _), String.intercalate_singleton, String.append_assoc,
      String.append_assoc]
    rfl
  rw [htext]
  refine isSourceAt_join (List.append_ne_nil_of_left_ne_nil hne _) fun name hname => ?_
  rcases List.mem_append.mp hname with hname | hname
  · exact h name hname
  · exact List.mem_singleton.mp hname ▸ hmod

/-- Two files below a root hold one module only if both are the root of the crate, or if one of them lies beside the
directory of the module and the other one in it. Every list of names that does not end in `mod`, and is not
that of a crate root, is the module of both of these. -/
theorem files_and_modules_correspond (dir : String) :
    (∀ a b names others, IsSourceAt dir a names → IsSourceAt dir b others →
      (moduleSegments dir a = moduleSegments dir b ↔
        same a b = true ∨ (names ∈ rootNames ∧ others ∈ rootNames) ∨
          (NamesItself names ∧ others = names ++ ["mod"]) ∨ (NamesItself others ∧ names = others ++ ["mod"]))) ∧
    ∀ names, names ≠ [] → (∀ name ∈ names, IsIdentifier name) → NamesItself names →
      moduleSegments dir (join dir ("/".intercalate names ++ ".rs")) = names ∧
        moduleSegments dir (join dir ("/".intercalate names ++ "/mod.rs")) = names := by
  constructor
  · intro a b names others ha hb
    rw [moduleSegments_of_isSourceAt ha, moduleSegments_of_isSourceAt hb, same_iff_of_isSourceAt ha hb]
    exact moduleOf_eq_iff ha.nonempty hb.nonempty
  · intro names hne hnames hself
    rw [moduleSegments_of_isSourceAt (isSourceAt_join hne hnames),
      moduleSegments_of_isSourceAt (isSourceAt_join_mod hne hnames)]
    exact ⟨hself.moduleOf, moduleOf_concat_mod hne⟩

/-- A `lib` below a directory is a module like any other, and a directory called `mod` is one too. -/
theorem files_and_modules_correspond_for_nested_names :
    moduleSegments "src" "src/shapes/lib.rs" = ["shapes", "lib"] ∧
      moduleSegments "src" "src/shapes/lib/mod.rs" = ["shapes", "lib"] ∧
      moduleSegments "src" "src/mod/mod.rs" ≠ moduleSegments "src" "src/mod.rs" := by
  have hnames : ∀ name ∈ ["shapes", "lib"], IsIdentifier name := by decide
  have hself : NamesItself ["shapes", "lib"] := ⟨by decide, by decide⟩
  obtain ⟨hfiles, hmodules⟩ := files_and_modules_correspond "src"
  obtain ⟨hbeside, hinside⟩ := hmodules ["shapes", "lib"] (List.cons_ne_nil _ _) hnames hself
  refine ⟨hbeside, hinside, fun h => ?_⟩
  have hmod : ∀ name ∈ ["mod"], IsIdentifier name := by decide
  have hroot : IsSourceAt "src" "src/mod.rs" ["mod"] := isSourceAt_join (List.cons_ne_nil _ _) hmod
  have hnested : IsSourceAt "src" "src/mod/mod.rs" ["mod", "mod"] := isSourceAt_join_mod (List.cons_ne_nil _ _) hmod
  rcases (hfiles _ _ _ _ hnested hroot).mp h with hsame | ⟨hnot, -⟩ | ⟨-, hlong⟩ | ⟨hnot, -⟩
  · exact absurd hsame (by decide)
  · exact absurd hnot (by decide)
  · exact absurd hlong (by decide)
  · exact absurd rfl hnot.2

end Discovery

end BuilderSynthesis
