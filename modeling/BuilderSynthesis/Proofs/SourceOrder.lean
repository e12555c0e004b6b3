/-
  BuilderSynthesis.Proofs.SourceOrder — the findings of a scan come in source order.

  Directives are noted from several places: on items, on the functions of a block, before and inside
  the braces, and in modules inside modules. However deep they stand, what is found in a file has the
  places of its items in their order (`sublist_itemsFindings`), and these are increasing
  (`increasing_of_readFile`). So the directives of a scanned tree are grouped by file in the order of
  the scan, and each group runs from the top of its file to the bottom; the same holds of the structs
  by the places of their names (`inOrder_of_isScanned`).

  A file that is listed twice is scanned twice and has a group each time. When no file is, two
  findings in one file are always in order (`InOrder.before_of_file_eq`).
-/

import Mathlib.Data.List.Flatten
import BuilderSynthesis.Proofs.ItemOrder
import BuilderSynthesis.Proofs.Scanned

namespace BuilderSynthesis

open Syntax

/-- Earlier in its file, by line and then by column. -/
def Location.before (a b : Location) : Prop := a.line < b.line ∨ a.line = b.line ∧ a.column < b.column

/-- Locations are grouped by file in the order of the files, and each group goes down its file. -/
inductive InOrder : List String → List Location → Prop where
  | nil : InOrder [] []
  | file {file : String} {files : List String} {here rest : List Location} (inFile : ∀ p ∈ here, p.file = file)
      (increasing : here.Pairwise Location.before) (others : InOrder files rest) :
      InOrder (file :: files) (here ++ rest)

namespace InOrder

theorem append {files others : List String} {here rest : List Location} (h : InOrder files here)
    (ho : InOrder others rest) : InOrder (files ++ others) (here ++ rest) := by
  induction h with
  | nil => exact ho
  | file inFile increasing _ ih =>
    rw [List.append_assoc]
    exact .file inFile increasing ih

/-- A file may hold nothing. -/
theorem nothing (file : String) : InOrder [file] [] := by
  have h : InOrder [file] ([] ++ []) := .file (fun p hp => by cases hp) List.Pairwise.nil .nil
  exact h

theorem mem_of_mem {files : List String} {found : List Location} (h : InOrder files found) :
    ∀ p ∈ found, p.file ∈ files := by
  induction h with
  | nil => exact fun p hp => by cases hp
  | file inFile _ _ ih =>
    intro p hp
    rcases List.mem_append.mp hp with hp | hp
    · exact inFile p hp ▸ List.mem_cons_self
    · exact List.mem_cons_of_mem _ (ih p hp)

/-- In files that are listed once, of two locations in one file the first is earlier in it. -/
theorem before_of_file_eq {files : List String} {found : List Location} (h : InOrder files found) (hn : files.Nodup) :
    found.Pairwise fun a b => a.file = b.file → a.before b := by
  induction h with
  | nil => exact List.Pairwise.nil
  | @file name files here rest inFile increasing others ih =>
    obtain ⟨hnew, hn⟩ := List.nodup_cons.mp hn
    have hhere : here.Pairwise fun a b => a.file = b.file → a.before b := 
      increasing.imp (by intro a b hb _; exact hb)
    refine List.pairwise_append.mpr ⟨hhere, ih hn, fun a ha b hb he => ?_⟩
    exact absurd (inFile a ha ▸ he ▸ others.mem_of_mem b hb) hnew

end InOrder

namespace Finding

/-- The location of a directive, or of the name of a struct. -/
def place? (l : Landmark) : Finding → Option Location
  | directive d => if l = .hash then some d.location else none
  | declared t => if l = .word then some t.location else none
  | _ => none

theorem filterMap_directives (findings : List Finding) :
    findings.filterMap (place? .hash) = (findings.filterMap directive?).map Directive.location := by
  rw [List.map_filterMap]
  congr 1
  funext f
  cases f <;> rfl

theorem filterMap_declared (findings : List Finding) :
    findings.filterMap (place? .word) = (findings.filterMap declared?).map DeclaredType.location := by
  rw [List.map_filterMap]
  congr 1
  funext f
  cases f <;> rfl

end Finding

namespace Scan

variable {l : Landmark} (file : String) (module : ModulePath)

/-! ## Attributes -/

/-- What is found on attributes, each by itself, has their places in their order. -/
theorem sublist_attributes {noted : Attribute → Option Finding} (attrs : List Attribute)
    (h : ∀ attr finding, noted attr = some finding → ∀ p, finding.place? l = some p →
      l = .hash ∧ p = locate file attr.position) :
    ((attrs.filterMap noted).filterMap (Finding.place? l)).Sublist
      ((Attribute.placesOfAll l attrs).map (locate file)) := by
  rw [List.filterMap_filterMap, List.filterMap_eq_flatMap_toList, Attribute.placesOfAll, List.map_flatMap]
  refine List.Sublist.flatMap_right attrs fun attr _ => ?_
  cases hn : (noted attr).bind (Finding.place? l) with
  | none => exact List.nil_sublist _
  | some p =>
    obtain ⟨finding, hf, hp⟩ := Option.bind_eq_some_iff.mp hn
    obtain ⟨rfl, rfl⟩ := h attr finding hf p hp
    exact List.Sublist.refl _

theorem place?_found {attr : Attribute} {kind : DirectiveKind} {p : Location}
    (h : (found file module attr kind).place? l = some p) : l = .hash ∧ p = locate file attr.position := by
  unfold found Finding.place? at h
  simp only [Option.ite_none_right_eq_some] at h
  exact ⟨h.1, (Option.some.inj h.2).symm⟩

theorem sublist_itemDirectives (v : Visibility) (own : DirectiveKind) (attrs : List Attribute) :
    ((itemDirectives file module v own attrs).filterMap (Finding.place? l)).Sublist
      ((Attribute.placesOfAll l attrs).map (locate file)) := by
  refine sublist_attributes file attrs fun attr finding hf p hp => ?_
  split at hf
  · cases hf
    rcases externalFinding_cases file module v attr with ⟨_, _, _, he⟩ | ⟨problem, he⟩
    · rw [he] at hp
      exact place?_found file module hp
    · rw [he] at hp
      cases hp
  · split at hf
    · cases hf
      exact place?_found file module hp
    · cases hf

/-! ## Items -/

/-- Problems have no place of their own here. -/
theorem place?_problems (problems : List Diagnostic) :
    (problems.map Finding.problem).filterMap (Finding.place? l) = [] := by
  rw [List.filterMap_map]
  exact List.filterMap_eq_nil_iff.mpr fun _ _ => rfl

theorem sublist_structFindings (s : StructItem) :
    ((structFindings file module s).filterMap (Finding.place? l)).Sublist ((s.places l).map (locate file)) := by
  unfold structFindings
  rw [StructItem.places, List.map_append, List.filterMap_append, List.filterMap_append, place?_problems,
    List.append_nil]
  refine (sublist_itemDirectives file module _ _ _).append ?_
  cases l <;> exact List.Sublist.refl _

theorem sublist_functionFindings (typeName : Option String) (f : FunctionItem) :
    ((functionFindings file module typeName f).2.filterMap (Finding.place? l)).Sublist
      ((f.places l).map (locate file)) := by
  have hdirectives : ∀ candidate, (((f.attributes ++ f.innerAttributes).filterMap fun attr =>
      (functionDirective typeName f candidate attr).map (found file module attr)).filterMap (Finding.place? l)).Sublist
        ((f.places l).map (locate file)) := by
    refine fun candidate => sublist_attributes file _ fun attr finding hf p hp => ?_
    obtain ⟨kind, -, rfl⟩ := Option.map_eq_some_iff.mp hf
    exact place?_found file module hp
  unfold functionFindings
  dsimp only
  rw [List.filterMap_append, List.filterMap_append, place?_problems, List.nil_append]
  cases typeName with
  | none => exact (List.append_nil _).symm ▸ hdirectives _
  | some type =>
    dsimp only
    split <;> exact (List.append_nil _).symm ▸ hdirectives _

theorem sublist_blockFindings (typeName : Option String) (functions : List FunctionItem) :
    ((blockFindings file module typeName functions).filterMap (Finding.place? l)).Sublist
      ((functions.flatMap (FunctionItem.places l)).map (locate file)) := by
  have hfunctions : (((functions.map fun f => (f, functionFindings file module typeName f)).flatMap
      (·.2.2)).filterMap (Finding.place? l)).Sublist
      ((functions.flatMap (FunctionItem.places l)).map (locate file)) := by
    rw [List.flatMap_map, List.filterMap_flatMap, List.map_flatMap]
    exact List.Sublist.flatMap_right functions fun f _ => sublist_functionFindings file module typeName f
  unfold blockFindings
  cases typeName with
  | none => exact hfunctions
  | some name =>
    rw [List.filterMap_append]
    exact (List.append_nil _).symm ▸ hfunctions

mutual

theorem sublist_itemFindings (module : ModulePath) : ∀ item : Item,
    ((itemFindings file module item).filterMap (Finding.place? l)).Sublist ((item.places l).map (locate file))
  | .struct s => by
    rw [itemFindings, Item.places]
    exact sublist_structFindings file module s
  | .function f => by
    rw [itemFindings, Item.places]
    exact sublist_itemDirectives file module _ _ _
  | .functions attributes ofTrait subject functions => by
    rw [itemFindings, Item.places, List.filterMap_append, List.map_append]
    exact (sublist_itemDirectives file module _ _ _).append (sublist_blockFindings file module _ functions)
  | .module attributes v name content => by
    rw [itemFindings, Item.places, List.filterMap_append, List.map_append]
    exact (sublist_itemDirectives file module _ _ _).append (sublist_itemsFindings (module.child name) content)
  | .named kind attributes v name => by
    rw [itemFindings, Item.places]
    exact sublist_itemDirectives file module _ _ _
  | .plain => by
    rw [itemFindings]
    exact List.nil_sublist _

/-- What is found in items has their places in their order. -/
theorem sublist_itemsFindings (module : ModulePath) : ∀ items : List Item,
    ((itemsFindings file module items).filterMap (Finding.place? l)).Sublist
      ((Item.placesOfAll l items).map (locate file))
  | [] => List.nil_sublist _
  | item :: rest => by
    rw [itemsFindings, Item.placesOfAll, List.filterMap_append, List.map_append]
    exact (sublist_itemFindings module item).append (sublist_itemsFindings module rest)

end

/-! ## Files -/

theorem inOrder_fileFindings (root : Nat) (dir file text : String) :
    InOrder [file] ((fileFindings root dir file text).filterMap (Finding.place? l)) := by
  unfold fileFindings findingsIn
  cases hread : readFile text with
  | error problem => exact .nothing file
  | ok items =>
    have hsub := sublist_itemsFindings file (l := l) ⟨root, Discovery.moduleSegments dir file⟩ items
    have hplaces : ((Item.placesOfAll l items).map (locate file)).Pairwise Location.before :=
      List.pairwise_map.mpr (increasing_of_readFile l hread)
    rw [← List.append_nil (List.filterMap _ _)]
    refine .file (fun p hp => ?_) (hplaces.sublist hsub) .nil
    obtain ⟨pos, -, rfl⟩ := List.mem_map.mp (hsub.subset hp)
    rfl

/-- A file that cannot be read has a group too, with nothing in it. -/
theorem inOrder_loadFile (tree : FileTree) (root : Nat) (dir file : String) :
    InOrder [file] ((loadFile tree root dir file).filterMap (Finding.place? l)) := by
  unfold loadFile
  split
  · exact inOrder_fileFindings root dir file _
  · exact .nothing file

theorem inOrder_loadFiles (tree : FileTree) (root : Nat) (dir : String) (files : List String) :
    InOrder files ((files.flatMap (loadFile tree root dir)).filterMap (Finding.place? l)) := by
  induction files with
  | nil => exact .nil
  | cons file rest ih =>
    rw [List.flatMap_cons, List.filterMap_append]
    exact (inOrder_loadFile tree root dir file).append ih

theorem inOrder_loadRoots (tree : FileTree) (index : Nat) (roots : List SourceRoot) :
    InOrder (loadRoots tree index roots).1 ((loadRoots tree index roots).2.1.filterMap (Finding.place? l)) := by
  induction roots generalizing index with
  | nil => exact .nil
  | cons root rest ih =>
    unfold loadRoots
    cases hr : loadRoot? tree index root with
    | none => exact .nil
    | some loaded =>
      obtain ⟨files, -, rfl⟩ := Option.map_eq_some_iff.mp hr
      dsimp only
      rw [List.filterMap_append]
      exact (inOrder_loadFiles tree index root.dir files).append (ih (index + 1))

end Scan

namespace SourceTree

theorem inOrder_ofSources (l : Landmark) (sources : List (String × String)) :
    InOrder (ofSources sources).files ((ofSources sources).findings.filterMap (Finding.place? l)) := by
  induction sources with
  | nil => exact .nil
  | cons source rest ih =>
    unfold ofSources
    rw [List.flatMap_cons, List.filterMap_append]
    exact (Scan.inOrder_fileFindings 0 "" source.1 source.2).append ih

theorem inOrder_findings (l : Landmark) {tree : SourceTree} (h : tree.IsScanned) :
    InOrder tree.files (tree.findings.filterMap (Finding.place? l)) := by
  rcases h with ⟨sources, rfl⟩ | ⟨files, roots, rfl⟩
  · exact inOrder_ofSources l sources
  · exact Scan.inOrder_loadRoots files 0 roots

/-- The directives of a scanned tree are grouped by file in the order of the scan, and in each file they
stand in the order of their attributes; so do the structs in the order of their names. -/
theorem inOrder_of_isScanned {tree : SourceTree} (h : tree.IsScanned) :
    InOrder tree.files (tree.directives.map Directive.location) ∧
      InOrder tree.files (tree.types.map DeclaredType.location) := by
  unfold directives types
  rw [← Finding.filterMap_directives, ← Finding.filterMap_declared]
  exact ⟨inOrder_findings .hash h, inOrder_findings .word h⟩

/-- Directives on a struct, on a constructor in a block, on a struct in a module and on one after it. -/
def layered : SourceTree :=
  .ofSources
    [("lib.rs", "#[derive(Builder)]\nstruct Pair { a: u8 }\nimpl Pair { #[builder] fn new() -> Pair {} }"),
      ("more.rs", "mod inner { #[derive(Builder)] struct One; }\n#[derive(Builder)] struct Two;")]

/-- The directives and the structs that are found stand there. -/
def standsAt (tree : SourceTree) (directives types : List Location) : Bool :=
  tree.directives.map Directive.location == directives && tree.types.map DeclaredType.location == types

set_option maxRecDepth 100000 in
theorem layered_standsAt : layered.standsAt
    [⟨"lib.rs", 1, 1⟩, ⟨"lib.rs", 3, 13⟩, ⟨"more.rs", 1, 13⟩, ⟨"more.rs", 2, 1⟩]
    [⟨"lib.rs", 2, 8⟩, ⟨"more.rs", 1, 39⟩, ⟨"more.rs", 2, 27⟩] = true :=
  (congrArg (standsAt · _ _) (ofSources_ofList [("lib.rs", _), ("more.rs", _)])).trans (by decide +kernel)

theorem inOrder_of_layered :
    layered.directives.map Directive.location =
      [⟨"lib.rs", 1, 1⟩, ⟨"lib.rs", 3, 13⟩, ⟨"more.rs", 1, 13⟩, ⟨"more.rs", 2, 1⟩] ∧
    layered.types.map DeclaredType.location = [⟨"lib.rs", 2, 8⟩, ⟨"more.rs", 1, 39⟩, ⟨"more.rs", 2, 27⟩] ∧
    InOrder ["lib.rs", "more.rs"] (layered.directives.map Directive.location) ∧
    InOrder ["lib.rs", "more.rs"] (layered.types.map DeclaredType.location) := by
  obtain ⟨hdirectives, htypes⟩ := Bool.and_eq_true_iff.mp layered_standsAt
  have hscanned : layered.IsScanned := isScanned_ofSources _
  exact ⟨beq_iff_eq.mp hdirectives, beq_iff_eq.mp htypes, inOrder_of_isScanned hscanned⟩

end SourceTree

end BuilderSynthesis
