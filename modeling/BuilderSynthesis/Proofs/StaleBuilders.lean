/-
  BuilderSynthesis.Proofs.StaleBuilders — what the removal of stale builders leaves.

  Removal that ends well removed exactly the source files of the builder directory that were not to
  be kept (`removeStale_swept`), in order and each once, and nothing else. Where all source files
  are to be kept it does nothing (`removeStale_nothing`).
-/

import BuilderSynthesis.Pass.BuilderDirectory
import BuilderSynthesis.Proofs.FileTree

namespace BuilderSynthesis.BuilderDirectory

variable {d : BuilderDirectory} {tree next other : FileTree} {place : Place} {keep removed : List String}

/-! ## The directory in a tree -/

/-- The builder directory is a directory of the tree, at a place. -/
structure OpensAt (d : BuilderDirectory) (tree : FileTree) (place : Place) : Prop where
  located : tree.locate d.dir = some place
  directory : tree.isDirectory place = true

theorem OpensAt.congr (h : d.OpensAt tree place) (hs : FileTree.SameDirectories tree other) : d.OpensAt other place :=
  ⟨hs.locate d.dir ▸ h.located, hs place ▸ h.directory⟩

/-- The source files that a tree has at a place, if there is one, as paths in the builder directory. -/
def sources (d : BuilderDirectory) (tree : FileTree) (place : Option Place) : List String :=
  (((place.map tree.names).getD []).map (FilePath.join d.dir)).filter FilePath.isSource

theorem mem_sources_iff {path : String} : path ∈ d.sources tree (some place) ↔
    ∃ name, (∃ e, tree.get? (place ++ [name]) = some e) ∧ FilePath.join d.dir name = path ∧
      FilePath.isSource path = true := by
  simp only [sources, Option.map_some, Option.getD_some, List.mem_filter, List.mem_map, FileTree.mem_names_iff]
  constructor
  · rintro ⟨⟨name, he, hp⟩, hs⟩
    exact ⟨name, he, hp, hs⟩
  · rintro ⟨name, he, hp, hs⟩
    exact ⟨⟨name, he, hp⟩, hs⟩

theorem isPart_of_get? {name : String} {e : FileEntry} (he : tree.get? (place ++ [name]) = some e) :
    FilePath.IsPart name := ((FilePath.isName_iff name).mp (FileTree.named_of_get? he).1).1

theorem nodup_paths (d : BuilderDirectory) (tree : FileTree) (place : Place) :
    ((tree.names place).map (FilePath.join d.dir)).Nodup := by
  refine List.Nodup.map_on (fun a ha b hb hab => ?_) (tree.nodup_names place)
  obtain ⟨_, ha⟩ := FileTree.mem_names_iff.mp ha
  obtain ⟨_, hb⟩ := FileTree.mem_names_iff.mp hb
  exact (FilePath.join_inj (isPart_of_get? ha) (isPart_of_get? hb)).mp hab

/-! ## Removing one by one -/

/-- After the files at some paths are removed. -/
structure Cleared (before : FileTree) (paths : List String) (after : FileTree) : Prop where
  directories : FileTree.SameDirectories before after
  files : ∀ path ∈ paths, ∃ q content, before.locate path = some q ∧ before.get? q = some (.file content)
  gone : ∀ path ∈ paths, ∀ q, before.locate path = some q → after.get? q = none
  kept : ∀ q, (∀ path ∈ paths, before.locate path ≠ some q) → after.get? q = before.get? q

theorem Cleared.nil (tree : FileTree) : Cleared tree [] tree where
  directories := .refl tree
  files := by simp
  gone := by simp
  kept _ _ := rfl

theorem Cleared.cons {path : String} {rest : List String} {middle : FileTree}
    (first : tree.remove? path = some middle) (hr : Cleared middle rest next) : Cleared tree (path :: rest) next := by
  obtain ⟨place, hl, he⟩ := Option.bind_eq_some_iff.mp first
  obtain ⟨⟨content, hc⟩, -⟩ := FileTree.entries_of_erase? he
  have hs := FileTree.SameDirectories.of_erase? he
  have hg := FileTree.get?_of_erase? he
  refine ⟨hs.trans hr.directories, fun p hp => ?_, fun p hp q hq => ?_, fun q hq => ?_⟩
  · rcases List.mem_cons.mp hp with rfl | hp
    · exact ⟨place, content, hl, hc⟩
    · obtain ⟨q, c, hq, hf⟩ := hr.files p hp
      refine ⟨q, c, (hs.locate p).trans hq, ?_⟩
      rw [hg q] at hf
      split at hf
      · cases hf
      · exact hf
  · by_cases hlater : ∃ p' ∈ rest, middle.locate p' = some q
    · obtain ⟨p', hm, hl'⟩ := hlater
      exact hr.gone p' hm q hl'
    · have hkept := hr.kept q fun p' hm hl' => hlater ⟨p', hm, hl'⟩
      rcases List.mem_cons.mp hp with rfl | hp
      · cases hl.symm.trans hq
        rw [hkept, hg place, if_pos rfl]
      · exact absurd ⟨p, hp, (hs.locate p).symm.trans hq⟩ hlater
  · have hne : q ≠ place := by
      rintro rfl
      exact hq path List.mem_cons_self hl
    rw [hr.kept q fun p hp hl' => hq p (List.mem_cons_of_mem path hp) ((hs.locate p).trans hl'), hg q, if_neg hne]

/-- If no removal failed, all were made. -/
theorem removeAll_cleared {paths removed : List String} (h : removeAll tree paths = (removed, none, next)) :
    removed = paths ∧ Cleared tree paths next := by
  induction paths generalizing tree removed with
  | nil =>
    cases h
    exact ⟨rfl, .nil _⟩
  | cons path rest ih =>
    unfold removeAll at h
    split at h
    · cases h
    · rename_i middle hm
      generalize hr : removeAll middle rest = others at h
      obtain ⟨removed', failed, files⟩ := others
      cases h
      obtain ⟨rfl, hc⟩ := ih hr
      exact ⟨rfl, .cons hm hc⟩

/-- The path leads to a file. -/
def holdsFile (tree : FileTree) (path : String) : Bool :=
  match tree.entry? path with
  | some (.file _) => true
  | _ => false

theorem holdsFile_iff {path : String} :
    holdsFile tree path = true ↔ ∃ q content, tree.locate path = some q ∧ tree.get? q = some (.file content) := by
  unfold holdsFile FileTree.entry?
  constructor
  · intro h
    split at h
    · rename_i content hf
      obtain ⟨q, hl, hg⟩ := Option.bind_eq_some_iff.mp hf
      exact ⟨q, content, hl, hg⟩
    · cases h
  · rintro ⟨q, content, hl, hg⟩
    rw [hl, Option.bind_some, hg]

/-- Files at distinct places can all be removed. -/
theorem removeAll_ok {paths : List String} (hf : ∀ path ∈ paths, holdsFile tree path = true)
    (hd : paths.Pairwise fun a b => tree.locate a ≠ tree.locate b) : (removeAll tree paths).2.1 = none := by
  induction paths generalizing tree with
  | nil => rfl
  | cons path rest ih =>
    obtain ⟨q, content, hl, hg⟩ := holdsFile_iff.mp (hf path List.mem_cons_self)
    obtain ⟨middle, he⟩ := FileTree.erase?_of_file hg
    have hm : tree.remove? path = some middle := by
      unfold FileTree.remove?
      rw [hl, Option.bind_some, he]
    have hs := FileTree.SameDirectories.of_erase? he
    obtain ⟨hfirst, hrest⟩ := List.pairwise_cons.mp hd
    unfold removeAll
    rw [hm]
    refine ih (fun p hp => ?_) (hrest.imp fun h => by rwa [← hs.locate, ← hs.locate])
    obtain ⟨q', content', hl', hg'⟩ := holdsFile_iff.mp (hf p (List.mem_cons_of_mem path hp))
    have hne : q' ≠ q := by
      rintro rfl
      exact hfirst p hp (hl.trans hl'.symm)
    refine holdsFile_iff.mpr ⟨q', content', (hs.locate p).symm.trans hl', ?_⟩
    rw [FileTree.get?_of_erase? he, if_neg hne, hg']

/-! ## Removing what is stale -/

/-- After everything but the paths to be kept is removed from the source files of the directory. -/
structure Swept (d : BuilderDirectory) (place : Place) (keep : List String) (before : FileTree)
    (removed : List String) (after : FileTree) : Prop where
  directories : FileTree.SameDirectories before after
  sorted : removed.Pairwise fun a b => FilePath.le a b = true
  distinct : removed.Nodup
  mem_removed : ∀ path, path ∈ removed ↔ path ∈ d.sources before (some place) ∧ path ∉ keep
  files : ∀ name, FilePath.join d.dir name ∈ removed → FilePath.IsPart name →
    ∃ content, before.get? (place ++ [name]) = some (.file content)
  gone : ∀ name, FilePath.join d.dir name ∈ removed → FilePath.IsPart name → after.get? (place ++ [name]) = none
  kept : ∀ q, (∀ name, FilePath.IsPart name → q = place ++ [name] → FilePath.join d.dir name ∉ removed) →
    after.get? q = before.get? q

namespace Swept

variable {stored after : FileTree}

theorem get?_kept (h : d.Swept place keep stored removed after) {name : String}
    (hr : FilePath.join d.dir name ∉ removed) : after.get? (place ++ [name]) = stored.get? (place ++ [name]) := by
  refine h.kept _ fun name' _ he => ?_
  rw [List.append_cancel_left_eq, List.cons.injEq] at he
  exact he.1 ▸ hr

theorem not_mem_removed (h : d.Swept place keep stored removed after) {path : String} (hk : path ∈ keep) :
    path ∉ removed := fun hr => ((h.mem_removed path).mp hr).2 hk

/-- Nothing is added. -/
theorem get?_eq_none (h : d.Swept place keep stored removed after) {q : Place} (hq : stored.get? q = none) :
    after.get? q = none := by
  by_cases hr : ∃ name, FilePath.IsPart name ∧ q = place ++ [name] ∧ FilePath.join d.dir name ∈ removed
  · obtain ⟨name, hn, rfl, hr⟩ := hr
    exact h.gone name hr hn
  · rw [h.kept q fun name hn he hm => hr ⟨name, hn, he, hm⟩, hq]

end Swept

/-- Paths of names in the directory. -/
def AllNamed (d : BuilderDirectory) (paths : List String) : Prop :=
  ∀ path ∈ paths, ∃ name, FilePath.IsPart name ∧ path = FilePath.join d.dir name

theorem isStale_iff (hk : d.AllNamed keep) {name : String} (hn : FilePath.IsPart name) :
    isStale keep (FilePath.join d.dir name) = true ↔
      FilePath.isSource (FilePath.join d.dir name) = true ∧ FilePath.join d.dir name ∉ keep := by
  unfold isStale
  rw [Bool.and_eq_true, Bool.not_eq_true', ← Bool.not_eq_true, List.any_eq_true]
  refine and_congr_right fun _ => not_congr ⟨?_, fun hm => ⟨_, hm, (FilePath.same_join_iff d.dir hn hn).mpr rfl⟩⟩
  rintro ⟨k, hm, hs⟩
  obtain ⟨name', hn', rfl⟩ := hk k hm
  rw [(FilePath.same_join_iff d.dir hn' hn).mp hs] at hm
  exact hm

/-- The paths that a removal goes through. -/
def stale (d : BuilderDirectory) (tree : FileTree) (place : Place) (keep : List String) : List String :=
  (((tree.names place).mergeSort fun a b => decide (b ≤ a)).map (FilePath.join d.dir)).filter (isStale keep)

theorem removeStale_eq (hat : d.OpensAt tree place) : d.removeStale keep tree =
    ⟨(removeAll tree (d.stale tree place keep)).1, (removeAll tree (d.stale tree place keep)).2.1,
      (removeAll tree (d.stale tree place keep)).2.2⟩ := by
  unfold removeStale FileTree.list?
  rw [hat.located]
  simp only [hat.directory, if_true]
  rfl

theorem mem_stale_iff (hk : d.AllNamed keep) {path : String} :
    path ∈ d.stale tree place keep ↔ path ∈ d.sources tree (some place) ∧ path ∉ keep := by
  simp only [stale, List.mem_filter, List.mem_map, List.mem_mergeSort, mem_sources_iff, FileTree.mem_names_iff]
  constructor
  · rintro ⟨⟨name, ⟨e, he⟩, rfl⟩, hs⟩
    rw [isStale_iff hk (isPart_of_get? he)] at hs
    exact ⟨⟨name, ⟨e, he⟩, rfl, hs.1⟩, hs.2⟩
  · rintro ⟨⟨name, ⟨e, he⟩, rfl, hs⟩, hn⟩
    exact ⟨⟨name, ⟨e, he⟩, rfl⟩, (isStale_iff hk (isPart_of_get? he)).mpr ⟨hs, hn⟩⟩

theorem nodup_stale (d : BuilderDirectory) (tree : FileTree) (place : Place) (keep : List String) :
    (d.stale tree place keep).Nodup := by
  refine List.Nodup.filter _ ?_
  exact (((List.mergeSort_perm _ _).map (FilePath.join d.dir)).nodup_iff).mpr (nodup_paths d tree place)

theorem removeStale_swept (hat : d.OpensAt tree place) (hk : d.AllNamed keep)
    (h : (d.removeStale keep tree).result = .ok removed) :
    d.Swept place keep tree removed (d.removeStale keep tree).files := by
  rw [removeStale_eq hat] at h ⊢
  generalize hr : removeAll tree (d.stale tree place keep) = run at h ⊢
  obtain ⟨made, failed, next⟩ := run
  unfold Removal.result at h
  cases failed with
  | some path => cases h
  | none =>
    cases h
    obtain ⟨rfl, hc⟩ := removeAll_cleared hr
    have hmem : ∀ path, path ∈ (d.stale tree place keep).mergeSort FilePath.le ↔
        path ∈ d.sources tree (some place) ∧ path ∉ keep := by
      intro path
      rw [List.mem_mergeSort]
      exact mem_stale_iff hk
    have hplace : ∀ name, FilePath.IsPart name → ∀ q, tree.locate (FilePath.join d.dir name) = some q →
        q = place ++ [name] := by
      intro name hn q hq
      rw [FileTree.locate_join hat.located hat.directory hn] at hq
      split at hq
      · exact (Option.some.inj hq).symm
      · cases hq
    have hfile : ∀ name, FilePath.join d.dir name ∈ (d.stale tree place keep).mergeSort FilePath.le →
        FilePath.IsPart name → tree.locate (FilePath.join d.dir name) = some (place ++ [name]) ∧
          ∃ content, tree.get? (place ++ [name]) = some (.file content) := by
      intro name hm hn
      obtain ⟨q, content, hl, hf⟩ := hc.files _ (List.mem_mergeSort.mp hm)
      obtain rfl := hplace name hn q hl
      exact ⟨hl, content, hf⟩
    refine ⟨hc.directories, List.pairwise_mergeSort FilePath.le_trans FilePath.le_total _,
      (List.mergeSort_perm _ _).nodup_iff.mpr (nodup_stale d tree place keep), hmem,
      fun name hm hn => (hfile name hm hn).2,
      fun name hm hn => hc.gone _ (List.mem_mergeSort.mp hm) _ (hfile name hm hn).1, fun q hq => hc.kept q ?_⟩
    intro path hp hl
    obtain ⟨name, ⟨e, he⟩, rfl, -⟩ := mem_sources_iff.mp ((mem_stale_iff hk).mp hp).1
    exact hq name (isPart_of_get? he) (hplace name (isPart_of_get? he) q hl) (List.mem_mergeSort.mpr hp)

/-- Removal ends well where everything stale is a file. -/
theorem removeStale_ok (hat : d.OpensAt tree place) (hk : d.AllNamed keep)
    (hf : ∀ path ∈ d.sources tree (some place), path ∉ keep → holdsFile tree path = true) :
    ∃ removed, (d.removeStale keep tree).result = .ok removed := by
  have hstale : ∀ path ∈ d.stale tree place keep, holdsFile tree path = true ∧
      ∃ name, FilePath.join d.dir name = path ∧ tree.locate path = some (place ++ [name]) := by
    intro path hp
    obtain ⟨hm, hn⟩ := (mem_stale_iff hk).mp hp
    have hfile := hf path hm hn
    obtain ⟨q, content, hl, -⟩ := holdsFile_iff.mp hfile
    obtain ⟨name, ⟨e, he⟩, rfl, -⟩ := mem_sources_iff.mp hm
    have hl' := FileTree.locate_join hat.located hat.directory (isPart_of_get? he)
    rw [hl] at hl'
    refine ⟨hfile, name, rfl, ?_⟩
    split at hl'
    · rw [hl, hl']
    · cases hl'
  have hnone : (removeAll tree (d.stale tree place keep)).2.1 = none := by
    refine removeAll_ok (fun path hp => (hstale path hp).1) ?_
    refine (nodup_stale d tree place keep).imp_of_mem fun ha hb hab heq => hab ?_
    obtain ⟨-, a, rfl, hla⟩ := hstale _ ha
    obtain ⟨-, b, rfl, hlb⟩ := hstale _ hb
    rw [hla, hlb, Option.some.injEq, List.append_cancel_left_eq, List.cons.injEq] at heq
    rw [heq.1]
  rw [removeStale_eq hat]
  unfold Removal.result
  rw [hnone]
  exact ⟨_, rfl⟩

theorem removeStale_nothing (hat : d.OpensAt tree place) (hk : d.AllNamed keep)
    (h : ∀ path ∈ d.sources tree (some place), path ∈ keep) : d.removeStale keep tree = ⟨[], none, tree⟩ := by
  have hs : d.stale tree place keep = [] := by
    rw [List.eq_nil_iff_forall_not_mem]
    intro path hp
    obtain ⟨hm, hn⟩ := (mem_stale_iff hk).mp hp
    exact hn (h path hm)
  rw [removeStale_eq hat, hs]
  rfl

end BuilderSynthesis.BuilderDirectory
