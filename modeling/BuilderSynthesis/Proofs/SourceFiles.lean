/-
  BuilderSynthesis.Proofs.SourceFiles — which source files a search finds.

  However directories are listed, a search finds the source files below its root that lie in no
  directory that is skipped, each of them once, and puts them into the order of their paths
  (`sourceFilesBy_exact`). Every step of the search keeps what it will have found in the end
  (`mem_search_iff`), and keeps what is pending apart from what is found (`Apart`), so that nothing
  is found twice. The order of the paths is strict, so the listing does not show in it.
-/

import BuilderSynthesis.Files.Discovery
import BuilderSynthesis.Proofs.FileTree

namespace BuilderSynthesis

namespace Discovery

open FileTree

variable {tree : FileTree} {place target : Place} {pending found : List Place}

/-! ## What a search comes to -/

/-- A pending place leads to a source file: it is one, or it is a directory that is searched and one
of the places in it leads there. -/
inductive Leads (tree : FileTree) : Place → Place → Prop where
  | here {place : Place} (file : tree.isDirectory place = false) (source : place.getLast?.any FilePath.isSource = true) :
      Leads tree place place
  | inside {place target : Place} {name : String} (directory : tree.isDirectory place = true) (searched : place.getLast?.any skips = false)
      (listed : name ∈ tree.names place) (rest : Leads tree (place ++ [name]) target) : Leads tree place target

namespace Leads

theorem not_of_skipped (hd : tree.isDirectory place = true) (hs : place.getLast?.any skips = true) :
    ¬ Leads tree place target := by
  intro h
  cases h with
  | here file => rw [hd] at file; cases file
  | inside _ searched => rw [hs] at searched; cases searched

theorem iff_of_directory (listing : Listing tree) (hd : tree.isDirectory place = true)
    (hs : place.getLast?.any skips = false) :
    Leads tree place target ↔ ∃ next ∈ listing.inside place, Leads tree next target := by
  constructor
  · intro h
    cases h with
    | here file => rw [hd] at file; cases file
    | inside _ _ listed rest => exact ⟨_, listing.mem_inside_iff.mpr ⟨_, listed, rfl⟩, rest⟩
  · rintro ⟨next, hn, h⟩
    obtain ⟨name, listed, rfl⟩ := listing.mem_inside_iff.mp hn
    exact .inside hd hs listed h

theorem iff_of_file (hd : tree.isDirectory place = false) :
    Leads tree place target ↔ place.getLast?.any FilePath.isSource = true ∧ target = place := by
  constructor
  · intro h
    cases h with
    | here _ source => exact ⟨source, rfl⟩
    | inside directory => rw [hd] at directory; cases directory
  · rintro ⟨source, rfl⟩
    exact .here hd source

end Leads

/-- A search finds what was found before and what the pending places lead to. -/
theorem mem_search_iff (listing : Listing tree) :
    target ∈ search listing pending found ↔ target ∈ found ∨ ∃ place ∈ pending, Leads tree place target := by
  fun_induction search listing pending found with
  | case1 found => simp
  | case2 place pending found hd hs ih =>
    rw [ih]
    simp only [List.exists_mem_cons_iff, Leads.not_of_skipped hd hs, false_or]
  | case3 place pending found hd hs ih =>
    rw [ih]
    simp only [List.exists_mem_cons_iff, Leads.iff_of_directory listing hd (Bool.eq_false_iff.mpr hs), List.mem_append,
      List.mem_reverse, or_and_right, exists_or]
  | case4 place pending found hd hs ih =>
    rw [ih]
    simp only [List.exists_mem_cons_iff, Leads.iff_of_file (Bool.eq_false_iff.mpr hd), hs, true_and, List.mem_append,
      List.mem_singleton, or_assoc]
  | case5 place pending found hd hs ih =>
    rw [ih]
    simp only [List.exists_mem_cons_iff, Leads.iff_of_file (Bool.eq_false_iff.mpr hd), hs, Bool.false_eq_true, false_and, false_or]

/-- A source file lies below a place under these names, in no directory on the way that is hidden or
holds build results. -/
structure HasSource (tree : FileTree) (root names : Place) : Prop where
  below : names ≠ []
  file : ∃ content, tree.get? (root ++ names) = some (.file content)
  extension : names.getLast?.bind FilePath.extension? = some "rs"
  searched : ∀ name ∈ names.dropLast, name ≠ "target" ∧ name.toList.head? ≠ some '.'

theorem skips_eq_false_iff (name : String) : skips name = false ↔ name ≠ "target" ∧ name.toList.head? ≠ some '.' := by
  simp [skips, and_comm]

theorem isSource_eq_true_iff (names : Place) :
    names.getLast?.any FilePath.isSource = true ↔ names.getLast?.bind FilePath.extension? = some "rs" := by
  cases names.getLast? <;> simp [FilePath.isSource]

/-- From a place that is there, a search comes to the source files from it on that lie in no directory
that is skipped. -/
theorem Leads.exists_names {first : String} (he : ∃ e, tree.get? (place ++ [first]) = some e)
    (h : Leads tree (place ++ [first]) target) :
    ∃ names, target = place ++ names ∧ HasSource tree place names ∧ names.head? = some first := by
  generalize hstart : place ++ [first] = start at h
  induction h generalizing place first with
  | here file source =>
    subst hstart
    obtain ⟨e, he⟩ := he
    refine ⟨[first], rfl, ⟨List.cons_ne_nil _ _, ?_, ?_, fun name hn => absurd hn List.not_mem_nil⟩, rfl⟩
    · cases e with
      | directory => rw [isDirectory_iff.mpr he] at file; cases file
      | file content => exact ⟨content, he⟩
    · rw [← isSource_eq_true_iff]
      simpa using source
  | @inside _ target name directory searched listed rest ih =>
    subst hstart
    obtain ⟨names, rfl, hsource, hhead⟩ := ih (mem_names_iff.mp listed) rfl
    obtain ⟨more, rfl⟩ : ∃ more, names = name :: more := by
      cases names with
      | nil => cases hhead
      | cons n more => exact ⟨more, by rw [Option.some.inj hhead]⟩
    rw [List.getLast?_concat] at searched
    refine ⟨first :: name :: more, by simp, ⟨List.cons_ne_nil _ _, ?_, ?_, fun n hn => ?_⟩, rfl⟩
    · simpa using hsource.file
    · simpa using hsource.extension
    · rcases List.mem_cons.mp hn with rfl | hn
      · exact (skips_eq_false_iff n).mp searched
      · exact hsource.searched n hn

theorem HasSource.leads {first : String} {rest : Place} (h : HasSource tree place (first :: rest)) :
    Leads tree (place ++ [first]) (place ++ first :: rest) := by
  obtain ⟨content, hc⟩ := h.file
  induction rest generalizing place first with
  | nil =>
    refine .here ?_ ?_
    · rw [isDirectory, hc]
      rfl
    · rw [List.getLast?_concat]
      exact (isSource_eq_true_iff [first]).mpr h.extension
  | cons second more ih =>
    have hplace : place ++ first :: second :: more = place ++ [first] ++ second :: more := by simp
    rw [hplace] at hc ⊢
    refine .inside (isDirectory_of_get?_append (List.cons_ne_nil _ _) hc) ?_ (mem_names_of_get?_append hc) (ih ?_ hc)
    · rw [List.getLast?_concat]
      exact (skips_eq_false_iff first).mpr (h.searched first List.mem_cons_self)
    · exact ⟨List.cons_ne_nil _ _, ⟨content, hc⟩, by simpa using h.extension,
        fun name hn => h.searched name (List.mem_cons_of_mem _ hn)⟩

/-- What is found below a directory are its source files. -/
theorem mem_search_inside_iff (listing : Listing tree) {root : Place} :
    target ∈ search listing (listing.inside root).reverse [] ↔ ∃ names, target = root ++ names ∧ HasSource tree root names := by
  rw [mem_search_iff]
  constructor
  · rintro (h | ⟨start, hs, h⟩)
    · cases h
    · obtain ⟨name, hn, rfl⟩ := listing.mem_inside_iff.mp (List.mem_reverse.mp hs)
      obtain ⟨names, ht, hsource, -⟩ := h.exists_names (mem_names_iff.mp hn)
      exact ⟨names, ht, hsource⟩
  · rintro ⟨names, rfl, hsource⟩
    obtain ⟨first, rest, rfl⟩ := List.exists_cons_of_ne_nil hsource.below
    obtain ⟨content, hc⟩ := hsource.file
    have hstart : root ++ [first] ∈ listing.inside root := listing.mem_inside_iff.mpr ⟨first, mem_names_of_get?_append hc, rfl⟩
    exact Or.inr ⟨root ++ [first], List.mem_reverse.mpr hstart, hsource.leads⟩

/-! ## Each of them once -/

/-- No pending place lies on the way to another one or to what has been found. -/
structure Apart (pending found : List Place) : Prop where
  distinct : found.Nodup
  separate : pending.Pairwise fun a b => ¬ a <+: b ∧ ¬ b <+: a
  fresh : ∀ p ∈ found, ∀ q ∈ pending, ¬ q <+: p

namespace Apart

theorem rest (h : Apart (place :: pending) found) : Apart pending found where
  distinct := h.distinct
  separate := (List.pairwise_cons.mp h.separate).2
  fresh p hp q hq := h.fresh p hp q (List.mem_cons_of_mem _ hq)

/-- What is in a directory takes its place. -/
theorem opened (listing : Listing tree) (h : Apart (place :: pending) found) :
    Apart ((listing.inside place).reverse ++ pending) found := by
  obtain ⟨hplace, hpending⟩ := List.pairwise_cons.mp h.separate
  have hinside : (listing.inside place).Pairwise fun a b => ¬ a <+: b ∧ ¬ b <+: a := by
    refine List.Pairwise.map _ (fun a b hne => ⟨fun hp => hne ?_, fun hp => hne ?_⟩)
      (List.nodup_iff_pairwise_ne.mp (listing.nodup_names place))
    · exact name_eq_of_shared hp (List.prefix_refl _)
    · exact name_eq_of_shared (List.prefix_refl _) hp
  refine ⟨h.distinct, List.pairwise_append.mpr ⟨?_, hpending, fun a ha b hb => ?_⟩, fun p hp q hq => ?_⟩
  · exact List.pairwise_reverse.mpr (hinside.imp And.symm)
  · obtain ⟨name, -, rfl⟩ := listing.mem_inside_iff.mp (List.mem_reverse.mp ha)
    obtain ⟨hb₁, hb₂⟩ := hplace b hb
    refine ⟨fun hp => hb₁ ((List.prefix_append place [name]).trans hp), fun hp => ?_⟩
    rcases List.prefix_concat_iff.mp hp with rfl | hp
    · exact hb₁ (List.prefix_append place [name])
    · exact hb₂ hp
  · rcases List.mem_append.mp hq with hq | hq
    · obtain ⟨name, -, rfl⟩ := listing.mem_inside_iff.mp (List.mem_reverse.mp hq)
      exact fun hprefix => h.fresh p hp place List.mem_cons_self ((List.prefix_append place [name]).trans hprefix)
    · exact h.fresh p hp q (List.mem_cons_of_mem _ hq)

/-- A file that is found is not pending any more. -/
theorem kept (h : Apart (place :: pending) found) : Apart pending (found ++ [place]) := by
  obtain ⟨hplace, hpending⟩ := List.pairwise_cons.mp h.separate
  refine ⟨List.nodup_append.mpr ⟨h.distinct, List.pairwise_singleton _ _, fun a ha b hb => ?_⟩, hpending, fun p hp q hq => ?_⟩
  · rintro rfl
    rw [List.mem_singleton.mp hb] at ha
    exact h.fresh place ha place List.mem_cons_self (List.prefix_refl _)
  · rcases List.mem_append.mp hp with hp | hp
    · exact h.fresh p hp q (List.mem_cons_of_mem _ hq)
    · rw [List.mem_singleton.mp hp]
      exact (hplace q hq).2

end Apart

theorem nodup_search (listing : Listing tree) (h : Apart pending found) : (search listing pending found).Nodup := by
  fun_induction search listing pending found with
  | case1 found => exact h.distinct
  | case2 place pending found hd hs ih => exact ih h.rest
  | case3 place pending found hd hs ih => exact ih (h.opened listing)
  | case4 place pending found hd hs ih => exact ih h.kept
  | case5 place pending found hd hs ih => exact ih h.rest

theorem nodup_search_inside (listing : Listing tree) (root : Place) :
    (search listing (listing.inside root).reverse []).Nodup := by
  have hroot : Apart [root] [] := ⟨List.nodup_nil, List.pairwise_singleton _ _, fun p hp => absurd hp List.not_mem_nil⟩
  have hopened := hroot.opened listing
  rw [List.append_nil] at hopened
  exact nodup_search listing hopened

/-! ## In the order of their paths -/

/-- Paths below a directory are the same only if the names are. -/
theorem names_eq_of_same {root names others : Place} {dir : String} (hn : HasSource tree root names)
    (ho : HasSource tree root others)
    (h : FilePath.same (FilePath.joinAll dir names) (FilePath.joinAll dir others) = true) : names = others := by
  obtain ⟨_, hcn⟩ := hn.file
  obtain ⟨_, hco⟩ := ho.file
  have hcomponents := beq_iff_eq.mp h
  rw [FilePath.components_joinAll dir hn.below (isPart_of_get?_append hcn),
    FilePath.components_joinAll dir ho.below (isPart_of_get?_append hco), List.append_cancel_left_eq] at hcomponents
  exact List.map_injective_iff.mpr (fun a b he => PathComponent.name.inj he) hcomponents

theorem sourceFilesBy_eq_ok (listing : Listing tree) {dir : String} {root : Place} (hl : tree.locate dir = some root)
    (hd : tree.isDirectory root = true) :
    sourceFilesBy listing dir = .ok (((search listing (listing.inside root).reverse []).map fun place =>
      FilePath.joinAll dir (place.drop root.length)).mergeSort FilePath.le) := by
  rw [sourceFilesBy, hl]
  exact if_pos hd

/-- A search below a directory that can be read. -/
theorem sourceFilesBy_of_directory (listing : Listing tree) {dir : String} {root : Place} (hl : tree.locate dir = some root)
    (hd : tree.isDirectory root = true) :
    ∃ files, sourceFilesBy listing dir = .ok files ∧ files.Pairwise FilePath.Before ∧
      ∀ file, file ∈ files ↔ ∃ names, HasSource tree root names ∧ file = FilePath.joinAll dir names := by
  have hfound : ∀ {target : Place}, target ∈ search listing (listing.inside root).reverse [] →
      HasSource tree root (target.drop root.length) ∧ target = root ++ target.drop root.length := by
    intro target ht
    obtain ⟨names, rfl, hsource⟩ := (mem_search_inside_iff listing).mp ht
    rw [List.drop_left]
    exact ⟨hsource, rfl⟩
  have hapart : ((search listing (listing.inside root).reverse []).map fun place =>
      FilePath.joinAll dir (place.drop root.length)).Pairwise fun a b => FilePath.same a b = false := by
    refine List.pairwise_map.mpr ((nodup_search_inside listing root).imp_of_mem fun {p q} hp hq hne => ?_)
    rw [← Bool.not_eq_true]
    intro hsame
    have hnames := names_eq_of_same (hfound hp).1 (hfound hq).1 hsame
    exact hne ((hfound hp).2.trans (hnames ▸ (hfound hq).2.symm))
  refine ⟨_, sourceFilesBy_eq_ok listing hl hd, List.Pairwise.and ?_ ?_, fun file => ?_⟩
  · exact List.pairwise_mergeSort FilePath.le_trans FilePath.le_total _
  · refine (List.mergeSort_perm _ _).symm.pairwise hapart fun {a b} h => ?_
    rw [FilePath.same, BEq.comm]
    exact h
  · simp only [List.mem_mergeSort, List.mem_map, mem_search_inside_iff]
    constructor
    · rintro ⟨_, ⟨names, rfl, hsource⟩, rfl⟩
      exact ⟨names, hsource, by rw [List.drop_left]⟩
    · rintro ⟨names, hsource, rfl⟩
      exact ⟨root ++ names, ⟨names, rfl, hsource⟩, by rw [List.drop_left]⟩

theorem sourceFilesBy_eq_error_iff (listing : Listing tree) (dir : String) (error : PassError) :
    sourceFilesBy listing dir = .error error ↔ error = .sourceRoot dir ∧ tree.hasDirectory dir = false := by
  unfold sourceFilesBy hasDirectory entry?
  cases tree.locate dir with
  | none => simpa using eq_comm
  | some root =>
    rw [Option.bind_some, ← isDirectory]
    cases hd : tree.isDirectory root with
    | true => simp [hd]
    | false => simpa [hd] using eq_comm

/-- However directories are listed, a search fails exactly if its root cannot be read as a directory.
Otherwise it finds the source files below it that lie in no directory that is skipped, each once and in
the strict order of their paths, and any other listing gives the same. -/
theorem sourceFilesBy_exact (listing : Listing tree) (dir : String) :
    (∀ error, sourceFilesBy listing dir = .error error ↔ error = .sourceRoot dir ∧ tree.hasDirectory dir = false) ∧
      ∀ files, sourceFilesBy listing dir = .ok files →
        files.Pairwise FilePath.Before ∧ files.Nodup ∧
          (∀ file, file ∈ files ↔ ∃ root names, tree.locate dir = some root ∧ HasSource tree root names ∧
            file = FilePath.joinAll dir names) ∧
          ∀ other : Listing tree, sourceFilesBy other dir = .ok files := by
  refine ⟨sourceFilesBy_eq_error_iff listing dir, fun files hfiles => ?_⟩
  obtain ⟨root, hl, hd⟩ : ∃ root, tree.locate dir = some root ∧ tree.isDirectory root = true := by
    unfold sourceFilesBy at hfiles
    split at hfiles
    · rename_i root hl
      split at hfiles
      · rename_i hd
        exact ⟨root, hl, hd⟩
      · cases hfiles
    · cases hfiles
  have hnodup : ∀ {fs : List String}, fs.Pairwise FilePath.Before → fs.Nodup := fun h => h.imp FilePath.Before.ne
  obtain ⟨_, he, hsorted, hmem⟩ := sourceFilesBy_of_directory listing hl hd
  obtain rfl := Except.ok.inj (hfiles.symm.trans he)
  refine ⟨hsorted, hnodup hsorted, fun file => ?_, fun other => ?_⟩
  · rw [hmem, hl]
    simp only [Option.some.injEq, exists_and_left, exists_eq_left']
  · obtain ⟨others, ho, hsorted', hmem'⟩ := sourceFilesBy_of_directory other hl hd
    have hperm : others.Perm files :=
      (List.perm_ext_iff_of_nodup (hnodup hsorted') (hnodup hsorted)).mpr fun file => by rw [hmem, hmem']
    rw [ho, hperm.eq_of_pairwise (fun a b _ _ => FilePath.Before.asymm) hsorted' hsorted]

/-- A crate with a source file in its root and one in a directory, beside files that are no sources of it. -/
def crateFiles : FileTree :=
  ["src/notes.txt", "src/lib.rs", "src/.drafts/x.rs", "src/a/mod.rs", "src/target/gen.rs"].foldl
    (fun tree path => tree.withFile path (.text "")) .empty

/-- Every directory is listed in the order in which its names were added. -/
def crateListing : Listing crateFiles := ⟨crateFiles.names, fun _ => .refl _⟩

theorem sourceFilesBy_exact_for_crate :
    sourceFilesBy crateListing "src" = .ok ["src/a/mod.rs", "src/lib.rs"] ∧
      ∀ other : Listing crateFiles, sourceFilesBy other "src" = .ok ["src/a/mod.rs", "src/lib.rs"] := by
  have hrun : sourceFilesBy crateListing "src" = .ok ["src/a/mod.rs", "src/lib.rs"] := by
    have hlocated : crateFiles.locate "src" = some ["src"] := by decide +kernel
    have hdirectory : crateFiles.isDirectory ["src"] = true := by decide +kernel
    have hfound : search crateListing (crateListing.inside ["src"]).reverse [] =
        [["src", "a", "mod.rs"], ["src", "lib.rs"]] := by decide +kernel
    rw [sourceFilesBy_eq_ok crateListing hlocated hdirectory, hfound]
    exact congrArg Except.ok (List.mergeSort_of_pairwise (by decide +kernel))
  exact ⟨hrun, ((sourceFilesBy_exact crateListing "src").2 _ hrun).2.2.2⟩

end Discovery

end BuilderSynthesis
