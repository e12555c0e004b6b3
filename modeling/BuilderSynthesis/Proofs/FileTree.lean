/-
  BuilderSynthesis.Proofs.FileTree — what every change of a tree leaves as it is.

  A tree is known by the places it names, in their order, and by what lies at each (`ext_get?`).
  Writing and removing a file change one place and no directory, so every path still leads where it
  led (`SameDirectories`). Creating directories only adds some, and does nothing when it is repeated
  in any tree with the same directories (`createAlong_again`).
-/

import Mathlib.Data.List.Nodup
import BuilderSynthesis.Files.Listing
import BuilderSynthesis.Proofs.Paths

namespace BuilderSynthesis

theorem Located.eq_of_place_of_entry {a b : Located} (hp : a.place = b.place) (he : a.entry = b.entry) : a = b := by
  obtain ⟨place, entry, depth, hd⟩ := a
  obtain ⟨place', entry', depth', hd'⟩ := b
  subst hp he hd hd'
  rfl

/-- Lists of the same distinct places that answer alike are equal. -/
theorem Entries.eq_of_places {a b : List Located} (hd : (a.map Located.place).Nodup)
    (hn : ∀ found ∈ a, found.place ≠ []) (hp : a.map Located.place = b.map Located.place)
    (hg : ∀ q, get? a q = get? b q) : a = b := by
  induction a generalizing b with
  | nil => exact (List.map_eq_nil_iff.mp hp.symm).symm
  | cons first rest ih =>
    cases b with
    | nil => cases hp
    | cons first' rest' =>
      rw [List.map_cons, List.map_cons, List.cons.injEq] at hp
      obtain ⟨hfirst, hrest⟩ := hp
      rw [List.map_cons, List.nodup_cons] at hd
      have hne := hn first List.mem_cons_self
      have he : first.entry = first'.entry := by
        have h := hg first.place
        rw [get?_cons_self first rest hne, hfirst, get?_cons_self first' rest' (hfirst ▸ hne)] at h
        exact Option.some.inj h
      rw [Located.eq_of_place_of_entry hfirst he]
      congr 1
      refine ih hd.2 (fun found hm => hn found (List.mem_cons_of_mem first hm)) hrest fun q => ?_
      by_cases hq : first.place = q
      · subst hq
        have hnone : ∀ l : List Located, first.place ∉ l.map Located.place → get? l first.place = none := by
          intro l hl
          cases hc : get? l first.place with
          | none => rfl
          | some e =>
            obtain ⟨found, hm, hfp, -⟩ := exists_of_get? hne hc
            exact absurd (hfp ▸ List.mem_map_of_mem hm) hl
        rw [hnone rest hd.1, hnone rest' (hrest ▸ hd.1)]
      · have h := hg q
        rwa [get?_cons_of_ne first rest hq, get?_cons_of_ne first' rest' (hfirst ▸ hq)] at h

namespace FileTree

variable {tree next other : FileTree} {place q : Place} {entry : FileEntry}

/-! ## Places -/

/-- The places of all entries, in the order in which they came. -/
def places (tree : FileTree) : List Place := tree.entries.map Located.place

theorem ext_get? {a b : FileTree} (hp : a.places = b.places) (hg : ∀ q, a.get? q = b.get? q) : a = b := by
  obtain ⟨ea, wa⟩ := a
  obtain ⟨eb, wb⟩ := b
  have : ea = eb := Entries.eq_of_places wa.distinct (fun _ hm => wa.place_ne_nil hm) hp hg
  subst this
  rfl

theorem mem_places_iff : q ∈ tree.places ↔ q ≠ [] ∧ ∃ e, tree.get? q = some e := by
  constructor
  · intro hm
    have hne : q ≠ [] := by
      obtain ⟨found, hf, rfl⟩ := List.mem_map.mp hm
      exact tree.wellFormed.place_ne_nil hf
    exact ⟨hne, (Entries.mem_places_iff hne tree.wellFormed.distinct).mp hm⟩
  · rintro ⟨hne, he⟩
    exact (Entries.mem_places_iff hne tree.wellFormed.distinct).mpr he

theorem isDirectory_iff : tree.isDirectory place = true ↔ tree.get? place = some .directory := by
  simp [isDirectory]

/-- What lies at a place has a proper name, in a directory. -/
theorem named_of_get? {name : String} {e : FileEntry} (he : tree.get? (place ++ [name]) = some e) :
    FilePath.isName name = true ∧ tree.isDirectory place = true := by
  obtain ⟨found, hf, hp, -⟩ := Entries.exists_of_get? (by simp) he
  have hn := tree.wellFormed.named found hf
  have hi := tree.wellFormed.inside found hf
  rw [hp] at hn hi
  rw [List.getLast?_concat] at hn
  rw [List.dropLast_concat] at hi
  exact ⟨hn, isDirectory_iff.mpr hi⟩

/-- What something lies below is a directory. -/
theorem isDirectory_of_get?_append {e : FileEntry} {names : Place} (hne : names ≠ []) (he : tree.get? (place ++ names) = some e) :
    tree.isDirectory place = true := by
  induction names generalizing place with
  | nil => exact absurd rfl hne
  | cons first rest ih =>
    cases rest with
    | nil => exact (named_of_get? he).2
    | cons second more =>
      rw [← List.singleton_append, ← List.append_assoc] at he
      exact (named_of_get? (isDirectory_iff.mp (ih (List.cons_ne_nil _ _) he))).2

/-- The first step on the way to something leads to a name in the directory. -/
theorem mem_names_of_get?_append {e : FileEntry} {first : String} {rest : Place} (he : tree.get? (place ++ first :: rest) = some e) :
    first ∈ tree.names place := by
  refine mem_names_iff.mpr ?_
  cases rest with
  | nil => exact ⟨e, he⟩
  | cons second more =>
    rw [← List.singleton_append, ← List.append_assoc] at he
    exact ⟨_, isDirectory_iff.mp (isDirectory_of_get?_append (List.cons_ne_nil _ _) he)⟩

/-- The names on the way to something are parts of a path. -/
theorem isPart_of_get?_append {e : FileEntry} {names : Place} (he : tree.get? (place ++ names) = some e) :
    ∀ name ∈ names, FilePath.IsPart name := by
  induction names generalizing place with
  | nil => exact fun name hn => absurd hn List.not_mem_nil
  | cons first rest ih =>
    obtain ⟨_, hfirst⟩ := mem_names_iff.mp (mem_names_of_get?_append he)
    rw [← List.singleton_append, ← List.append_assoc] at he
    intro name hn
    rcases List.mem_cons.mp hn with rfl | hn
    · exact ((FilePath.isName_iff name).mp (named_of_get? hfirst).1).1
    · exact ih he name hn

/-! ## Putting and erasing -/

theorem exists_put? (entry : FileEntry) (h : tree.isFree place = true) : ∃ next, tree.put? place entry = some next := by
  unfold put?
  rw [dif_pos h]
  exact ⟨_, rfl⟩

theorem isFree_of_put? (h : tree.put? place entry = some next) : tree.isFree place = true := by
  unfold put? at h
  split at h
  · assumption
  · cases h

theorem ne_root_of_isFree (h : tree.isFree place = true) : place ≠ [] := by
  rintro rfl
  exact ((tree.isFree_iff []).mp h).2.2 rfl

theorem entries_of_put? (h : tree.put? place entry = some next) :
    next.entries = Entries.put tree.entries place entry := by
  have hf := isFree_of_put? h
  unfold put? at h
  rw [dif_pos hf] at h
  cases h
  rfl

theorem get?_of_put? (h : tree.put? place entry = some next) (q : Place) :
    next.get? q = if q = place then some entry else tree.get? q := by
  have hne := ne_root_of_isFree (isFree_of_put? h)
  unfold get?
  rw [entries_of_put? h]
  split
  · rename_i hq
    rw [hq]
    exact Entries.get?_put_self tree.entries entry hne
  · rename_i hq
    exact Entries.get?_put_of_ne tree.entries entry hq

theorem places_of_put? (h : tree.put? place entry = some next) :
    next.places = if place ∈ tree.places then tree.places else tree.places ++ [place] := by
  unfold places
  rw [entries_of_put? h]
  exact Entries.places_put tree.entries place entry

theorem erase?_of_file {content : Content} (h : tree.get? place = some (.file content)) :
    ∃ next, tree.erase? place = some next := by
  unfold erase?
  split
  · exact ⟨_, rfl⟩
  · rename_i hn
    exact absurd h (hn content)

theorem entries_of_erase? (h : tree.erase? place = some next) :
    (∃ content, tree.get? place = some (.file content)) ∧ next.entries = Entries.erase tree.entries place := by
  unfold erase? at h
  split at h
  · rename_i content hc
    cases h
    exact ⟨⟨content, hc⟩, rfl⟩
  · cases h

theorem get?_of_erase? (h : tree.erase? place = some next) (q : Place) :
    next.get? q = if q = place then none else tree.get? q := by
  obtain ⟨⟨content, hc⟩, he⟩ := entries_of_erase? h
  have hne : place ≠ [] := by
    rintro rfl
    cases hc
  unfold get?
  rw [he]
  split
  · rename_i hq
    rw [hq]
    exact Entries.get?_erase_self tree.entries hne
  · rename_i hq
    exact Entries.get?_erase_of_ne tree.entries hq

/-! ## The same directories -/

/-- Every path leads to the same place in both. -/
def SameDirectories (a b : FileTree) : Prop := ∀ place, a.isDirectory place = b.isDirectory place

namespace SameDirectories

theorem refl (tree : FileTree) : SameDirectories tree tree := fun _ => rfl

theorem trans {a b c : FileTree} (hab : SameDirectories a b) (hbc : SameDirectories b c) : SameDirectories a c :=
  fun place => (hab place).trans (hbc place)

theorem of_put? {content : Content} (h : tree.put? place (.file content) = some next) : SameDirectories tree next := by
  intro q
  have hd := ((tree.isFree_iff place).mp (isFree_of_put? h)).2.2
  unfold isDirectory
  rw [get?_of_put? h]
  split
  · rename_i hq
    subst hq
    simpa using hd
  · rfl

theorem of_erase? (h : tree.erase? place = some next) : SameDirectories tree next := by
  intro q
  obtain ⟨⟨content, hc⟩, -⟩ := entries_of_erase? h
  unfold isDirectory
  rw [get?_of_erase? h]
  split
  · rename_i hq
    subst hq
    rw [hc]
    rfl
  · rfl

theorem follow {a b : FileTree} (h : SameDirectories a b) (place : Place) (components : List PathComponent) :
    a.follow place components = b.follow place components := by
  induction components generalizing place with
  | nil => rfl
  | cons component rest ih =>
    unfold FileTree.follow
    rw [h place]
    simp only [ih]

theorem locate {a b : FileTree} (h : SameDirectories a b) (path : String) : a.locate path = b.locate path := by
  unfold FileTree.locate
  rw [h.follow]

theorem isFree {a b : FileTree} (h : SameDirectories a b) (place : Place) : a.isFree place = b.isFree place := by
  unfold FileTree.isFree
  rw [h place, h place.dropLast]

end SameDirectories

/-! ## Following a path -/

theorem follow_append (tree : FileTree) (place : Place) (before after : List PathComponent) :
    tree.follow place (before ++ after) = (tree.follow place before).bind fun q => tree.follow q after := by
  induction before generalizing place with
  | nil => rfl
  | cons component rest ih =>
    rw [List.cons_append]
    simp only [follow, ih]
    split
    · rw [Option.bind_assoc]
    · rfl

theorem follow_name {name : String} (hd : tree.isDirectory place = true) :
    tree.follow place [.name name] =
      if (PathComponent.name name).isShort then some (place ++ [name]) else none := by
  simp only [follow, hd, if_true, step?]
  split <;> rfl

/-- A name in a directory leads to the place of that name below that of the directory, if a file
system takes the path and the name. -/
theorem locate_join {dir name : String} (hl : tree.locate dir = some place) (hd : tree.isDirectory place = true)
    (hn : FilePath.IsPart name) :
    tree.locate (FilePath.join dir name) =
      if FilePath.isUsable (FilePath.join dir name) && (PathComponent.name name).isShort then some (place ++ [name])
      else none := by
  have hf : tree.follow [] (FilePath.components dir) = some place := by
    unfold locate at hl
    split at hl
    · cases hl
    · exact hl
  have hne : FilePath.join dir name ≠ "" := by
    intro he
    have := FilePath.components_join dir hn
    rw [he] at this
    simp [show FilePath.components "" = [] by decide] at this
  unfold locate
  rw [FilePath.components_join dir hn, follow_append, hf, Option.bind_some, follow_name hd]
  cases FilePath.isUsable (FilePath.join dir name) <;> simp [hne]

/-! ## Creating directories -/

/-- As before, but for new directories. -/
def Grown (before after : FileTree) : Prop :=
  ∀ q, after.get? q = before.get? q ∨ (before.get? q = none ∧ after.get? q = some .directory)

namespace Grown

theorem refl (tree : FileTree) : Grown tree tree := fun _ => Or.inl rfl

theorem trans {a b c : FileTree} (hab : Grown a b) (hbc : Grown b c) : Grown a c := by
  intro q
  rcases hbc q with hc | ⟨hb, hc⟩
  · rw [hc]
    exact hab q
  · rcases hab q with ha | ⟨-, ha⟩
    · exact Or.inr ⟨ha ▸ hb, hc⟩
    · rw [hb] at ha
      cases ha

theorem keeps {a b : FileTree} (h : Grown a b) {e : FileEntry} (he : a.get? q = some e) : b.get? q = some e := by
  rcases h q with hq | ⟨hn, -⟩
  · rw [hq, he]
  · rw [he] at hn
    cases hn

theorem file {a b : FileTree} (h : Grown a b) {content : Content} (hb : b.get? q = some (.file content)) :
    a.get? q = some (.file content) := by
  rcases h q with hq | ⟨-, hd⟩
  · rw [← hq, hb]
  · rw [hb] at hd
    cases hd

end Grown

theorem grown_withDirectoryAt? (h : tree.withDirectoryAt? place = some next) :
    Grown tree next ∧ next.isDirectory place = true := by
  unfold withDirectoryAt? at h
  split at h
  · rename_i hd
    cases h
    exact ⟨Grown.refl tree, isDirectory_iff.mpr hd⟩
  · cases h
  · rename_i hn
    have hp : next.get? place = some .directory := by rw [get?_of_put? h, if_pos rfl]
    refine ⟨fun q => ?_, isDirectory_iff.mpr hp⟩
    by_cases hq : q = place
    · exact Or.inr ⟨hq ▸ hn, hq ▸ hp⟩
    · rw [get?_of_put? h, if_neg hq]
      exact Or.inl rfl

theorem createAlong_grown (tree : FileTree) (place : Place) (components : List PathComponent) :
    Grown tree (tree.createAlong place components).1 := by
  induction components generalizing tree place with
  | nil => exact Grown.refl tree
  | cons component rest ih =>
    unfold createAlong
    split
    · exact Grown.refl tree
    · rename_i below _
      split
      · rename_i made hm
        exact (grown_withDirectoryAt? hm).1.trans (ih made below)
      · exact Grown.refl tree

/-- One step of creating directories that succeeds. -/
theorem createAlong_cons {component : PathComponent} {rest : List PathComponent}
    (h : tree.createAlong place (component :: rest) = (next, true)) :
    ∃ below made, step? place component = some below ∧ tree.withDirectoryAt? below = some made ∧
      made.createAlong below rest = (next, true) := by
  unfold createAlong at h
  split at h
  · cases h
  · rename_i below hs
    split at h
    · rename_i made hm
      exact ⟨below, made, hs, hm, h⟩
    · cases h

/-- Where directories were created along a path, the path leads to a directory. -/
theorem follow_createAlong {components : List PathComponent} (hd : tree.isDirectory place = true)
    (h : tree.createAlong place components = (next, true)) :
    ∃ q, next.follow place components = some q ∧ next.isDirectory q = true := by
  induction components generalizing tree place with
  | nil =>
    cases h
    exact ⟨place, rfl, hd⟩
  | cons component rest ih =>
    have hg : Grown tree next := by
      have := createAlong_grown tree place (component :: rest)
      rwa [h] at this
    obtain ⟨below, made, hs, hm, hr⟩ := createAlong_cons h
    obtain ⟨q, hf, hq⟩ := ih (grown_withDirectoryAt? hm).2 hr
    refine ⟨q, ?_, hq⟩
    simp only [follow, isDirectory_iff.mpr (hg.keeps (isDirectory_iff.mp hd)), if_true, hs]
    exact hf

/-- Creating directories again does nothing, in every tree with the directories that there are now. -/
theorem createAlong_again {components : List PathComponent}
    (h : tree.createAlong place components = (next, true)) (hs : SameDirectories next other) :
    other.createAlong place components = (other, true) := by
  induction components generalizing tree place with
  | nil => rfl
  | cons component rest ih =>
    obtain ⟨below, made, hstep, hm, hr⟩ := createAlong_cons h
    have hg : Grown made next := by
      have := createAlong_grown made below rest
      rwa [hr] at this
    have hd : other.get? below = some .directory := by
      rw [← isDirectory_iff, ← hs below, isDirectory_iff]
      exact hg.keeps (isDirectory_iff.mp (grown_withDirectoryAt? hm).2)
    simp only [createAlong, hstep, withDirectoryAt?, hd]
    exact ih hr

/-- A path whose directories were created leads to a directory. -/
theorem locate_createDirectories {path : String} (hne : path ≠ "") (h : tree.createDirectories path = (next, true)) :
    ∃ q, next.locate path = some q ∧ next.isDirectory q = true := by
  unfold createDirectories at h
  split at h
  · rename_i hu
    obtain ⟨q, hf, hd⟩ := follow_createAlong rfl h
    refine ⟨q, ?_, hd⟩
    unfold locate
    rw [if_neg (by simp [hne, hu])]
    exact hf
  · cases h

theorem createDirectories_grown (tree : FileTree) (path : String) : Grown tree (tree.createDirectories path).1 := by
  unfold createDirectories
  split
  · exact createAlong_grown tree [] _
  · exact Grown.refl tree

theorem createDirectories_again {path : String} (h : tree.createDirectories path = (next, true))
    (hs : SameDirectories next other) : other.createDirectories path = (other, true) := by
  unfold createDirectories at h ⊢
  split at h
  · rename_i hu
    rw [if_pos hu]
    exact createAlong_again h hs
  · cases h

end FileTree

end BuilderSynthesis
