/-
  BuilderSynthesis.Proofs.Lookup — looking a struct up by a path that has been read.

  The text of a path holds its names with separators between them, and no name holds a colon or a
  blank. So the text falls apart into the names again (`segments_text`), and a struct that is found
  under it has the last one (`name_of_findType`).
-/

import BuilderSynthesis.Proofs.Reading
import BuilderSynthesis.Scan.SourceTree

namespace BuilderSynthesis

open Syntax

namespace Text

/-! ## Paths as text -/

theorem splitSegments_ne_nil (cs : List Char) : splitSegments cs ≠ [] := by
  unfold splitSegments
  split
  · exact List.cons_ne_nil _ _
  · split
    · exact List.cons_ne_nil _ _
    · exact List.cons_ne_nil _ _
  · exact List.cons_ne_nil _ _

theorem splitSegments_cons {c : Char} (h : c ≠ ':') (rest : List Char) :
    ∃ part parts, splitSegments rest = part :: parts ∧ splitSegments (c :: rest) = (c :: part) :: parts := by
  obtain ⟨part, parts, hs⟩ := List.exists_cons_of_ne_nil (splitSegments_ne_nil rest)
  refine ⟨part, parts, hs, ?_⟩
  rw [splitSegments]
  · rw [hs]
  · intro more hm
    exact absurd hm h

theorem splitSegments_of_no_colon {cs : List Char} (h : ∀ c ∈ cs, c ≠ ':') : splitSegments cs = [cs] := by
  induction cs with
  | nil => rfl
  | cons c rest ih =>
    obtain ⟨part, parts, hs, hc⟩ := splitSegments_cons (h c List.mem_cons_self) rest
    rw [ih fun d hd => h d (List.mem_cons_of_mem _ hd)] at hs
    cases hs
    exact hc

theorem splitSegments_append {cs : List Char} (h : ∀ c ∈ cs, c ≠ ':') (rest : List Char) :
    splitSegments (cs ++ ':' :: ':' :: rest) = cs :: splitSegments rest := by
  induction cs with
  | nil => rfl
  | cons c more ih =>
    obtain ⟨part, parts, hs, hc⟩ := splitSegments_cons (h c List.mem_cons_self) (more ++ ':' :: ':' :: rest)
    rw [ih fun d hd => h d (List.mem_cons_of_mem _ hd)] at hs
    cases hs
    exact hc

end Text

namespace Syntax

theorem IsName.ne_colon {name : String} (h : IsName name) : ∀ c ∈ name.toList, c ≠ ':' :=
  fun c hc => ne_colon_of_isNameChar (h.chars c hc)

theorem segments_intercalate {names : List String} (hne : names ≠ []) (h : ∀ name ∈ names, IsName name) :
    Text.segments ("::".intercalate names) = names := by
  unfold Text.segments
  induction names with
  | nil => exact absurd rfl hne
  | cons first rest ih =>
    have hfirst := (h first List.mem_cons_self).ne_colon
    cases rest with
    | nil => rw [String.intercalate_singleton, Text.splitSegments_of_no_colon hfirst, List.map_singleton, String.ofList_toList]
    | cons second others =>
      have hcolons : "::".toList = [':', ':'] := rfl
      rw [String.intercalate_cons_cons, String.toList_append, String.toList_append, List.append_assoc, hcolons,
        List.cons_append, List.cons_append, List.nil_append, Text.splitSegments_append hfirst, List.map_cons,
        ih (List.cons_ne_nil _ _) fun name hn => h name (List.mem_cons_of_mem _ hn), String.ofList_toList]

/-- The text of a path falls apart into its names, with nothing before a separator at its start. -/
theorem segments_text {path : PathExpr} (h : path.Named) :
    Text.segments path.text = (if path.leading then [""] else []) ++ path.names := by
  have hnames := segments_intercalate h.nonempty h.names
  unfold PathExpr.text
  cases path.leading with
  | false => simpa using hnames
  | true =>
    have hcolons : "::".toList = [':', ':'] := rfl
    unfold Text.segments at hnames ⊢
    rw [if_pos rfl, String.toList_append, hcolons, List.cons_append, List.cons_append, List.nil_append,
      Text.splitSegments, List.map_cons, hnames]
    rfl

theorem trimBlank_of_isName {name : String} (h : IsName name) : Text.trimBlank name = name := by
  have hdrop : ∀ cs : List Char, (∀ c ∈ cs, Text.isBlank c = false) → cs.dropWhile Text.isBlank = cs := by
    intro cs hcs
    cases cs with
    | nil => rfl
    | cons c rest => rw [List.dropWhile_cons_of_neg (by rw [hcs c List.mem_cons_self]; decide)]
  have hblank : ∀ c ∈ name.toList, Text.isBlank c = false := fun c hc => isBlank_of_isNameChar (h.chars c hc)
  unfold Text.trimBlank
  rw [hdrop _ hblank, hdrop _ fun c hc => hblank c (List.mem_reverse.mp hc), List.reverse_reverse, String.ofList_toList]

end Syntax

namespace SourceTree

/-! ## The first of the least -/

section

variable {α : Type} {measure : α → Nat} {as : List α} {a : α}

theorem firstLeast_eq_none_iff : firstLeast measure as = none ↔ as = [] := by
  cases as with
  | nil => exact iff_of_true rfl rfl
  | cons first rest =>
    refine iff_of_false ?_ (List.cons_ne_nil _ _)
    rw [firstLeast]
    split
    · exact Option.some_ne_none _
    · split
      · exact Option.some_ne_none _
      · exact Option.some_ne_none _

theorem exists_of_firstLeast (h : firstLeast measure as = some a) :
    ∃ before after, as = before ++ a :: after ∧ (∀ b ∈ before, measure a < measure b) ∧ ∀ b ∈ after, measure a ≤ measure b := by
  induction as generalizing a with
  | nil => cases h
  | cons first rest ih =>
    rw [firstLeast] at h
    cases hrest : firstLeast measure rest with
    | none =>
      rw [hrest] at h
      obtain rfl := firstLeast_eq_none_iff.mp hrest
      obtain rfl := Option.some.inj h
      exact ⟨[], [], rfl, fun b hb => absurd hb List.not_mem_nil, fun b hb => absurd hb List.not_mem_nil⟩
    | some least =>
      rw [hrest] at h
      obtain ⟨before, after, rfl, hbefore, hafter⟩ := ih hrest
      dsimp only at h
      split at h
      · rename_i hlt
        obtain rfl := Option.some.inj h
        exact ⟨first :: before, after, rfl, List.forall_mem_cons.mpr ⟨hlt, hbefore⟩, hafter⟩
      · rename_i hle
        obtain rfl := Option.some.inj h
        have hleast : measure first ≤ measure least := Nat.le_of_not_lt hle
        refine ⟨[], _, rfl, fun b hb => absurd hb List.not_mem_nil, fun b hb => ?_⟩
        rcases List.mem_append.mp hb with hb | hb
        · exact Nat.le_of_lt (Nat.lt_of_le_of_lt hleast (hbefore b hb))
        · rcases List.mem_cons.mp hb with rfl | hb
          · exact hleast
          · exact Nat.le_trans hleast (hafter b hb)

theorem mem_of_firstLeast (h : firstLeast measure as = some a) : a ∈ as := by
  obtain ⟨before, after, rfl, -⟩ := exists_of_firstLeast h
  exact List.mem_append_right _ List.mem_cons_self

/-- The first with the least measure: what comes before has a greater one, and what comes after has none
that is less. -/
theorem firstLeast_eq_some_iff : firstLeast measure as = some a ↔
    ∃ before after, as = before ++ a :: after ∧ (∀ b ∈ before, measure a < measure b) ∧ ∀ b ∈ after, measure a ≤ measure b := by
  refine ⟨exists_of_firstLeast, ?_⟩
  rintro ⟨before, after, rfl, hbefore, hafter⟩
  induction before with
  | nil =>
    rw [List.nil_append, firstLeast]
    split
    · rfl
    · rename_i b hb
      exact if_neg (Nat.not_lt_of_le (hafter b (mem_of_firstLeast hb)))
  | cons first rest ih =>
    obtain ⟨hfirst, hrest⟩ := List.forall_mem_cons.mp hbefore
    rw [List.cons_append, firstLeast, ih hrest]
    exact if_pos hfirst

end

/-! ## Looking up -/

/-- What is looked up is the last name. -/
theorem splitPath_text {path : PathExpr} (h : path.Named) :
    ∃ name qualifiers, path.last? = some name ∧ splitPath path.text = some (name, qualifiers) := by
  have hne : ∀ name ∈ path.names, name ≠ "" := by
    rintro name hn rfl
    exact (h.names "" hn).nonempty rfl
  have hkept : ((Text.segments path.text).map Text.trimBlank).filter (· != "") = path.names := by
    rw [segments_text h, List.map_append, List.filter_append,
      List.map_congr_left (f := Text.trimBlank) (g := id) fun name hn => trimBlank_of_isName (h.names name hn), List.map_id,
      List.filter_eq_self.mpr fun name hn => bne_iff_ne.mpr (hne name hn)]
    cases path.leading
    · rfl
    · rfl
  obtain ⟨name, hlast⟩ := Option.isSome_iff_exists.mp (List.getLast?_isSome.mpr h.nonempty)
  refine ⟨name, path.names.dropLast.filter (!anchors.contains ·), hlast, ?_⟩
  unfold splitPath
  simp only [hkept, hlast, Option.map_some]

theorem mem_types_of_findType_eq {tree : SourceTree} {path : String} {user : ModulePath} {t : DeclaredType}
    (h : tree.findType path user = some t) : t ∈ tree.types := by
  unfold findType at h
  split at h
  · cases h
  · exact (List.mem_filter.mp (mem_of_firstLeast h)).1

/-- A struct that is found under a path has its last name. -/
theorem name_of_findType {tree : SourceTree} {path : PathExpr} {user : ModulePath} {t : DeclaredType} (hp : path.Named)
    (h : tree.findType path.text user = some t) : path.last? = some t.name := by
  obtain ⟨name, qualifiers, hlast, hs⟩ := splitPath_text hp
  unfold findType at h
  rw [hs] at h
  have hm := (List.mem_filter.mp (mem_of_firstLeast h)).2
  rw [hlast, beq_iff_eq.mp (Bool.and_eq_true_iff.mp hm).1]

end SourceTree

end BuilderSynthesis
