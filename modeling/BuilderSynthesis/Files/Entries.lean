/-
  BuilderSynthesis.Files.Entries — what lies at places, as a list.

  The entries of a tree are well formed: no two lie at one place, and each has a proper name in a
  directory that is an entry itself. Putting, erasing and erasing below a place keep them so, as
  long as no directory is put over or erased alone.
-/

import BuilderSynthesis.Files.Path

namespace BuilderSynthesis

inductive Content where
  | text (text : String)
  /-- Bytes that are no text. -/
  | bytes (bytes : List UInt8)
  deriving DecidableEq

/-- Bytes as the text that they encode, if they do. -/
def Content.ofBytes (bytes : List UInt8) : Content :=
  match String.fromUTF8? ⟨bytes.toArray⟩ with
  | some decoded => .text decoded
  | none => .bytes bytes

inductive FileEntry where
  | directory
  | file (content : Content)
  deriving DecidableEq

/-- Where something is: the names that lead to it from the working directory. -/
abbrev Place := List String

/-- Something in a tree. How deep it lies is kept with its place, so that places of different depth
are told apart at once. -/
structure Located where
  place : Place
  entry : FileEntry
  depth : Nat := place.length
  depth_eq : depth = place.length := by rfl

namespace Located

/-- Lies at a place of the given depth. -/
def isAt (l : Located) (depth : Nat) (place : Place) : Bool := l.depth == depth && l.place == place

theorem isAt_iff (l : Located) (place : Place) : l.isAt place.length place = true ↔ l.place = place := by
  constructor
  · intro h
    exact eq_of_beq (Bool.and_eq_true_iff.mp h).2
  · rintro rfl
    simp [isAt, l.depth_eq]

end Located

namespace Entries

/-- What lies at a place. The working directory is no entry and always there. -/
def get? (entries : List Located) (place : Place) : Option FileEntry :=
  let depth := place.length
  if place.isEmpty then some .directory
  else (entries.find? fun l => l.isAt depth place).map Located.entry

/-- Puts an entry at a place, keeping the order of the others. -/
def put (entries : List Located) (place : Place) (entry : FileEntry) : List Located :=
  match entries with
  | [] => [{ place := place, entry := entry }]
  | old :: rest =>
    if old.isAt place.length place then { place := place, entry := entry } :: rest
    else old :: put rest place entry

def erase (entries : List Located) (place : Place) : List Located :=
  let depth := place.length
  entries.filter fun old => !old.isAt depth place

/-- Without a place and everything below it. -/
def eraseBelow (entries : List Located) (place : Place) : List Located :=
  entries.filter fun old => !place.isPrefixOf old.place

structure WellFormed (entries : List Located) : Prop where
  distinct : (entries.map Located.place).Nodup
  named : ∀ found ∈ entries, found.place.getLast?.any FilePath.isName = true
  inside : ∀ found ∈ entries, get? entries found.place.dropLast = some .directory

variable {entries : List Located} {place q : Place} {entry e : FileEntry}

/-! ## Looking up -/

theorem get?_nil (h : q ≠ []) : get? [] q = none := by
  unfold get?
  rw [if_neg (by simpa using h)]
  rfl

theorem get?_cons_self (first : Located) (rest : List Located) (h : first.place ≠ []) :
    get? (first :: rest) first.place = some first.entry := by
  unfold get?
  rw [if_neg (by simpa using h)]
  simp [(first.isAt_iff first.place).mpr rfl]

theorem get?_cons_of_ne (first : Located) (rest : List Located) (h : first.place ≠ q) :
    get? (first :: rest) q = get? rest q := by
  unfold get?
  have hf : first.isAt q.length q = false := by
    rw [← Bool.not_eq_true, first.isAt_iff]
    exact h
  simp [hf]

theorem exists_of_get? (h : q ≠ []) (he : get? entries q = some e) :
    ∃ found ∈ entries, found.place = q ∧ found.entry = e := by
  induction entries with
  | nil => rw [get?_nil h] at he; cases he
  | cons first rest ih =>
    by_cases hf : first.place = q
    · subst hf
      rw [get?_cons_self first rest h] at he
      exact ⟨first, List.mem_cons_self, rfl, Option.some.inj he⟩
    · rw [get?_cons_of_ne first rest hf] at he
      obtain ⟨found, hm, hp⟩ := ih he
      exact ⟨found, List.mem_cons_of_mem first hm, hp⟩

theorem get?_of_mem (hd : (entries.map Located.place).Nodup) {found : Located} (hm : found ∈ entries)
    (h : found.place ≠ []) : get? entries found.place = some found.entry := by
  induction entries with
  | nil => cases hm
  | cons first rest ih =>
    rw [List.map_cons, List.nodup_cons] at hd
    rcases List.mem_cons.mp hm with rfl | hm
    · exact get?_cons_self found rest h
    · rw [get?_cons_of_ne first rest fun he => hd.1 (he ▸ List.mem_map_of_mem hm)]
      exact ih hd.2 hm

theorem mem_places_iff (h : q ≠ []) (hd : (entries.map Located.place).Nodup) :
    q ∈ entries.map Located.place ↔ ∃ e, get? entries q = some e := by
  constructor
  · intro hm
    obtain ⟨found, hf, rfl⟩ := List.mem_map.mp hm
    exact ⟨found.entry, get?_of_mem hd hf h⟩
  · rintro ⟨e, he⟩
    obtain ⟨found, hf, hp, -⟩ := exists_of_get? h he
    exact hp ▸ List.mem_map_of_mem hf

/-! ## Putting -/

theorem get?_put_self (entries : List Located) (entry : FileEntry) (h : place ≠ []) :
    get? (put entries place entry) place = some entry := by
  induction entries with
  | nil => exact get?_cons_self { place, entry } [] h
  | cons first rest ih =>
    unfold put
    split
    · exact get?_cons_self { place, entry } rest h
    · rename_i hf
      rw [get?_cons_of_ne first _ fun he => hf ((first.isAt_iff place).mpr he)]
      exact ih

theorem get?_put_of_ne (entries : List Located) (entry : FileEntry) (h : q ≠ place) :
    get? (put entries place entry) q = get? entries q := by
  induction entries with
  | nil => exact get?_cons_of_ne { place, entry } [] (Ne.symm h)
  | cons first rest ih =>
    unfold put
    split
    · rename_i hf
      have hp := (first.isAt_iff place).mp hf
      rw [get?_cons_of_ne { place, entry } rest (Ne.symm h), get?_cons_of_ne first rest (hp ▸ Ne.symm h)]
    · by_cases hf : first.place = q
      · by_cases hq : q = []
        · rw [hq]; rfl
        · subst hf
          rw [get?_cons_self first _ hq, get?_cons_self first _ hq]
      · rw [get?_cons_of_ne first _ hf, get?_cons_of_ne first _ hf]
        exact ih

/-- Putting names no place but the new one, and that only if it was not there. -/
theorem places_put (entries : List Located) (place : Place) (entry : FileEntry) :
    (put entries place entry).map Located.place =
      if place ∈ entries.map Located.place then entries.map Located.place
      else entries.map Located.place ++ [place] := by
  induction entries with
  | nil => rfl
  | cons first rest ih =>
    unfold put
    split
    · rename_i hf
      have hp := (first.isAt_iff place).mp hf
      rw [List.map_cons, List.map_cons, ← hp, if_pos List.mem_cons_self]
    · rename_i hf
      have hp : place ≠ first.place := fun he => hf ((first.isAt_iff place).mpr he.symm)
      rw [List.map_cons, List.map_cons, ih]
      by_cases hm : place ∈ rest.map Located.place
      · rw [if_pos hm, if_pos (List.mem_cons_of_mem _ hm)]
      · rw [if_neg hm, if_neg (by simp only [List.mem_cons, not_or]; exact ⟨hp, hm⟩)]
        rfl

/-! ## Erasing -/

theorem get?_filter (keep : Located → Bool) (hk : ∀ found ∈ entries, found.place = q → keep found = true) :
    get? (entries.filter keep) q = get? entries q := by
  by_cases hq : q = []
  · rw [hq]; rfl
  induction entries with
  | nil => rfl
  | cons first rest ih =>
    have hr := ih fun found hm => hk found (List.mem_cons_of_mem first hm)
    by_cases hf : first.place = q
    · rw [List.filter_cons_of_pos (hk first List.mem_cons_self hf)]
      subst hf
      rw [get?_cons_self first _ hq, get?_cons_self first _ hq]
    · rw [get?_cons_of_ne first rest hf, ← hr, List.filter_cons]
      split
      · exact get?_cons_of_ne first _ hf
      · rfl

theorem get?_erase_self (entries : List Located) (h : place ≠ []) : get? (erase entries place) place = none := by
  match he : get? (erase entries place) place with
  | none => rfl
  | some e =>
    obtain ⟨found, hm, hp, -⟩ := exists_of_get? h he
    have hf := (List.mem_filter.mp hm).2
    simp [(found.isAt_iff place).mpr hp] at hf

theorem get?_erase_of_ne (entries : List Located) (h : q ≠ place) : get? (erase entries place) q = get? entries q := by
  refine get?_filter _ fun found _ hp => ?_
  have : found.isAt place.length place = false := by
    rw [← Bool.not_eq_true, found.isAt_iff, hp]
    exact h
  simp [this]

theorem get?_eraseBelow (entries : List Located) (h : ¬ place <+: q) :
    get? (eraseBelow entries place) q = get? entries q := by
  refine get?_filter _ fun found _ hp => ?_
  rw [hp, Bool.not_eq_true', ← Bool.not_eq_true, List.isPrefixOf_iff_prefix]
  exact h

/-! ## Staying well formed -/

namespace WellFormed

theorem place_ne_nil (h : WellFormed entries) {found : Located} (hm : found ∈ entries) : found.place ≠ [] := by
  intro hp
  have := h.named found hm
  rw [hp] at this
  cases this

theorem empty : WellFormed [] := ⟨List.nodup_nil, by simp, by simp⟩

theorem put (h : WellFormed entries) (entry : FileEntry) (hn : place.getLast?.any FilePath.isName = true)
    (hi : get? entries place.dropLast = some .directory) (hd : get? entries place ≠ some .directory) :
    WellFormed (put entries place entry) := by
  have hne : place ≠ [] := by
    rintro rfl
    cases hn
  have hdir : ∀ q, get? entries q = some .directory → get? (Entries.put entries place entry) q = some .directory := by
    intro q hq
    have hne : q ≠ place := by
      rintro rfl
      exact hd hq
    rw [get?_put_of_ne entries entry hne]
    exact hq
  have hplaces : ∀ found ∈ Entries.put entries place entry, found.place = place ∨ ∃ old ∈ entries, old.place = found.place := by
    intro found hm
    have hp := List.mem_map_of_mem (f := Located.place) hm
    rw [places_put] at hp
    split at hp
    · exact Or.inr (List.mem_map.mp hp)
    · rcases List.mem_append.mp hp with hp | hp
      · exact Or.inr (List.mem_map.mp hp)
      · exact Or.inl (List.mem_singleton.mp hp)
  refine ⟨?_, fun found hm => ?_, fun found hm => ?_⟩
  · rw [places_put]
    split
    · exact h.distinct
    · rename_i hp
      refine List.nodup_append.mpr ⟨h.distinct, List.nodup_cons.mpr ⟨List.not_mem_nil, List.nodup_nil⟩, ?_⟩
      intro a ha b hb he
      exact hp (List.mem_singleton.mp hb ▸ he ▸ ha)
  · rcases hplaces found hm with hp | ⟨old, ho, hp⟩
    · exact hp ▸ hn
    · exact hp ▸ h.named old ho
  · rcases hplaces found hm with hp | ⟨old, ho, hp⟩
    · exact hdir _ (hp ▸ hi)
    · exact hdir _ (hp ▸ h.inside old ho)

theorem erase (h : WellFormed entries) (hd : get? entries place ≠ some .directory) : WellFormed (erase entries place) where
  distinct := h.distinct.sublist (List.filter_sublist.map _)
  named found hm := h.named found (List.mem_filter.mp hm).1
  inside found hm := by
    have hi := h.inside found (List.mem_filter.mp hm).1
    have hne : found.place.dropLast ≠ place := fun he => hd (he ▸ hi)
    rw [get?_erase_of_ne entries hne]
    exact hi

theorem eraseBelow (h : WellFormed entries) (place : Place) : WellFormed (eraseBelow entries place) where
  distinct := h.distinct.sublist (List.filter_sublist.map _)
  named found hm := h.named found (List.mem_filter.mp hm).1
  inside found hm := by
    obtain ⟨hm, hk⟩ := List.mem_filter.mp hm
    have hb : ¬ place <+: found.place.dropLast := by
      intro hp
      have := hp.trans (List.dropLast_prefix found.place)
      simp [List.isPrefixOf_iff_prefix.mpr this] at hk
    rw [get?_eraseBelow entries hb]
    exact h.inside found hm

end WellFormed

end Entries

end BuilderSynthesis
