/-
  BuilderSynthesis.Proofs.CopiedSlots — what the slots of a builder start with when it is made from a finished value.

  A conversion gives values to the slots of the fields that can be read back, those behind methods before those that
  are moved out, and takes the others from a new builder (`Conversion`, `Pieces.Assigns`). Where every field is read
  back nothing is left to take, and the marker of a generic builder is given its value as well.

  Each slot and the marker then get one value, but where a field of a generic struct is named like the marker and all
  fields are read back: that name is given two (`copy_gives_every_slot_one_value`,
  `a_field_named_like_the_marker_gets_two_values`).
-/

import BuilderSynthesis.Builder.Code
import BuilderSynthesis.Proofs.PlannedCalls

namespace BuilderSynthesis

open Syntax Fragment

/-! ## Conversions -/

/-- A new builder, or a struct expression that gives values to names and may take the others from a new builder. -/
inductive Conversion where
  | fresh
  | written (given : List (String × Code)) (others : Bool)

namespace Conversion

def given : Conversion → List (String × Code)
  | fresh => []
  | written given _ => given

def takesOthers : Conversion → Bool
  | fresh => true
  | written _ others => others

def freshCode : Code := words ["Self"] ++ Token.symbol "::" ++ words ["new"] ++ parens []

def entryCode (entry : String × Code) : Code := words [entry.1] ++ Token.symbol ":" ++ entry.2 ++ comma

def code : Conversion → Code
  | fresh => freshCode
  | written given others =>
    words ["Self"] ++ braces (given.flatMap entryCode ++ if others then Token.symbol ".." ++ freshCode else [])

/-- How many values a name gets: those that are given to it, or otherwise the one that a new builder holds for it.
Names are the same if they have the same key. -/
def values {K : Type} [DecidableEq K] (c : Conversion) (held : List String) (key : String → K) (name : String) : Nat :=
  let explicit := (c.given.map fun entry => key entry.1).count (key name)
  if explicit = 0 ∧ c.takesOthers = true ∧ key name ∈ held.map key then 1 else explicit

end Conversion

/-- How the value of a slot is read from a finished value. -/
inductive Slot.ReadsFrom (s : Slot) : Code → Prop where
  | getter {method name : String} (hcopy : s.planned.copy = some (.getter method))
      (hname : readIdentifier method = .ok name) : ReadsFrom s (member (words ["source"]) name ++ parens [])
  | field (hcopy : s.planned.copy = some .field) : ReadsFrom s (member (words ["source"]) s.name)

/-- A slot is given its own value, wrapped unless it may be absent. -/
structure Slot.Assigned (s : Slot) (entry : String × Code) : Prop where
  name : entry.1 = s.name
  value : ∃ read, s.ReadsFrom read ∧ entry.2 = if s.planned.descriptor.nullable then read else present read

namespace Pieces

open Conversion

variable {p : Pieces} {c : Conversion}

/-- What is given to the marker. -/
def markerEntry (p : Pieces) : List (String × Code) := if p.isGeneric then [(markerName, phantom)] else []

/-- What a new builder is made of. -/
def started (p : Pieces) : Conversion :=
  .written (p.slots.map (fun s => (s.name, s.initialValue)) ++ p.markerEntry) false

/-- The names that every builder has values for. -/
def held (p : Pieces) : List String := p.started.given.map Prod.fst

/-- Methods are called before the first field is moved out. What is not read back comes from a new builder. -/
structure Assigns (p : Pieces) (c : Conversion) : Prop where
  given : ∃ entries, List.Forall₂ Slot.Assigned
      (p.slots.filter (·.planned.isRead) ++ p.slots.filter (·.planned.isMoved)) entries ∧
    c.given = entries ++ if c.takesOthers then [] else p.markerEntry
  takesOthers : c.takesOthers = true ↔ p.slots = [] ∨ ∃ s ∈ p.slots, s.planned.copy = none

/-- A generic builder has a slot with the name of its marker, and all of its slots are read back. -/
def MarksTwice {K : Type} (p : Pieces) (key : String → K) : Prop :=
  p.isGeneric ∧ (∀ s ∈ p.slots, s.planned.copy ≠ none) ∧ ∃ s ∈ p.slots, key s.name = key markerName

/-- The block of functions that makes a builder from a finished value. -/
def fromBlock (p : Pieces) (source : String) (body : Code) : Code :=
  allow ++ p.block
    (globalPath ["core", "convert", "From"] ++ angled p.targetType ++ words ["for"] ++ p.builderType)
    (words ["fn", "from"] ++ parens (words [source] ++ Token.symbol ":" ++ p.targetType) ++ Token.symbol "->" ++
      words ["Self"] ++ braces body)

/-! ## What is written -/

theorem markerValue_eq (p : Pieces) : p.markerValue = p.markerEntry.flatMap entryCode := by
  unfold markerValue markerEntry
  split
  · rw [List.flatMap_singleton]
    rfl
  · rfl

/-- A new builder has the values of all its names. -/
theorem exists_start (p : Pieces) (plan : BuilderPlan) : ∃ before, p.start plan = before ++ braces p.started.code := by
  have hgiven : p.started.code =
      words ["Self"] ++ braces (p.slots.flatMap (fun s => s.initialized s.initialValue) ++ p.markerValue) := by
    rw [started, Conversion.code, if_neg Bool.false_ne_true, List.append_nil, List.flatMap_append, List.flatMap_map,
      markerValue_eq]
    rfl
  rw [hgiven]
  exact ⟨_, rfl⟩

theorem planned_of_slot {f : PlannedField} {s : Slot} (h : slot f = .ok s) : s.planned = f := by
  obtain ⟨name, -, h⟩ := exists_of_bind h
  obtain ⟨value, -, h⟩ := exists_of_bind h
  obtain ⟨held, -, h⟩ := exists_of_bind h
  obtain ⟨default, -, h⟩ := exists_of_bind h
  cases h
  rfl

/-- The slots that are read back, in the order in which they are given their values. -/
theorem perm_copied (slots : List Slot) :
    (slots.filter (·.planned.isRead) ++ slots.filter (·.planned.isMoved)).Perm
      (slots.filter (·.planned.copy.isSome)) := by
  have hread : (slots.filter (·.planned.copy.isSome)).filter (·.planned.isRead) = slots.filter (·.planned.isRead) := by
    rw [List.filter_filter]
    refine List.filter_congr fun s _ => ?_
    unfold PlannedField.isRead
    rcases s.planned.copy with _ | _ | _ <;> rfl
  have hmoved :
      (slots.filter (·.planned.copy.isSome)).filter (!·.planned.isRead) = slots.filter (·.planned.isMoved) := by
    rw [List.filter_filter]
    refine List.filter_congr fun s _ => ?_
    unfold PlannedField.isRead PlannedField.isMoved
    rcases s.planned.copy with _ | _ | _ <;> rfl
  rw [← hread, ← hmoved]
  exact List.filter_append_perm _ _

theorem copy_ne_none {slots : List Slot} {s : Slot}
    (hs : s ∈ slots.filter (·.planned.isRead) ++ slots.filter (·.planned.isMoved)) : s.planned.copy ≠ none :=
  Option.isSome_iff_ne_none.mp (List.mem_filter.mp ((perm_copied slots).mem_iff.mp hs)).2

theorem length_copied_lt_iff (slots : List Slot) :
    (slots.filter (·.planned.isRead) ++ slots.filter (·.planned.isMoved)).length < slots.length ↔
      ∃ s ∈ slots, s.planned.copy = none := by
  rw [(perm_copied slots).length_eq, List.length_filter_lt_length_iff_exists]
  simp

theorem assigned_of_copied {s : Slot} {code : Code} (hs : s.planned.copy ≠ none) (h : copied s = .ok code) :
    ∃ entry, s.Assigned entry ∧ code = entryCode entry := by
  unfold copied at h
  split at h
  · rename_i method hcopy
    obtain ⟨name, hname, h⟩ := exists_of_bind h
    cases h
    exact ⟨(s.name, _), ⟨rfl, _, .getter hcopy (readPart_eq_ok.mp hname), rfl⟩, rfl⟩
  · rename_i hother
    cases h
    have hcopy : s.planned.copy = some .field := by
      rcases hcopy : s.planned.copy with _ | _ | method
      · exact absurd hcopy hs
      · rfl
      · exact absurd hcopy (hother method)
    exact ⟨(s.name, _), ⟨rfl, _, .field hcopy, rfl⟩, rfl⟩

theorem exists_entries {slots : List Slot} {codes : List Code} (hslots : ∀ s ∈ slots, s.planned.copy ≠ none)
    (h : List.Forall₂ (fun s code => copied s = .ok code) slots codes) :
    ∃ entries, List.Forall₂ Slot.Assigned slots entries ∧ codes.flatten = entries.flatMap entryCode := by
  induction h with
  | nil => exact ⟨[], .nil, rfl⟩
  | cons hcode _ ih =>
    obtain ⟨entry, hentry, rfl⟩ := assigned_of_copied (hslots _ List.mem_cons_self) hcode
    obtain ⟨entries, hentries, hflatten⟩ := ih fun s hs => hslots s (List.mem_cons_of_mem _ hs)
    refine ⟨entry :: entries, .cons hentry hentries, ?_⟩
    rw [List.flatten_cons, List.flatMap_cons, hflatten]

theorem exists_conversion {source : String} {body : Code} (h : p.copyBody = .ok (source, body)) :
    ∃ c : Conversion, body = c.code ∧ (c.given ≠ [] → source = "source") ∧ p.Assigns c := by
  have hperm := perm_copied p.slots
  unfold copyBody at h
  dsimp only at h
  split at h
  · rename_i hempty
    cases h
    obtain ⟨hreads, hmoves⟩ := Bool.and_eq_true_iff.mp hempty
    rw [List.isEmpty_iff] at hreads hmoves
    refine ⟨.fresh, rfl, fun hne => absurd rfl hne, ⟨[], ?_, rfl⟩, iff_of_true rfl ?_⟩
    · rw [hreads, hmoves]
      exact .nil
    · rw [hreads, hmoves] at hperm
      have hnone := List.filter_eq_nil_iff.mp (List.nil_perm.mp hperm)
      cases hslots : p.slots with
      | nil => exact .inl rfl
      | cons s rest =>
        rw [hslots] at hnone
        exact .inr ⟨s, List.mem_cons_self, Option.not_isSome_iff_eq_none.mp (hnone s List.mem_cons_self)⟩
  · rename_i hempty
    obtain ⟨codes, hcodes, h⟩ := exists_of_bind h
    cases h
    obtain ⟨entries, hentries, hflatten⟩ := exists_entries (fun s hs => copy_ne_none hs) (forall₂_of_mapM hcodes)
    have hlength := length_copied_lt_iff p.slots
    by_cases hothers : (p.slots.filter (·.planned.isRead) ++ p.slots.filter (·.planned.isMoved)).length < p.slots.length
    · refine ⟨.written entries true, ?_, fun _ => rfl, ⟨entries, hentries, (List.append_nil _).symm⟩,
        iff_of_true rfl (.inr (hlength.mp hothers))⟩
      rw [if_pos hothers, hflatten]
      rfl
    · refine ⟨.written (entries ++ p.markerEntry) false, ?_, fun _ => rfl, ⟨entries, hentries, rfl⟩,
        iff_of_false Bool.false_ne_true ?_⟩
      · rw [if_neg hothers, hflatten, markerValue_eq, ← List.flatMap_append, Conversion.code, if_neg Bool.false_ne_true,
          List.append_nil]
      · rintro (hnil | hnone)
        · rw [hnil] at hempty
          exact hempty rfl
        · exact hothers (hlength.mpr hnone)

theorem exists_fromBlock {copying : Code} (h : p.copyBlock = .ok copying) :
    ∃ source c, copying = p.fromBlock source (Conversion.code c) ∧ (c.given ≠ [] → source = "source") ∧
      p.Assigns c := by
  obtain ⟨⟨source, body⟩, hbody, h⟩ := exists_of_bind h
  obtain ⟨c, rfl, hsource, hassigns⟩ := exists_conversion hbody
  cases h
  exact ⟨source, c, rfl, hsource, hassigns⟩

/-! ## How many values -/

variable {K : Type} {key : String → K}

theorem given_keys (h : p.Assigns c) (key : String → K) : (c.given.map fun entry => key entry.1).Perm
    ((p.slots.filter (·.planned.copy.isSome)).map (fun s => key s.name) ++
      if c.takesOthers then [] else p.markerEntry.map fun entry => key entry.1) := by
  obtain ⟨⟨entries, hentries, hgiven⟩, -⟩ := h
  have hnames : ∀ {slots : List Slot} {entries : List (String × Code)}, List.Forall₂ Slot.Assigned slots entries →
      (entries.map fun entry => key entry.1) = slots.map fun s => key s.name := by
    intro slots entries hentries
    induction hentries with
    | nil => rfl
    | cons hentry _ ih => rw [List.map_cons, List.map_cons, ih, hentry.name]
  rw [hgiven, List.map_append, hnames hentries]
  refine ((perm_copied p.slots).map _).append ?_
  split <;> rfl

variable [DecidableEq K]

/-- A name is given one value at most by the fields that are read back. -/
theorem count_copied (hnodup : (p.slots.map fun s => key s.name).Nodup) (k : K) :
    ((p.slots.filter (·.planned.copy.isSome)).map fun s => key s.name).count k =
      if ∃ s ∈ p.slots, s.planned.copy ≠ none ∧ key s.name = k then 1 else 0 := by
  have hsublist : (p.slots.filter (·.planned.copy.isSome)).Sublist p.slots := List.filter_sublist
  have hcopied := hnodup.sublist (hsublist.map fun s => key s.name)
  split
  · rename_i hs
    obtain ⟨s, hs, hcopy, rfl⟩ := hs
    refine List.count_eq_one_of_mem hcopied (List.mem_map.mpr ⟨s, List.mem_filter.mpr ⟨hs, ?_⟩, rfl⟩)
    exact Option.isSome_iff_ne_none.mpr hcopy
  · rename_i hnone
    refine List.count_eq_zero.mpr fun hk => hnone ?_
    obtain ⟨s, hs, rfl⟩ := List.mem_map.mp hk
    obtain ⟨hs, hcopy⟩ := List.mem_filter.mp hs
    exact ⟨s, hs, Option.isSome_iff_ne_none.mp hcopy, rfl⟩

/-- What is given to a name. -/
theorem count_given (h : p.Assigns c) (hnodup : (p.slots.map fun s => key s.name).Nodup) (k : K) :
    (c.given.map fun entry => key entry.1).count k =
      (if ∃ s ∈ p.slots, s.planned.copy ≠ none ∧ key s.name = k then 1 else 0) +
        if c.takesOthers = false ∧ p.isGeneric ∧ key markerName = k then 1 else 0 := by
  rw [(given_keys h key).count_eq, List.count_append, count_copied hnodup]
  congr 1
  cases c.takesOthers with
  | true => rfl
  | false =>
    unfold markerEntry
    cases p.isGeneric with
    | false => rfl
    | true => simp [List.count_singleton]

theorem mem_held_of_slot {s : Slot} (hs : s ∈ p.slots) : s.name ∈ p.held :=
  List.mem_map.mpr ⟨(s.name, s.initialValue), List.mem_append_left _ (List.mem_map_of_mem hs), rfl⟩

theorem mem_held_of_generic (h : p.isGeneric = true) : markerName ∈ p.held := by
  refine List.mem_map.mpr ⟨(markerName, phantom), List.mem_append_right _ ?_, rfl⟩
  rw [markerEntry, if_pos h]
  exact List.mem_singleton_self _

theorem Assigns.copied (h : p.Assigns c) (hothers : c.takesOthers = false) : ∀ s ∈ p.slots, s.planned.copy ≠ none := by
  intro s hs hnone
  rw [h.takesOthers.mpr (.inr ⟨s, hs, hnone⟩)] at hothers
  cases hothers

/-- A name that a new builder has a value for gets one where the others are taken from there. -/
theorem values_of_takesOthers {name : String} (h : p.Assigns c) (hnodup : (p.slots.map fun s => key s.name).Nodup)
    (hothers : c.takesOthers = true) (hname : name ∈ p.held) : c.values p.held key name = 1 := by
  have hcount := count_given h hnodup (key name)
  rw [hothers] at hcount
  have hheld : key name ∈ p.held.map key := List.mem_map_of_mem hname
  unfold Conversion.values
  split at hcount <;> simp_all

theorem values_of_all {name : String} (h : p.Assigns c) (hnodup : (p.slots.map fun s => key s.name).Nodup)
    (hothers : c.takesOthers = false) : c.values p.held key name =
      (if ∃ s ∈ p.slots, key s.name = key name then 1 else 0) +
        if p.isGeneric = true ∧ key markerName = key name then 1 else 0 := by
  have hcount := count_given h hnodup (key name)
  have hsame : (∃ s ∈ p.slots, s.planned.copy ≠ none ∧ key s.name = key name) ↔ ∃ s ∈ p.slots, key s.name = key name :=
    ⟨fun ⟨s, hs, _, hk⟩ => ⟨s, hs, hk⟩, fun ⟨s, hs, hk⟩ => ⟨s, hs, h.copied hothers s hs, hk⟩⟩
  simp only [hsame, hothers, true_and] at hcount
  rw [Conversion.values, hothers, hcount]
  simp

theorem values_eq_one_iff (h : p.Assigns c) (hnodup : (p.slots.map fun s => key s.name).Nodup) :
    ((∀ s ∈ p.slots, c.values p.held key s.name = 1) ∧ (p.isGeneric → c.values p.held key markerName = 1)) ↔
      ¬ p.MarksTwice key := by
  cases hothers : c.takesOthers with
  | true =>
    refine iff_of_true ⟨fun s hs => ?_, fun hgeneric => ?_⟩ ?_
    · exact values_of_takesOthers h hnodup hothers (mem_held_of_slot hs)
    · exact values_of_takesOthers h hnodup hothers (mem_held_of_generic hgeneric)
    · rintro ⟨-, hcopied, s, hs, -⟩
      rcases h.takesOthers.mp hothers with hnil | ⟨other, hother, hnone⟩
      · rw [hnil] at hs
        cases hs
      · exact hcopied other hother hnone
  | false =>
    simp only [values_of_all h hnodup hothers]
    constructor
    · rintro ⟨-, hmarker⟩ ⟨hgeneric, -, hs⟩
      have htwo := hmarker hgeneric
      rw [if_pos hs, if_pos ⟨hgeneric, trivial⟩] at htwo
      cases htwo
    · intro honce
      refine ⟨fun s hs => ?_, fun hgeneric => ?_⟩
      · have hother : ¬ (p.isGeneric = true ∧ key markerName = key s.name) := fun ⟨hgeneric, hk⟩ =>
          honce ⟨hgeneric, h.copied hothers, s, hs, hk.symm⟩
        rw [if_pos ⟨s, hs, rfl⟩, if_neg hother]
      · have hother : ¬ ∃ s ∈ p.slots, key s.name = key markerName := fun hs => honce ⟨hgeneric, h.copied hothers, hs⟩
        rw [if_neg hother, if_pos ⟨hgeneric, trivial⟩]

end Pieces

/-- The code of a builder has one conversion from a finished value. Each slot has one value after it, and so has the
marker, exactly if the marker is not given a second one by a slot of its name. -/
theorem copy_gives_every_slot_one_value {plan : BuilderPlan} {code : Code} (h : plan.code = .ok code) :
    ∃ p source c, Pieces.ofPlan plan = .ok p ∧
      List.Forall₂ (fun f s => s.planned = f ∧ readIdentifier f.name = .ok s.name) plan.fields p.slots ∧
      p.fromBlock source (Conversion.code c) <:+: code ∧ (c.given ≠ [] → source = "source") ∧ p.Assigns c ∧
      (∃ before, p.start plan = before ++ braces p.started.code) ∧
      ∀ (K : Type) [DecidableEq K] (key : String → K), (p.slots.map fun s => key s.name).Nodup →
        ((∀ s ∈ p.slots, c.values p.held key s.name = 1) ∧
          (p.isGeneric → c.values p.held key Pieces.markerName = 1) ↔ ¬ p.MarksTwice key) := by
  obtain ⟨p, hp, h⟩ := exists_of_bind h
  obtain ⟨constructed, -, h⟩ := exists_of_bind h
  obtain ⟨copying, hcopying, h⟩ := exists_of_bind h
  obtain ⟨source, c, rfl, hsource, hassigns⟩ := Pieces.exists_fromBlock hcopying
  cases h
  refine ⟨p, source, c, hp, ?_, ?_, hsource, hassigns, p.exists_start plan, fun K _ key hnodup =>
    Pieces.values_eq_one_iff hassigns hnodup⟩
  · exact (Pieces.made_of_ofPlan hp).imp fun f s hs => ⟨Pieces.planned_of_slot hs, Pieces.name_of_slot hs⟩
  · exact ⟨_, _, rfl⟩

/-! ## A wrapper -/

def wrapField (name type : String) (copy : Option AccessorKind) : PlannedField :=
  ⟨name, .plain (.named type) [], none, true, copy⟩

/-- A generic struct with some fields. -/
def wrapPlan (fields : List PlannedField) : BuilderPlan where
  unit := "WrapBuilder"
  target := ⟨"Wrap", "Wrap", some "<T>", none⟩
  visibility := .everywhere
  fields
  construction := .literal
  entryPoint := false
  module := .crateRoot 0
  location := ⟨"lib.rs", 1, 1⟩

/-- One that is moved out, one that is read and one that stays as it is in a new builder. -/
def wrapFields : List PlannedField :=
  [wrapField "held" "T" (some .field), wrapField "count" "Count" (some (.getter "counted")),
    wrapField "note" "Note" none]

/-- A field named like the marker. -/
def markerFields : List PlannedField := [wrapField "__buildergen_target" "T" (some .field)]

/-- The slots of a plan by name and by how they are read back, and whether its builder is generic. -/
def slotsOf (plan : BuilderPlan) : Option (List (String × Option AccessorKind) × Bool) :=
  (Pieces.ofPlan plan).toOption.map fun p => (p.slots.map fun s => (s.name, s.planned.copy), p.isGeneric)

theorem slots_eq_of_slotsOf {plan : BuilderPlan} {p : Pieces} {slots : List (String × Option AccessorKind)}
    {generic : Bool} (h : slotsOf plan = some (slots, generic)) (hp : Pieces.ofPlan plan = .ok p) :
    (p.slots.map fun s => (s.name, s.planned.copy)) = slots ∧ p.isGeneric = generic := by
  rw [slotsOf, hp] at h
  exact Prod.mk.inj (Option.some.inj h)

theorem exists_code {plan : BuilderPlan} (h : plan.code.toOption.isSome = true) : ∃ code, plan.code = .ok code := by
  cases hcode : plan.code with
  | ok code => exact ⟨code, rfl⟩
  | error e =>
    rw [hcode] at h
    cases h

/-- Each slot of the wrapper gets one value, and so does its marker. -/
theorem copy_gives_every_slot_one_value_of_a_wrapper :
    ∃ p c, Pieces.ofPlan (wrapPlan wrapFields) = .ok p ∧ p.Assigns c ∧ p.isGeneric ∧
      (∀ s ∈ p.slots, c.values p.held id s.name = 1) ∧ c.values p.held id Pieces.markerName = 1 := by
  have hwritten : (wrapPlan wrapFields).code.toOption.isSome = true := by decide +kernel
  have hfound : slotsOf (wrapPlan wrapFields) =
      some ([("held", some .field), ("count", some (.getter "counted")), ("note", none)], true) := by decide +kernel
  obtain ⟨code, hcode⟩ := exists_code hwritten
  obtain ⟨p, source, c, hp, -, -, -, hassigns, -, honce⟩ := copy_gives_every_slot_one_value hcode
  obtain ⟨hslots, hgeneric⟩ := slots_eq_of_slotsOf hfound hp
  have hnames : p.slots.map Slot.name = ["held", "count", "note"] := by
    have hfirst := congrArg (List.map Prod.fst) hslots
    rwa [List.map_map] at hfirst
  have hnodup : (p.slots.map Slot.name).Nodup := hnames ▸ by decide
  have hmarker : ¬ p.MarksTwice id := by
    rintro ⟨-, -, s, hs, hk⟩
    have hmem : s.name ∈ p.slots.map Slot.name := List.mem_map_of_mem hs
    rw [hnames, show s.name = Pieces.markerName from hk] at hmem
    exact absurd hmem (by decide)
  obtain ⟨hevery, hheld⟩ := (honce String id hnodup).mpr hmarker
  exact ⟨p, c, hp, hassigns, hgeneric, hevery, hheld hgeneric⟩

/-- A wrapper whose only field has the name of the marker: the name is given two values. -/
theorem a_field_named_like_the_marker_gets_two_values :
    ∃ plan code p source c, BuilderPlan.code plan = .ok code ∧ plan.fieldNames.Nodup ∧ Pieces.ofPlan plan = .ok p ∧
      p.copyBlock = .ok (p.fromBlock source (Conversion.code c)) ∧ p.isGeneric ∧
      c.values p.held id Pieces.markerName = 2 := by
  have hwritten : (wrapPlan markerFields).code.toOption.isSome = true := by decide +kernel
  have hfound : slotsOf (wrapPlan markerFields) = some ([(Pieces.markerName, some .field)], true) := by decide +kernel
  obtain ⟨code, hcode⟩ := exists_code hwritten
  obtain ⟨p, hp, hrest⟩ := exists_of_bind hcode
  obtain ⟨constructed, -, hrest⟩ := exists_of_bind hrest
  obtain ⟨copying, hcopying, -⟩ := exists_of_bind hrest
  obtain ⟨source, c, rfl, -, hassigns⟩ := Pieces.exists_fromBlock hcopying
  obtain ⟨hslots, hgeneric⟩ := slots_eq_of_slotsOf hfound hp
  obtain ⟨s, hs, hslot⟩ := List.map_eq_singleton_iff.mp hslots
  obtain ⟨hname, hcopy⟩ := Prod.mk.inj hslot
  have hothers : c.takesOthers = false := by
    refine Bool.eq_false_iff.mpr fun hothers => ?_
    rw [hassigns.takesOthers, hs] at hothers
    simp [hcopy] at hothers
  have hnodup : (p.slots.map fun s => id s.name).Nodup := by
    rw [hs]
    exact List.nodup_singleton _
  refine ⟨wrapPlan markerFields, code, p, source, c, hcode, List.nodup_singleton _, hp, hcopying, hgeneric, ?_⟩
  have hslot : ∃ s ∈ p.slots, id s.name = id Pieces.markerName := ⟨s, hs ▸ List.mem_singleton_self s, hname⟩
  rw [Pieces.values_of_all hassigns hnodup hothers, if_pos hslot, if_pos ⟨hgeneric, rfl⟩]

end BuilderSynthesis
