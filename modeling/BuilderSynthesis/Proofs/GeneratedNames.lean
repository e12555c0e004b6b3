/-
  BuilderSynthesis.Proofs.GeneratedNames — the names that the code of a builder declares.

  The struct of a builder has a field for each slot and one for its marker, and the block of its own functions has
  `new`, a setter for each slot, `check_required_fields` and `build` (`Pieces.Declares`). Names are compared as
  identifiers: `r#` before a name that is no keyword makes no difference (`identifierOf`).

  (1) The fields are distinct unless two fields of the request are the same identifier or a generic builder has one
      that is named like the marker (`Pieces.nodup_fields_iff`).
  (2) The functions are distinct unless two fields of the request are the same identifier or one has the name of a
      function of every builder (`Pieces.nodup_functions_iff`).
  (3) A plan refuses a field with the name of such a function by its text. So what is left is the name with `r#`
      before it, if the fields have identifiers for their names (`Request.mem_reserved_iff`): a field `r#build` is
      planned, and its builder has two functions `build` (`a_raw_build_is_declared_twice`).
-/

import BuilderSynthesis.Proofs.CopiedSlots
import BuilderSynthesis.Proofs.Refusals

namespace BuilderSynthesis

open Syntax Fragment

theorem Text.afterStart?_eq_some_iff {start text rest : String} :
    afterStart? start text = some rest ↔ text = start ++ rest := by
  unfold afterStart?
  constructor
  · intro h
    obtain ⟨hstarts, hrest⟩ := Option.ite_none_right_eq_some.mp h
    obtain ⟨after, hafter⟩ := List.isPrefixOf_iff_prefix.mp hstarts
    rw [← hafter, List.drop_left] at hrest
    rw [← String.toList_inj, String.toList_append, ← Option.some.inj hrest, String.toList_ofList, hafter]
  · rintro rfl
    simp

/-! ## Identifiers -/

/-- The identifier that a name stands for: the name without `r#`, if that is no keyword. -/
def identifierOf (name : String) : String :=
  match Text.afterStart? "r#" name with
  | some rest => if isReserved rest then name else rest
  | none => name

/-- The identifier that is read from a text. -/
def identifier? (text : String) : Option String := (readIdentifier text).toOption.map identifierOf

/-- The name is no keyword and has no `r#` in front. -/
def IsPlain (name : String) : Prop := isReserved name = false ∧ Text.afterStart? "r#" name = none

/-- A plain name is the identifier of itself and of the name with `r#`. -/
theorem identifierOf_eq_iff {name plain : String} (hplain : IsPlain plain) :
    identifierOf name = plain ↔ name = plain ∨ name = "r#" ++ plain := by
  obtain ⟨hword, hraw⟩ := hplain
  unfold identifierOf
  cases hafter : Text.afterStart? "r#" name with
  | none =>
    refine ⟨.inl, fun h => h.elim id fun hname => ?_⟩
    cases (Text.afterStart?_eq_some_iff.mpr hname).symm.trans hafter
  | some rest =>
    have hname := Text.afterStart?_eq_some_iff.mp hafter
    have hne : name ≠ plain := by
      rintro rfl
      cases hraw.symm.trans hafter
    have hrest : name = "r#" ++ plain ↔ rest = plain := by rw [hname, String.append_right_inj]
    rw [hrest, or_iff_right hne]
    by_cases hkeyword : isReserved rest = true
    · refine iff_of_false (by simpa [hkeyword] using hne) ?_
      rintro rfl
      cases hword.symm.trans hkeyword
    · simp [hkeyword]

theorem IsPlain.identifierOf_eq {name : String} (h : IsPlain name) : identifierOf name = name :=
  (identifierOf_eq_iff h).mpr (.inl rfl)

theorem isPlain_reserved : ∀ name ∈ Request.reservedNames, IsPlain name := by
  unfold IsPlain
  decide

theorem isPlain_marker : IsPlain Pieces.markerName := by
  unfold IsPlain
  decide

/-! ## What is declared -/

/-- A function of the builder. -/
structure Method where
  attributes : Code
  qualifiers : List String
  name : String
  parameters : Code
  result : Code
  body : Code

def Method.code (m : Method) : Code :=
  m.attributes ++ words (m.qualifiers ++ ["fn", m.name]) ++ parens m.parameters ++ Token.symbol "->" ++ m.result ++
    braces m.body

namespace Pieces

variable {p : Pieces} {plan : BuilderPlan}

/-- The fields of the struct with their types. -/
def fields (p : Pieces) : List (String × Code) :=
  p.slots.map (fun s => (s.name, s.held)) ++
    if p.isGeneric then [(markerName, phantom ++ angled (words ["fn"] ++ parens [] ++ Token.symbol "->" ++ p.targetType))]
    else []

/-- The names of the functions, in their order. -/
def functionNames (p : Pieces) : List String := "new" :: p.slots.map Slot.name ++ ["check_required_fields", "build"]

/-- The code starts with the struct and the block of its own functions; these are the functions. -/
structure Declares (p : Pieces) (plan : BuilderPlan) (code : Code) (methods : List Method) : Prop where
  struct : ∃ before, p.structCode plan = before ++ braces (p.fields.flatMap Conversion.entryCode)
  functions : ∃ constructed, p.functions plan constructed =
      allow ++ p.block p.builderType (methods.flatMap Method.code) ∧
    p.structCode plan ++ p.functions plan constructed <+: code
  names : methods.map Method.name = p.functionNames

theorem exists_fields (p : Pieces) (plan : BuilderPlan) :
    ∃ before, p.structCode plan = before ++ braces (p.fields.flatMap Conversion.entryCode) := by
  have hfields : p.fields.flatMap Conversion.entryCode =
      p.slots.flatMap (fun s => s.initialized s.held) ++ p.marker := by
    rw [fields, List.flatMap_append, List.flatMap_map, marker]
    congr 1
    split
    · simp [Conversion.entryCode]
    · rfl
  rw [hfields]
  exact ⟨_, rfl⟩

theorem exists_methods (p : Pieces) (plan : BuilderPlan) (constructed : Code) :
    ∃ methods : List Method, p.functions plan constructed =
        allow ++ p.block p.builderType (methods.flatMap Method.code) ∧ methods.map Method.name = p.functionNames := by
  obtain ⟨start, hstart, hnew⟩ : ∃ m : Method, p.start plan = m.code ∧ m.name = "new" :=
    ⟨⟨_, ["pub"], "new", [], _, _⟩, rfl, rfl⟩
  obtain ⟨checks, hchecks, hcheck⟩ : ∃ m : Method, p.checks plan = m.code ∧ m.name = "check_required_fields" :=
    ⟨⟨[], [], "check_required_fields", _, _, _⟩, rfl, rfl⟩
  obtain ⟨build, hbuild, hname⟩ : ∃ m : Method, p.build plan constructed = m.code ∧ m.name = "build" :=
    ⟨⟨_, ["pub"], "build", _, _, _⟩, rfl, rfl⟩
  have hsetters : ∀ s : Slot, ∃ m : Method, s.setter = m.code ∧ m.name = s.name :=
    fun s => ⟨⟨_, ["pub"], s.name, _, words ["Self"], _⟩, rfl, rfl⟩
  choose setter hsetter hset using hsetters
  refine ⟨start :: p.slots.map setter ++ [checks, build], ?_, ?_⟩
  · have hslots : p.slots.flatMap Slot.setter = (p.slots.map setter).flatMap Method.code := by
      rw [List.flatMap_map]
      exact congrArg p.slots.flatMap (funext hsetter)
    rw [functions, hstart, hchecks, hbuild, hslots]
    simp
  · simp [functionNames, hnew, hcheck, hname, hset]

theorem exists_declared {code : Code} (h : plan.code = .ok code) :
    ∃ p methods, ofPlan plan = .ok p ∧ p.Declares plan code methods := by
  obtain ⟨p, hp, h⟩ := exists_of_bind h
  obtain ⟨constructed, -, h⟩ := exists_of_bind h
  obtain ⟨copying, -, h⟩ := exists_of_bind h
  cases h
  obtain ⟨methods, hmethods, hnames⟩ := p.exists_methods plan constructed
  refine ⟨p, methods, hp, p.exists_fields plan, ⟨constructed, hmethods, ?_⟩, hnames⟩
  rw [List.append_assoc, List.append_assoc]
  exact List.prefix_append _ _

/-! ## Which names are distinct -/

/-- The identifiers of the slots. -/
def identifiers (p : Pieces) : List String := (p.slots.map Slot.name).map identifierOf

/-- The fields of the struct are distinct if the slots are and none of them is named like the marker. -/
theorem nodup_fields_iff (p : Pieces) :
    (p.fields.map fun field => identifierOf field.1).Nodup ↔
      p.identifiers.Nodup ∧ (p.isGeneric → markerName ∉ p.identifiers) := by
  have hslots : (p.slots.map fun s => (s.name, s.held)).map (fun field => identifierOf field.1) = p.identifiers := by
    rw [identifiers, List.map_map, List.map_map]
    rfl
  rw [fields, List.map_append, hslots]
  by_cases hgeneric : p.isGeneric = true
  · rw [if_pos hgeneric, List.map_singleton, isPlain_marker.identifierOf_eq, List.nodup_append_comm,
      List.singleton_append, List.nodup_cons, and_comm]
    simp [hgeneric]
  · simp [hgeneric]

/-- The functions are distinct if the slots are and none of them is named like one of the others. -/
theorem nodup_functions_iff (p : Pieces) :
    (p.functionNames.map identifierOf).Nodup ↔
      p.identifiers.Nodup ∧ ∀ name ∈ Request.reservedNames, name ∉ p.identifiers := by
  have hperm : p.functionNames.Perm (Request.reservedNames ++ p.slots.map Slot.name) :=
    (List.perm_append_comm.trans (.swap _ _ _)).cons "new"
  have hnames : (Request.reservedNames ++ p.slots.map Slot.name).map identifierOf =
      Request.reservedNames ++ p.identifiers := by
    rw [List.map_append, List.map_congr_left fun name hname => (isPlain_reserved name hname).identifierOf_eq, List.map_id']
    rfl
  rw [(hperm.map identifierOf).nodup_iff, hnames, List.nodup_append]
  constructor
  · rintro ⟨-, hslots, hother⟩
    exact ⟨hslots, fun name hname hslot => hother name hname name hslot rfl⟩
  · rintro ⟨hslots, hother⟩
    refine ⟨by decide, hslots, fun name hname slot hslot heq => ?_⟩
    rw [heq] at hname
    exact hother slot hname hslot

theorem Declares.nodup_iff {code : Code} {methods : List Method} (h : p.Declares plan code methods) :
    (methods.map fun m => identifierOf m.name).Nodup ↔
      p.identifiers.Nodup ∧ ∀ name ∈ Request.reservedNames, name ∉ p.identifiers := by
  rw [← p.nodup_functions_iff, ← h.names, List.map_map]
  rfl

end Pieces

/-! ## The names of a request -/

namespace Request

variable {r : Request} {plan : BuilderPlan} {problems : List Diagnostic} {p : Pieces}

/-- Two of the fields are the same identifier, but are written in different ways. -/
def HasTwins (r : Request) : Prop := ∃ a ∈ r.names, ∃ b ∈ r.names, a ≠ b ∧ identifier? a = identifier? b

theorem identifiers_of_read {names words : List String}
    (h : List.Forall₂ (fun name word => readIdentifier name = .ok word) names words) :
    (words.map identifierOf).map some = names.map identifier? := by
  induction h with
  | nil => rfl
  | cons hread _ ih =>
    rw [List.map_cons, List.map_cons, List.map_cons, ih, identifier?, hread]
    rfl

/-- The slots have the identifiers of the fields. -/
theorem identifiers_of_plan (h : r.plan = .ok (plan, problems)) (hp : Pieces.ofPlan plan = .ok p) :
    p.identifiers.map some = r.names.map identifier? := by
  rw [← fieldNames_of_plan h]
  exact identifiers_of_read (Pieces.slots_of_ofPlan hp)

theorem nodup_identifiers_iff (h : p.identifiers.map some = r.names.map identifier?) (hnames : r.names.Nodup) :
    p.identifiers.Nodup ↔ ¬ r.HasTwins := by
  rw [← List.nodup_map_iff (Option.some_injective _), h, List.nodup_map_iff_inj_on hnames]
  constructor
  · rintro hinj ⟨a, ha, b, hb, hne, hsame⟩
    exact hne (hinj a ha b hb hsame)
  · intro htwins a ha b hb hsame
    by_contra hne
    exact htwins ⟨a, ha, b, hb, hne, hsame⟩

theorem mem_identifiers_iff (h : p.identifiers.map some = r.names.map identifier?) {name : String} :
    name ∈ p.identifiers ↔ some name ∈ r.names.map identifier? := by
  rw [← h, List.mem_map_of_injective (Option.some_injective _)]

/-- Fields that have identifiers for their names are found by the name and by the name with `r#`. -/
theorem mem_written_iff (hread : ∀ a ∈ r.names, readIdentifier a = .ok a) {name : String}
    (hplain : IsPlain name) :
    some name ∈ r.names.map identifier? ↔ name ∈ r.names ∨ "r#" ++ name ∈ r.names := by
  have hsame : ∀ a ∈ r.names, identifier? a = some name ↔ a = name ∨ a = "r#" ++ name := by
    intro a ha
    rw [identifier?, hread a ha, ← identifierOf_eq_iff hplain]
    exact Option.some_inj
  rw [List.mem_map]
  constructor
  · rintro ⟨a, ha, hid⟩
    rcases (hsame a ha).mp hid with rfl | rfl
    · exact .inl ha
    · exact .inr ha
  · rintro (ha | ha)
    · exact ⟨name, ha, (hsame name ha).mpr (.inl rfl)⟩
    · exact ⟨_, ha, (hsame _ ha).mpr (.inr rfl)⟩

/-- Of the fields of a plan that have identifiers for their names, those with `r#` may have the name of a function
of every builder. -/
theorem mem_reserved_iff (h : r.plan = .ok (plan, problems)) (hread : ∀ a ∈ r.names, readIdentifier a = .ok a)
    {name : String} (hname : name ∈ reservedNames) : some name ∈ r.names.map identifier? ↔ "r#" ++ name ∈ r.names := by
  obtain ⟨-, hallowed, -⟩ := forall_conditions_iff.mp (exists_constructor_iff.mp (exists_plan_iff.mp ⟨plan, problems, h⟩))
  have hfields : name ∉ r.names := by
    intro hmem
    obtain ⟨f, hf, rfl⟩ := List.mem_map.mp hmem
    exact hallowed f hf hname
  rw [mem_written_iff hread (isPlain_reserved name hname), or_iff_right hfields]

/-- The builder of a plan declares distinct fields unless two fields of the request are the same identifier or a
generic builder has one named like its marker, and distinct functions unless two fields are the same identifier or
one is named like a function of every builder. If the fields have identifiers for their names, that is one of these
names with `r#`. -/
theorem generated_names_are_distinct {code : Code} (h : r.plan = .ok (plan, problems)) (hcode : plan.code = .ok code)
    (hnames : r.names.Nodup) :
    ∃ p methods, Pieces.ofPlan plan = .ok p ∧ p.Declares plan code methods ∧
      p.identifiers.map some = r.names.map identifier? ∧
      ((p.fields.map fun field => identifierOf field.1).Nodup ↔
        ¬ r.HasTwins ∧ (p.isGeneric → some Pieces.markerName ∉ r.names.map identifier?)) ∧
      ((methods.map fun m => identifierOf m.name).Nodup ↔
        ¬ r.HasTwins ∧ ∀ name ∈ reservedNames, some name ∉ r.names.map identifier?) ∧
      ((∀ a ∈ r.names, readIdentifier a = .ok a) →
        (some Pieces.markerName ∈ r.names.map identifier? ↔
          Pieces.markerName ∈ r.names ∨ "r#" ++ Pieces.markerName ∈ r.names) ∧
        ∀ name ∈ reservedNames, some name ∈ r.names.map identifier? ↔ "r#" ++ name ∈ r.names) := by
  obtain ⟨p, methods, hp, hdeclares⟩ := Pieces.exists_declared hcode
  have hidentifiers := identifiers_of_plan h hp
  have htwins := nodup_identifiers_iff hidentifiers hnames
  refine ⟨p, methods, hp, hdeclares, hidentifiers, ?_, ?_, fun hread => ⟨?_, fun name hname => ?_⟩⟩
  · rw [p.nodup_fields_iff, htwins, mem_identifiers_iff hidentifiers]
  · rw [hdeclares.nodup_iff, htwins]
    simp only [mem_identifiers_iff hidentifiers]
  · exact mem_written_iff hread isPlain_marker
  · exact mem_reserved_iff h hread hname

/-! ### A task -/

/-- A struct with some fields. -/
def taskRequest (generics : Option String) (fields : List Parameter) : Request where
  target := ⟨"Task", "Task", generics, none⟩
  suffix := defaultSuffix
  visibility := .everywhere
  fields
  constructors := [⟨.memberwise, fields, .everywhere, .crateRoot 0, ⟨"lib.rs", 4, 12⟩⟩]
  accessors := []
  entryPoint := true
  module := .crateRoot 0
  location := ⟨"lib.rs", 3, 1⟩

theorem exists_rendered {r : Request} (h : (r.plan.toOption.any fun planned => planned.1.code.toOption.isSome) = true) :
    ∃ plan problems code, r.plan = .ok (plan, problems) ∧ plan.code = .ok code := by
  cases hplan : r.plan with
  | error problem =>
    rw [hplan] at h
    cases h
  | ok planned =>
    rw [hplan] at h
    obtain ⟨code, hcode⟩ := exists_code h
    exact ⟨planned.1, planned.2, code, rfl, hcode⟩

/-- A generic struct with a keyword among its fields. -/
def loopRequest : Request := taskRequest (some "<T>") [bound "r#loop" 5, bound "rebuild" 6]

/-- All fields and all functions of its builder are distinct. -/
theorem generated_names_are_distinct_of_a_loop :
    ∃ plan problems code, loopRequest.plan = .ok (plan, problems) ∧ plan.code = .ok code ∧ loopRequest.names.Nodup ∧
      ∃ (p : Pieces) (methods : List Method), p.Declares plan code methods ∧
        (p.fields.map fun field => identifierOf field.1).Nodup ∧ (methods.map fun m => identifierOf m.name).Nodup := by
  have hrendered : (loopRequest.plan.toOption.any fun planned => planned.1.code.toOption.isSome) = true := by
    decide +kernel
  obtain ⟨plan, problems, code, hplan, hcode⟩ := exists_rendered hrendered
  have hnames : loopRequest.names.Nodup := by decide
  have hids : loopRequest.names.map identifier? = [some "r#loop", some "rebuild"] := by decide +kernel
  have htwins : ¬ loopRequest.HasTwins := by
    unfold HasTwins
    decide +kernel
  obtain ⟨p, methods, -, hdeclares, -, hfields, hmethods, -⟩ := generated_names_are_distinct hplan hcode hnames
  rw [hids] at hfields hmethods
  exact ⟨plan, problems, code, hplan, hcode, hnames, p, methods, hdeclares,
    hfields.mpr ⟨htwins, fun _ => by decide⟩, hmethods.mpr ⟨htwins, by decide⟩⟩

/-- The name of the field is not the text `build`, but it is the same identifier. -/
theorem a_raw_build_is_declared_twice :
    ∃ r plan problems code, Request.plan r = .ok (plan, problems) ∧ (r.names.map identifier?).Nodup ∧
      plan.code = .ok code ∧ ∃ (p : Pieces) (methods : List Method), p.Declares plan code methods ∧
        ¬ (methods.map fun m => identifierOf m.name).Nodup := by
  have hrendered : ((taskRequest none [bound "r#build" 5]).plan.toOption.any fun planned =>
      planned.1.code.toOption.isSome) = true := by decide +kernel
  obtain ⟨plan, problems, code, hplan, hcode⟩ := exists_rendered hrendered
  obtain ⟨p, methods, hp, hdeclares⟩ := Pieces.exists_declared hcode
  have hids : (taskRequest none [bound "r#build" 5]).names.map identifier? = [some "build"] := by decide +kernel
  refine ⟨_, plan, problems, code, hplan, ?_, hcode, p, methods, hdeclares, fun hnodup => ?_⟩
  · rw [hids]
    exact List.nodup_singleton _
  · refine (hdeclares.nodup_iff.mp hnodup).2 "build" (by decide) ?_
    rw [mem_identifiers_iff (identifiers_of_plan hplan hp), hids]
    exact List.mem_singleton_self _

end Request

end BuilderSynthesis
