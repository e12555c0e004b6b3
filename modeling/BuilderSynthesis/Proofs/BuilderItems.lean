/-
  BuilderSynthesis.Proofs.BuilderItems — the items of a builder are read.

  The code of a builder is a struct and blocks of functions. Whatever its parts are, as long as they are
  plain (`Pieces.MadeOf`), the code is read as a file with these items: a struct with the fields of the
  builder, and blocks of functions that say nothing to the scan (`makes_builder`).
-/

import BuilderSynthesis.Proofs.BuilderBodies
import BuilderSynthesis.Scan.Items

namespace BuilderSynthesis

open Syntax Fragment BuilderSynthesis.Syntax.Parser

/-! ## Attributes -/

namespace Syntax

/-- The attribute says nothing about builders. -/
def Attribute.IsSilent (a : Attribute) : Prop :=
  Scan.namesDirective a.path "builder" = false ∧ Scan.namesDirective a.path "builder_of" = false ∧ a.path.isName "derive" = false

theorem Attribute.IsSilent.of_alike {a b : Attribute} (h : a.IsSilent) (halike : a.Alike Token.AllMatch b) : b.IsSilent := by
  rw [IsSilent, halike.path]
  exact h

/-- A word with what is said by it. -/
def Attribute.ofName (name : String) (form : Code) : Attribute :=
  ⟨.start, false, .ofName name, .start, .path, words [name] ++ form⟩

theorem Attribute.isPlain_ofName {name : String} (h : IsFree name) {form : Code} (hform : IsPlainForm form) :
    (Attribute.ofName name form).IsPlain false where
  placed := rfl
  path := (AreValueNames.of_isFree h).isBare false
  content := ⟨form, hform, rfl⟩

/-- An attribute of a builder. -/
structure Attribute.IsOfBuilder (a : Attribute) : Prop where
  plain : a.IsPlain false
  silent : a.IsSilent

end Syntax

def documentation (value : String) : Attribute := .ofName "doc" (Token.symbol "=" ++ text value)

def useRequired : Attribute := .ofName "must_use" []

def allowance : Attribute :=
  .ofName "allow" (parens (separated
    [words ["dead_code"], lint "clippy" "all", lint "clippy" "pedantic", lint "clippy" "nursery",
     words ["reason"] ++ Token.symbol "=" ++ text "generated builder"]))

theorem documentation_isOfBuilder (value : String) : (documentation value).IsOfBuilder :=
  ⟨Attribute.isPlain_ofName (by decide) (.value _), rfl, rfl, rfl⟩

theorem useRequired_isOfBuilder : useRequired.IsOfBuilder := ⟨Attribute.isPlain_ofName (by decide) .path, rfl, rfl, rfl⟩

theorem allowance_isOfBuilder : allowance.IsOfBuilder := ⟨Attribute.isPlain_ofName (by decide) (.list ..), rfl, rfl, rfl⟩

/-! ## Parts -/

namespace Syntax.Generics

/-- The parameters without their defaults, which have no place in a block. -/
def withoutDefaults (g : Generics) : Generics := ⟨g.parameters.map ({ · with fallback := none }), g.trailing⟩

theorem tokens_withoutDefaults (g : Generics) : g.withoutDefaults.tokens = g.blockTokens := by
  have htokens : ∀ p : GenericParameter, GenericParameter.tokens true { p with fallback := none } = p.tokens false := by
    intro p
    unfold GenericParameter.tokens
    cases p.fallback <;> rfl
  unfold tokens blockTokens angled withoutDefaults
  simp only [List.isEmpty_map, List.map_map, Function.comp_def, htokens]
  rfl

theorem IsPlain.withoutDefaults {g : Generics} (h : g.IsPlain) : g.withoutDefaults.IsPlain where
  parameters := by
    refine List.forall_mem_map.mpr fun p hp => ?_
    cases h.parameters p hp with
    | lifetime named lifetimes ended => exact .lifetime named lifetimes ended
    | type named free plain ended => exact .type named free plain ended (nofun : ∀ t ∈ (none : Option TypeExpr), t.isPlain = true ∧ t.Proper)
    | constant named free plain proper => exact .constant named free plain proper nofun
  lifetimesFirst := by
    have hfirst := h.lifetimesFirst
    rw [Generics.withoutDefaults, List.dropWhile_map, List.all_map]
    exact hfirst
  ended hnone := h.ended (List.map_eq_nil_iff.mp hnone)

end Syntax.Generics

/-- What the parts of a builder are the tokens of. -/
structure Parts where
  visibility : VisibilityExpr
  whereClause : Option WhereClause
  target : TypeName
  /-- The types that the slots hold. -/
  held : List TypeExpr

/-- The slot holds values of a plain type. -/
def Slot.Holds (s : Slot) (type : TypeExpr) : Prop := type.isPlain = true ∧ type.Proper ∧ s.held = type.tokens

structure Pieces.MadeOf (p : Pieces) (parts : Parts) : Prop where
  unit : IsFree p.unit
  visibility : parts.visibility.Proper ∧ p.visibility = parts.visibility.tokens
  generics : p.generics.IsPlain
  whereClause : (∀ clause ∈ parts.whereClause, clause.IsPlain) ∧ p.whereClause = (parts.whereClause.map WhereClause.tokens).getD []
  target : parts.target.IsPlain ∧ p.target = (parts.target.passed .none).tokens
  slots : ∀ s ∈ p.slots, s.IsPlain
  held : List.Forall₂ Slot.Holds p.slots parts.held

/-! ## Blocks of functions -/

namespace Syntax

/-- Nothing is noted about the function. -/
structure FunctionItem.IsSilent (f : FunctionItem) : Prop where
  attributes : ∀ a ∈ f.attributes, a.IsSilent
  inner : f.innerAttributes = []
  inputs : ∀ i ∈ f.signature.inputs, i.Unmarked

/-- A block of functions, and nothing is noted about them. -/
def Item.IsSilent : Item → Prop
  | .functions attributes _ _ found => (∀ a ∈ attributes, a.IsSilent) ∧ ∀ f ∈ found, f.IsSilent
  | _ => False

/-- A function of a builder says nothing to the scan. -/
structure MethodExpr.IsOfBuilder (m : MethodExpr) : Prop where
  plain : m.IsPlain
  silent : ∀ a ∈ m.attributes, a.IsSilent

theorem silent_of_alike {attributes others : List Attribute} (h : ∀ a ∈ attributes, a.IsSilent)
    (halike : List.Forall₂ (Attribute.Alike Token.AllMatch) attributes others) : ∀ a ∈ others, a.IsSilent := by
  induction halike with
  | nil => nofun
  | cons first _ ih =>
    obtain ⟨ha, hrest⟩ := List.forall_mem_cons.mp h
    exact List.forall_mem_cons.mpr ⟨ha.of_alike first, ih hrest⟩

theorem silent_of_quiet {methods : List MethodExpr} {functions : List FunctionItem} (h : ∀ m ∈ methods, m.IsOfBuilder)
    (hquiet : List.Forall₂ (fun m f => FunctionItem.IsQuiet m.attributes f) methods functions) : ∀ f ∈ functions, f.IsSilent := by
  induction hquiet with
  | nil => nofun
  | cons first _ ih =>
    obtain ⟨hm, hrest⟩ := List.forall_mem_cons.mp h
    exact List.forall_mem_cons.mpr ⟨⟨silent_of_alike hm.silent first.attributes, first.inner, first.inputs⟩, ih hrest⟩

end Syntax

namespace Pieces

variable {p : Pieces} {parts : Parts}

/-- What introduces a block of functions of a builder. -/
def header (p : Pieces) (parts : Parts) (ofTrait : Option PathExpr) (subject : TypeName) : BlockHeader :=
  ⟨p.generics.withoutDefaults, ofTrait, subject.passed p.generics.arguments, parts.whereClause⟩

theorem MadeOf.header_isPlain (h : p.MadeOf parts) {ofTrait : Option PathExpr} (htrait : ∀ path ∈ ofTrait, path.isOfPlain = true ∧ path.Proper)
    {subject : TypeName} (hsubject : subject.IsPlain) : (p.header parts ofTrait subject).IsPlain :=
  ⟨h.generics.withoutDefaults, htrait, hsubject.passed_parameters h.generics, h.whereClause.1⟩

theorem MadeOf.block_eq (h : p.MadeOf parts) (ofTrait : Option PathExpr) (subject : TypeName) (body : Code) :
    p.block (BlockHeader.traitTokens ofTrait ++ ((subject.passed .none).tokens ++ p.generics.argumentTokens)) body =
      (p.header parts ofTrait subject).around body := by
  rw [block, h.whereClause.2, BlockHeader.around, header, p.generics.tokens_withoutDefaults, subject.tokens_passed_parameters]
  simp only [List.append_assoc, List.cons_append]
  rfl

/-- A block of functions of a builder is read as one that says nothing. -/
theorem makes_block (h : p.MadeOf parts) (ofTrait : Option PathExpr) (htrait : ∀ path ∈ ofTrait, path.isOfPlain = true ∧ path.Proper)
    {subject : TypeName} (hsubject : subject.IsPlain) {methods : List MethodExpr} (hmethods : ∀ m ∈ methods, m.IsOfBuilder) {code : Code}
    (hcode : code = allow ++ p.block (BlockHeader.traitTokens ofTrait ++ ((subject.passed .none).tokens ++ p.generics.argumentTokens))
      (methods.flatMap MethodExpr.tokens)) {depth : Nat} (hsize : Token.sizes code < depth) {next : List Token → Bool} :
    Makes Token.AllMatch (Read.item (grammar (depth + 3))) code next Item.IsSilent := by
  subst hcode
  rw [h.block_eq, sizes_append] at hsize
  have hallow : ∀ a ∈ [allowance], a.IsPlain false := List.forall_mem_singleton.mpr allowance_isOfBuilder.plain
  have hread : Makes Token.AllMatch (Read.item (grammar (depth + 3)))
      (Attribute.tokensOfAll [allowance] ++ (p.header parts ofTrait subject).around (methods.flatMap MethodExpr.tokens)) next _ :=
    Read.makes_methodBlock hallow (h.header_isPlain htrait hsubject) (fun m hm => (hmethods m hm).plain) (by omega)
  rw [h.block_eq]
  refine hread.imp ?_
  rintro item - ⟨attributes, functions, hattributes, hfunctions, rfl⟩
  exact ⟨silent_of_alike (List.forall_mem_singleton.mpr allowance_isOfBuilder.silent) hattributes, silent_of_quiet hmethods hfunctions⟩

end Pieces

/-! ## Functions -/

def selfType : TypeExpr := .path (.ofName "Self")

theorem selfType_isPlain : selfType.isPlain = true ∧ selfType.Proper := by
  have hbare : (PathExpr.ofName "Self").IsBare := ⟨false, ["Self"], List.cons_ne_nil _ _, by decide, rfl⟩
  exact ⟨hbare.isOfPlain, hbare.proper⟩

theorem forall_mem_pair {α : Type} {holds : α → Prop} {a b : α} (ha : holds a) (hb : holds b) : ∀ c ∈ [a, b], holds c :=
  List.forall_mem_cons.mpr ⟨ha, List.forall_mem_singleton.mpr hb⟩

theorem Syntax.MethodExpr.tokens_eq (m : MethodExpr) : m.tokens = Attribute.tokensOfAll m.attributes ++ m.visibility.tokens ++ words ["fn", m.name] ++
    parens m.parameters ++ Token.symbol "->" ++ m.output.tokens ++ braces m.body := by
  simp only [MethodExpr.tokens, MethodExpr.core, List.append_assoc, Signature.returned]
  rfl

/-- A parameter by its name. -/
def parameter (name : String) (type : TypeExpr) : FunctionInput := .typed [] (.binding name .start false false) [Token.word name] type

theorem parameter_isPlain {name : String} (hname : isReserved name = false) {type : TypeExpr} (htype : type.isPlain = true ∧ type.Proper) :
    ∀ i ∈ [parameter name type], i.IsPlain ∧ i.Unmarked :=
  have hinput : (FunctionInput.typed [] (.binding name .start false false) (bindingTokens false name) type).IsPlain :=
    .typed nofun hname htype.1 htype.2
  List.forall_mem_singleton.mpr ⟨hinput, rfl⟩

theorem tokens_parameter (name : String) (type : TypeExpr) :
    commas false [(parameter name type).tokens] = words [name] ++ Token.symbol ":" ++ type.tokens := List.append_nil _

/-- The attributes of a function that is documented and whose result has to be used. -/
def shownAs (doc : String) : List Attribute := [documentation doc, useRequired]

theorem shownAs_areOfBuilder (doc : String) : ∀ a ∈ shownAs doc, a.IsOfBuilder :=
  List.forall_mem_cons.mpr ⟨documentation_isOfBuilder doc, List.forall_mem_singleton.mpr useRequired_isOfBuilder⟩

theorem tokens_shownAs (doc : String) : Attribute.tokensOfAll (shownAs doc) = documented (text doc) ++ mustUse := rfl

/-- A function of a builder, when its attributes are those of a builder. -/
theorem isOfBuilder_of_parts {m : MethodExpr} (hattributes : ∀ a ∈ m.attributes, a.IsOfBuilder) (hv : m.visibility.Proper) (hname : IsFree m.name)
    (hinputs : ∀ i ∈ m.inputs, i.IsPlain ∧ i.Unmarked) (houtput : m.output.isPlain = true ∧ m.output.Proper) (hbody : IsMethodBody m.body) :
    m.IsOfBuilder :=
  ⟨⟨fun a ha => (hattributes a ha).plain, hv, hname.2, hinputs, houtput, hbody.reads, hbody.apart⟩, fun a ha => (hattributes a ha).silent⟩

namespace Slot

variable {s : Slot}

theorem IsPlain.exists_setter (h : s.IsPlain) : ∃ m : MethodExpr, m.tokens = s.setter ∧ m.IsOfBuilder := by
  obtain ⟨type, hplain, hproper, hvalue⟩ := h.value
  let m : MethodExpr := ⟨shownAs (" Set `" ++ s.planned.name ++ "`."), .everywhere, s.name, some (false, true), [parameter "value" type], selfType,
    ofSelf s.name ++ Token.symbol "=" ++ s.filled (words ["value"]) ++ semicolon ++ words ["self"]⟩
  refine ⟨m, ?_, isOfBuilder_of_parts (shownAs_areOfBuilder _) trivial h.name (parameter_isPlain (by decide) ⟨hplain, hproper⟩)
    selfType_isPlain h.setterBody⟩
  have hparameters : m.parameters = words ["mut", "self"] ++ comma ++ words ["value"] ++ Token.symbol ":" ++ s.value := by
    show receiverTokens false true ++ (Token.symbol "," ++ commas false [(parameter "value" type).tokens]) = _
    rw [tokens_parameter, hvalue]
    rfl
  rw [m.tokens_eq, hparameters, tokens_shownAs]
  rfl

end Slot

theorem exists_setters {slots : List Slot} (h : ∀ s ∈ slots, s.IsPlain) :
    ∃ methods : List MethodExpr, methods.flatMap MethodExpr.tokens = slots.flatMap Slot.setter ∧ ∀ m ∈ methods, m.IsOfBuilder := by
  induction slots with
  | nil => exact ⟨[], rfl, nofun⟩
  | cons s rest ih =>
    obtain ⟨hs, hrest⟩ := List.forall_mem_cons.mp h
    obtain ⟨m, hm, hsilent⟩ := hs.exists_setter
    obtain ⟨methods, hmethods, hall⟩ := ih hrest
    exact ⟨m :: methods, by rw [List.flatMap_cons, List.flatMap_cons, hm, hmethods], List.forall_mem_cons.mpr ⟨hsilent, hall⟩⟩

namespace Pieces

variable {p : Pieces} {parts : Parts} (plan : BuilderPlan)

/-- The builder by its name. -/
def builderName (p : Pieces) : TypeName := ⟨false, [], p.unit⟩

def typeOf (p : Pieces) (name : TypeName) : TypeExpr := .path (name.passed p.generics.arguments)

namespace MadeOf

variable (h : p.MadeOf parts)

include h

theorem builderName_isPlain : p.builderName.IsPlain :=
  ⟨nofun, isPlainName_of_isFree h.unit, by rw [builderName, takesArguments, h.unit.2]; rfl⟩

theorem typeOf_isPlain {name : TypeName} (hname : name.IsPlain) : (p.typeOf name).isPlain = true ∧ (p.typeOf name).Proper :=
  hname.passed_parameters h.generics

theorem tokens_target : (p.typeOf parts.target).tokens = p.targetType := by
  rw [targetType, h.target.2]
  exact parts.target.tokens_passed_parameters p.generics

theorem exists_start : ∃ m : MethodExpr, m.tokens = p.start plan ∧ m.IsOfBuilder := by
  let m : MethodExpr := ⟨shownAs (" A `" ++ plan.unit ++ "` with only default values set."), .everywhere, "new", none, [], selfType,
    words ["Self"] ++ braces (p.slots.flatMap (fun s => s.initialized s.initialValue) ++ p.markerValue)⟩
  have hname : IsFree "new" := by decide
  refine ⟨m, ?_, isOfBuilder_of_parts (shownAs_areOfBuilder _) trivial hname nofun selfType_isPlain (startBody h.slots)⟩
  rw [m.tokens_eq, tokens_shownAs]
  rfl

theorem exists_checks : ∃ m : MethodExpr, m.tokens = p.checks plan ∧ m.IsOfBuilder := by
  have hnothing : (TypeExpr.tuple [] false).isPlain = true ∧ (TypeExpr.tuple [] false).Proper := ⟨rfl, fun _ => rfl, nofun, trivial⟩
  let m : MethodExpr := ⟨[], .inherited, "check_required_fields", some (true, false), [], resultType (.tuple [] false),
    p.required.flatMap (·.check plan.unit) ++ succeeded (parens [])⟩
  have hname : IsFree "check_required_fields" := by decide
  refine ⟨m, ?_, isOfBuilder_of_parts nofun trivial hname nofun (isPlain_resultType hnothing.1 hnothing.2) (checksBody h.slots plan.unit)⟩
  rw [m.tokens_eq, tokens_resultType hnothing.1]
  rfl

theorem exists_build {constructed : Code} (hconstructed : IsOperand constructed) :
    ∃ m : MethodExpr, m.tokens = p.build plan constructed ∧ m.IsOfBuilder := by
  have htarget := h.typeOf_isPlain h.target.1
  let m : MethodExpr := ⟨[documentation (buildDoc plan)], .everywhere, "build", some (false, false), [], resultType (p.typeOf parts.target),
    p.finishing plan.unit constructed⟩
  have hname : IsFree "build" := by decide
  refine ⟨m, ?_, isOfBuilder_of_parts (List.forall_mem_singleton.mpr (documentation_isOfBuilder _)) trivial hname nofun
    (isPlain_resultType htarget.1 htarget.2) (buildBody h.slots plan.unit hconstructed)⟩
  rw [m.tokens_eq, tokens_resultType htarget.1, h.tokens_target]
  rfl

variable {depth : Nat} {next : List Token → Bool}

theorem makes_functions {constructed : Code} (hconstructed : IsOperand constructed)
    (hsize : Token.sizes (p.functions plan constructed) < depth) :
    Makes Token.AllMatch (Read.item (grammar (depth + 3))) (p.functions plan constructed) next Item.IsSilent := by
  obtain ⟨start, hstart, hstarts⟩ := h.exists_start plan
  obtain ⟨setters, hsetters, hset⟩ := exists_setters h.slots
  obtain ⟨checks, hchecks, hcheck⟩ := h.exists_checks plan
  obtain ⟨build, hbuild, hbuilds⟩ := h.exists_build plan hconstructed
  have hmethods : ∀ m ∈ start :: (setters ++ [checks, build]), m.IsOfBuilder := by
    refine List.forall_mem_cons.mpr ⟨hstarts, fun m hm => ?_⟩
    rcases List.mem_append.mp hm with hm | hm
    · exact hset m hm
    · exact forall_mem_pair hcheck hbuilds m hm
  refine makes_block h none (fun _ hp => absurd hp (Option.not_mem_none _)) h.builderName_isPlain hmethods ?_ hsize
  rw [List.flatMap_cons, List.flatMap_append, List.flatMap_cons, List.flatMap_singleton, hstart, hsetters, hchecks, hbuild, functions]
  simp only [List.append_assoc]
  rfl

end MadeOf

end Pieces

/-! ## The struct -/

/-- A field of a builder: its name, the tokens of its type, and the type unless it is that of the marker. -/
structure HeldField where
  name : String
  code : Code
  type : Option TypeExpr

namespace HeldField

def tokens (f : HeldField) : Code := Token.word f.name :: (Token.symbol ":" ++ f.code)

/-- The field is read from these tokens. -/
structure ReadAs (f : HeldField) (read : Field) : Prop where
  attributes : read.attributes = []
  named : read.name.map Prod.fst = some f.name
  type : ∀ type ∈ f.type, read.type = type

/-- Every deep grammar reads the type of the field. -/
structure IsPlain (f : HeldField) : Prop where
  name : isReserved f.name = false
  reads : ∀ depth, Token.sizes f.code < depth →
    Makes Token.AllMatch ((grammar (depth + 3)).type true) f.code endsType fun read => ∀ type ∈ f.type, read = type

variable {f : HeldField} {fields : List HeldField} {depth : Nat}

theorem makes_field (h : f.IsPlain) (hsize : Token.sizes f.code < depth) :
    Makes Token.AllMatch (Read.namedField (grammar (depth + 3))) f.tokens Read.endsField f.ReadAs := by
  have hfield := Read.makes_fieldOf (g := grammar (depth + 3)) (v := .inherited) (List.forall_mem_nil _) trivial h.name
    ((h.reads depth hsize).mono fun _ => Read.endsType_of_endsField)
  refine hfield.imp ?_
  rintro read - ⟨hattributes, -, hnamed, htype⟩
  exact ⟨List.forall₂_nil_left_iff.mp hattributes, hnamed, htype⟩

/-- Fields with a comma after each. -/
theorem makes_fields (h : ∀ f ∈ fields, f.IsPlain) (hsize : ∀ f ∈ fields, Token.sizes f.code < depth) {next : List Token → Bool} :
    Makes Token.AllMatch (Read.namedFields (grammar (depth + 3))) [.enclosed .brace (listed (fields.map tokens))] next
      fun read => List.Forall₂ ReadAs fields read.1 := by
  have hread : ∀ trailing, (fields = [] → trailing = false) →
      Makes Token.AllMatch (Read.namedFields (grammar (depth + 3))) [.enclosed .brace (commas trailing (fields.map tokens))] next
        fun read => List.Forall₂ ReadAs fields read.1 := by
    intro trailing hended
    refine Makes.inside (Reads.imp (makes_separatedUntil run_atEnd (fun hm => hm) rfl (fun f hf us more hu => ?_) (fun f hf => ?_) hended)
      fun hread => hread.1)
    · obtain ⟨v, vs, rfl, -⟩ := hu.1.of_cons
      rfl
    · exact makes_field (h f hf) (hsize f hf)
  cases fields with
  | nil => exact hread false fun _ => rfl
  | cons f rest =>
    rw [listed_eq_commas]
    exact hread true nofun

end HeldField

namespace Pieces

variable {p : Pieces} {parts : Parts} (plan : BuilderPlan)

/-- The field in which a slot holds values of a type. -/
def slotField (s : Slot) (type : TypeExpr) : HeldField := ⟨s.name, s.held, some type⟩

/-- The field that keeps the parameters in use. -/
def markerField (p : Pieces) : List HeldField := if p.isGeneric then [⟨markerName, markerType p.targetType, none⟩] else []

/-- The fields of the builder. -/
def heldFields (p : Pieces) (parts : Parts) : List HeldField := List.zipWith slotField p.slots parts.held ++ p.markerField

/-- The attributes of the struct. -/
def structAttributes (plan : BuilderPlan) : List Attribute :=
  [documentation (" Builder for `" ++ plan.target.name ++ "`."), allowance]

theorem structAttributes_areOfBuilder (plan : BuilderPlan) : ∀ a ∈ structAttributes plan, a.IsOfBuilder :=
  List.forall_mem_cons.mpr ⟨documentation_isOfBuilder _, List.forall_mem_singleton.mpr allowance_isOfBuilder⟩

/-- The struct of the builder is read so. -/
structure ReadAs (p : Pieces) (parts : Parts) (s : StructItem) : Prop where
  attributes : ∀ a ∈ s.attributes, a.IsSilent
  visibility : parts.visibility.Alike Token.AllMatch s.visibility
  name : s.name = p.unit
  generics : s.generics = p.generics
  whereClause : s.whereClause = parts.whereClause
  fields : ∃ fields trailing, s.fields = .named fields trailing ∧ List.Forall₂ HeldField.ReadAs (p.heldFields parts) fields

namespace MadeOf

variable (h : p.MadeOf parts)

include h

theorem heldFields_eq : p.slots.flatMap (fun s => s.initialized s.held) ++ p.marker = listed ((p.heldFields parts).map HeldField.tokens) := by
  have hslots : ∀ {slots : List Slot} {held : List TypeExpr}, List.Forall₂ Slot.Holds slots held →
      slots.flatMap (fun s => s.initialized s.held) =
        listed ((List.zipWith slotField slots held).map HeldField.tokens) := by
    intro slots held hheld
    induction hheld with
    | nil => rfl
    | cons _ _ ih =>
      rw [List.flatMap_cons, ih]
      rfl
  rw [heldFields, List.map_append, listed, List.flatMap_append, ← listed, ← hslots h.held, marker, markerField]
  split
  · simp [markerType, HeldField.tokens, words, angled, comma]
  · rfl

theorem heldFields_arePlain : ∀ f ∈ p.heldFields parts, f.IsPlain := by
  have hslots : ∀ {slots : List Slot} {held : List TypeExpr}, List.Forall₂ Slot.Holds slots held → (∀ s ∈ slots, s.IsPlain) →
      ∀ f ∈ List.zipWith slotField slots held, f.IsPlain := by
    intro slots held hheld hplain
    induction hheld with
    | nil => exact List.forall_mem_nil _
    | cons first _ ih =>
      obtain ⟨hs, hrest⟩ := List.forall_mem_cons.mp hplain
      refine List.forall_mem_cons.mpr ⟨⟨hs.name.2, fun depth hsize => ?_⟩, ih hrest⟩
      obtain ⟨htype, hproper, htokens⟩ := first
      unfold slotField at hsize ⊢
      dsimp only at hsize ⊢
      rw [htokens] at hsize ⊢
      refine (Reads.of_agree ((rereadsBounds_grammar (depth + 1)).types true _ htype hproper (by omega))).imp ?_
      rintro read - ⟨rfl, -⟩ found hfound
      exact Option.mem_some.mp hfound
  intro f hf
  rcases List.mem_append.mp hf with hf | hf
  · exact hslots h.held h.slots f hf
  · unfold markerField at hf
    split at hf
    · obtain rfl := List.mem_singleton.mp hf
      obtain ⟨hplain, hproper⟩ := h.typeOf_isPlain h.target.1
      have hname : isReserved markerName = false := by decide
      refine ⟨hname, fun depth hsize => ?_⟩
      have hle : Token.sizes (p.typeOf parts.target).tokens ≤ Token.sizes (markerType p.targetType) := by
        rw [h.tokens_target, markerType, angled]
        simp only [sizes_append]
        omega
      dsimp only at hsize ⊢
      rw [← h.tokens_target] at hle hsize ⊢
      exact (makes_markerType hplain hproper (by omega)).imp fun _ _ hfound => absurd hfound (Option.not_mem_none _)
    · cases hf

theorem structCode_eq : p.structCode plan = Attribute.tokensOfAll (structAttributes plan) ++
    (parts.visibility.tokens ++ Token.word "struct" :: (Token.word p.unit :: (p.generics.tokens ++
      ((parts.whereClause.map WhereClause.tokens).getD [] ++ [.enclosed .brace (listed ((p.heldFields parts).map HeldField.tokens))])))) := by
  rw [structCode, h.heldFields_eq, h.visibility.2, h.whereClause.2]
  simp only [List.append_assoc]
  rfl

/-- The struct of a builder is read with its fields. -/
theorem makes_struct {depth : Nat} (hsize : Token.sizes (p.structCode plan) < depth) {next : List Token → Bool} :
    Makes Token.AllMatch (Read.item (grammar (depth + 3))) (p.structCode plan) next fun item => ∃ s, item = .struct s ∧ p.ReadAs parts s := by
  have hattributes := structAttributes_areOfBuilder plan
  rw [h.structCode_eq plan] at hsize ⊢
  simp only [sizes_append, Token.sizes, Token.enclosed, Token.size] at hsize
  have hfields : ∀ f ∈ p.heldFields parts, Token.sizes f.code < depth := by
    intro f hf
    have hle : Token.sizes (f.tokens ++ Token.symbol ",") ≤ Token.sizes (listed ((p.heldFields parts).map HeldField.tokens)) :=
      sizes_le_flatMap (· ++ Token.symbol ",") (List.mem_map_of_mem hf)
    simp only [HeldField.tokens, sizes_append, Token.sizes] at hle
    omega
  refine Read.makes_structOf (fun a ha => (hattributes a ha).plain) h.visibility.1 fun attrs' v' hattrs' hv' => ?_
  refine (Read.makes_structWith ((rereadsBounds_grammar (depth + 1)).mono (Nat.le_succ _)) h.unit.2 h.generics h.whereClause.1
    (HeldField.makes_fields h.heldFields_arePlain hfields) (by rw [sizes_append]; omega) attrs' v').imp ?_
  rintro s - ⟨nameAt, read, hread, rfl⟩
  exact ⟨silent_of_alike (fun a ha => (hattributes a ha).silent) hattrs', hv', rfl, rfl, rfl, _, _, rfl, hread⟩

/-! ## The file -/

end MadeOf

end Pieces

end BuilderSynthesis
