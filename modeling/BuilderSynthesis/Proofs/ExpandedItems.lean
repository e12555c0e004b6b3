/-
  BuilderSynthesis.Proofs.ExpandedItems — a scan finds in an expansion what it finds in the item.

  A directive leaves its item without modifiers. What it leaves of a plain struct is read as a file with the
  same struct in it (`exists_readStruct`), and what it leaves of a plain function in a block is read as the
  same function (`exists_readFunction`). The scan therefore declares the same struct and the same
  constructor, only without modifiers and perhaps at other places, and a directive on a function changes
  nothing when its expansion is expanded again (`expansions_declare_the_same`). A where clause without
  predicates is not written and so is lost (`a_struct_with_an_empty_where_clause_is_declared_otherwise`).
-/

import BuilderSynthesis.Expansion.Directives
import BuilderSynthesis.Proofs.Rendering
import BuilderSynthesis.Proofs.StrippedItems

namespace BuilderSynthesis

open Syntax Syntax.Parser

/-! ## What is declared -/

/-- The structs among findings. -/
def declaredIn (findings : List Finding) : List DeclaredType := findings.filterMap Finding.declared?

/-- The constructors among findings. -/
def constructorsIn (findings : List Finding) : List Constructor := (findings.filterMap Finding.block?).flatMap FunctionBlock.constructors

theorem declaredIn_append (first second : List Finding) : declaredIn (first ++ second) = declaredIn first ++ declaredIn second :=
  List.filterMap_append

theorem constructorsIn_append (first second : List Finding) :
    constructorsIn (first ++ second) = constructorsIn first ++ constructorsIn second := by
  rw [constructorsIn, List.filterMap_append, List.flatMap_append]
  rfl

/-- A field without its modifiers, perhaps at another place. -/
structure FieldDecl.Stripped (f f' : FieldDecl) : Prop where
  name : f'.name = f.name
  type : f'.type = f.type
  visibility : f'.visibility = f.visibility
  modifiers : f'.modifiers = .none

/-- A parameter without its modifiers, perhaps at another place. -/
structure Parameter.Stripped (p p' : Parameter) : Prop where
  name : p'.name = p.name
  type : p'.type = p.type
  modifiers : p'.modifiers = .none

/-- A struct whose fields have no modifiers, perhaps at another place. -/
structure DeclaredType.Stripped (t t' : DeclaredType) : Prop where
  name : t'.name = t.name
  module : t'.module = t.module
  visibility : t'.visibility = t.visibility
  generics : t'.generics = t.generics
  whereClause : t'.whereClause = t.whereClause
  shape : t'.shape = t.shape
  fields : List.Forall₂ FieldDecl.Stripped t.fields t'.fields

/-- A constructor whose parameters have no modifiers, perhaps at another place. -/
structure Constructor.Stripped (c c' : Constructor) : Prop where
  kind : c'.kind = c.kind
  visibility : c'.visibility = c.visibility
  module : c'.module = c.module
  parameters : List.Forall₂ Parameter.Stripped c.parameters c'.parameters

namespace Scan

variable {file : String} {module : ModulePath}

theorem declaredIn_itemDirectives {v : Visibility} {own : DirectiveKind} {attrs : List Attribute} :
    declaredIn (itemDirectives file module v own attrs) = [] := by
  refine List.filterMap_eq_nil_iff.mpr fun f hf => ?_
  rcases itemDirectives_cases hf with ⟨d, rfl⟩ | ⟨problem, rfl⟩
  · rfl
  · rfl

theorem declaredIn_problems (problems : List Diagnostic) : declaredIn (problems.map .problem) = [] := by
  refine List.filterMap_eq_nil_iff.mpr fun f hf => ?_
  obtain ⟨problem, -, rfl⟩ := List.mem_map.mp hf
  rfl

/-- Restricted visibilities that are alike are written in the same way. -/
theorem visibilityOf_of_alike {v w : VisibilityExpr} (h : v.Alike Token.AllMatch w) : visibilityOf w = visibilityOf v := by
  cases v with
  | restricted tokens =>
    cases w with
    | restricted others => exact congrArg Visibility.restricted (printed_of_allMatch h).symm
    | _ => exact h.elim
  | _ => cases w <;> first | exact h.elim | rfl

theorem modifiers_of_none {attrs : List Attribute} (h : ∀ a ∈ attrs, isModifier a = false) : modifiers file attrs = (.none, []) := by
  have hnone : attrs.filter isModifier = [] := List.filter_eq_nil_iff.mpr fun a ha => Bool.eq_false_iff.mp (h a ha)
  rw [modifiers, hnone]
  rfl

/-! ### Structs -/

theorem declaredField_of_named {f : Field} {name : String} {pos : Position} (h : f.name = some (name, pos)) :
    declaredField file f = some (⟨name, TypeRef.ofType f.type, (modifiers file f.attributes).1, visibilityOf f.visibility, locate file pos⟩,
      (modifiers file f.attributes).2) := by
  rw [declaredField, h]
  rfl

theorem declaredField_stripped {f f' : Field} (h : f.IsPlain) (halike : (Expansion.strippedField f).Alike Token.AllMatch f') :
    ∃ d problems d' problems', declaredField file f = some (d, problems) ∧ declaredField file f' = some (d', problems') ∧ d.Stripped d' := by
  obtain ⟨name, pos, hname, -⟩ := h.named
  have hnamed : f'.name.map Prod.fst = f.name.map Prod.fst := halike.named
  rw [hname] at hnamed
  obtain ⟨⟨_, pos'⟩, hname', rfl⟩ := Option.map_eq_some_iff.mp hnamed
  refine ⟨_, _, _, _, declaredField_of_named hname, declaredField_of_named hname', rfl, ?_, ?_, ?_⟩
  · exact congrArg TypeRef.ofType halike.type
  · exact visibilityOf_of_alike halike.visibility
  · exact congrArg Prod.fst (modifiers_of_none (Expansion.withoutModifiers_of_alike halike.attributes))

theorem declaredFields_stripped {fields others : List Field} (hplain : ∀ f ∈ fields, f.IsPlain)
    (h : List.Forall₂ (Field.Alike Token.AllMatch) (fields.map Expansion.strippedField) others) :
    List.Forall₂ FieldDecl.Stripped ((fields.filterMap (declaredField file)).map Prod.fst)
      ((others.filterMap (declaredField file)).map Prod.fst) := by
  induction fields generalizing others with
  | nil =>
    cases h
    exact .nil
  | cons f rest ih =>
    cases h with
    | cons first more =>
      obtain ⟨hf, hrest⟩ := List.forall_mem_cons.mp hplain
      obtain ⟨d, problems, d', problems', hd, hd', hstripped⟩ := declaredField_stripped hf first
      rw [List.filterMap_cons_some hd, List.filterMap_cons_some hd']
      exact .cons hstripped (ih hrest more)

/-- A struct with named fields is declared with them. -/
theorem declaredIn_structFindings {s : StructItem} {fields : List Field} {trailing : Bool} (h : s.fields = .named fields trailing) :
    declaredIn (structFindings file module s) = [{
      name := s.name
      module
      visibility := visibilityOf s.visibility
      generics := if s.generics.parameters.isEmpty then none else some (printed s.generics.tokens)
      whereClause := s.whereClause.map fun clause => printed clause.tokens
      shape := .named
      fields := (fields.filterMap (declaredField file)).map Prod.fst
      location := locate file s.nameAt }] := by
  rw [structFindings, h, declaredIn_append, declaredIn_append, declaredIn_itemDirectives, declaredIn_problems]
  rfl

theorem declared_stripped {s s' : StructItem} (h : s.IsPlain) (halike : (Expansion.strippedStruct s).Alike Token.AllMatch s') :
    ∃ t t', declaredIn (structFindings file module s) = [t] ∧ declaredIn (structFindings file module s') = [t'] ∧ t.Stripped t' := by
  obtain ⟨fields, trailing, hfields, -, hplain⟩ := h.fields
  obtain ⟨stripped, others, comma, hstripped, hothers, hall⟩ := halike.fields
  obtain ⟨rfl, rfl⟩ : fields.map Expansion.strippedField = stripped ∧ trailing = comma := by
    rw [Expansion.strippedStruct, hfields] at hstripped
    cases hstripped
    exact ⟨rfl, rfl⟩
  refine ⟨_, _, declaredIn_structFindings hfields, declaredIn_structFindings hothers, ?_⟩
  exact {
    name := halike.name
    module := rfl
    visibility := visibilityOf_of_alike halike.visibility
    generics := congrArg (fun g : Generics => if g.parameters.isEmpty then none else some (printed g.tokens)) halike.generics
    whereClause := congrArg (Option.map fun clause => printed clause.tokens) halike.whereClause
    shape := rfl
    fields := declaredFields_stripped hplain hall }

/-! ### Constructors -/

theorem constructorParameters_typed {attributes : List Attribute} {name : String} {pos : Position} {tokens : List Token} {type : TypeExpr}
    {rest : List FunctionInput} {ps : List Parameter} {problems : List Diagnostic}
    (h : constructorParameters file rest = (.ok ps, problems)) :
    constructorParameters file (.typed attributes (.binding name pos false false) tokens type :: rest) =
      (.ok (⟨name, TypeRef.ofType type, (modifiers file attributes).1, locate file pos⟩ :: ps), (modifiers file attributes).2 ++ problems) := by
  rw [constructorParameters, h]
  rfl

theorem constructorParameters_stripped {inputs others : List FunctionInput} (hplain : ∀ i ∈ inputs, i.IsPlain)
    (h : List.Forall₂ (FunctionInput.Alike Token.AllMatch) (inputs.map Expansion.strippedInput) others) :
    ∃ ps problems ps' problems', constructorParameters file inputs = (.ok ps, problems) ∧
      constructorParameters file others = (.ok ps', problems') ∧ List.Forall₂ Parameter.Stripped ps ps' := by
  induction inputs generalizing others with
  | nil =>
    cases h
    exact ⟨[], [], [], [], rfl, rfl, .nil⟩
  | cons i rest ih =>
    obtain ⟨hi, hrest⟩ := List.forall_mem_cons.mp hplain
    rw [List.map_cons] at h
    cases h with
    | cons first more =>
      obtain ⟨ps, problems, ps', problems', hps, hps', hall⟩ := ih hrest more
      obtain ⟨plain, free, plainType, proper⟩ := hi
      cases first with
      | typed attrs written =>
        refine ⟨_, _, _, _, constructorParameters_typed hps, constructorParameters_typed hps', .cons ⟨rfl, rfl, ?_⟩ hall⟩
        exact congrArg Prod.fst (modifiers_of_none (Expansion.withoutModifiers_of_alike attrs))

theorem receiver?_of_isPlain {s : Signature} (h : ∀ i ∈ s.inputs, i.IsPlain) : s.receiver? = none := by
  unfold Signature.receiver?
  split
  · rename_i reference mutable tokens rest hs
    cases h _ (hs ▸ List.mem_cons_self)
  · rfl

theorem receiver?_of_alike {s s' : Signature} (h : s.Alike Token.AllMatch s') : s'.receiver? = none := by
  unfold Signature.receiver?
  split
  · rename_i reference mutable tokens rest hs
    have hinputs := h.inputs
    rw [hs] at hinputs
    generalize s.inputs = inputs at hinputs
    cases hinputs with
    | cons first more => cases first
  · rfl

/-- What is a constructor is one without its modifiers. -/
theorem candidate_stripped {typeName : String} {f f' : FunctionItem} (h : f.IsPlain)
    (halike : (Expansion.strippedFunction f).Alike Token.AllMatch f') {c : Constructor}
    (hc : (candidate file module typeName f).1 = .constructor c) :
    ∃ c', (candidate file module typeName f').1 = .constructor c' ∧ c.Stripped c' := by
  have hsignature := halike.signature
  obtain ⟨ps, problems, ps', problems', hps, hps', hall⟩ : ∃ ps problems ps' problems',
      constructorParameters file f.signature.inputs = (.ok ps, problems) ∧
        constructorParameters file f'.signature.inputs = (.ok ps', problems') ∧ List.Forall₂ Parameter.Stripped ps ps' :=
    constructorParameters_stripped h.signature.inputs hsignature.inputs
  have hreturns : returnsType f'.signature typeName = returnsType f.signature typeName :=
    congrArg (Option.any (namesType · typeName)) hsignature.output
  have hasync : f'.signature.isAsync = f.signature.isAsync := hsignature.isAsync
  have hunsafe : f'.signature.isUnsafe = f.signature.isUnsafe := hsignature.isUnsafe
  have hgenerics : f'.signature.generics = f.signature.generics := hsignature.generics
  unfold candidate at hc ⊢
  dsimp only at hc ⊢
  rw [receiver?_of_isPlain h.signature.inputs, hps] at hc
  rw [receiver?_of_alike hsignature, hreturns, hasync, hunsafe, hgenerics, hps']
  split at hc
  · cases hc
  rename_i hother
  split at hc
  · cases hc
  rename_i hcallable
  split at hc
  · cases hc
  rename_i hgeneric
  cases hc
  rw [if_neg hother, if_neg hcallable, if_neg hgeneric]
  refine ⟨_, rfl, ?_⟩
  exact ⟨congrArg ConstructorKind.function hsignature.name, visibilityOf_of_alike halike.visibility, rfl, hall⟩

/-! ### Blocks -/

theorem constructorsIn_of_none {findings : List Finding} (h : ∀ b, .block b ∉ findings) : constructorsIn findings = [] := by
  have hblocks : findings.filterMap Finding.block? = [] := List.filterMap_eq_nil_iff.mpr fun f hf => by
    cases f with
    | block b => exact absurd hf (h b)
    | _ => rfl
  rw [constructorsIn, hblocks]
  rfl

theorem constructorsIn_block (b : FunctionBlock) : constructorsIn [.block b] = b.constructors := List.append_nil _

theorem constructorsIn_untyped (f : FunctionItem) : constructorsIn (blockFindings file module none [f]) = [] := by
  show constructorsIn ((functionFindings file module none f).2 ++ []) = []
  rw [List.append_nil]
  exact constructorsIn_of_none fun _ => block_not_mem_functionFindings

/-- A block of one function of a type gives it as a constructor if it is one. -/
theorem constructorsIn_typed (name : String) (f : FunctionItem) :
    constructorsIn (blockFindings file module (some name) [f]) =
      match (candidate file module name f).1 with
      | .constructor c => [c]
      | _ => [] := by
  show constructorsIn (((functionFindings file module (some name) f).2 ++ []) ++ [Finding.block _]) = _
  rw [constructorsIn_append, List.append_nil, constructorsIn_of_none fun _ => block_not_mem_functionFindings, constructorsIn_block,
    List.nil_append, List.map_cons, List.map_nil, List.filterMap_cons, List.filterMap_nil]
  dsimp only
  rw [show (functionFindings file module (some name) f).1 = (candidate file module name f).1 from rfl]
  cases (candidate file module name f).1 <;> rfl

/-- The constructor in a block of one function is there without its modifiers too. -/
theorem constructors_stripped {typeName : Option String} {f f' : FunctionItem} (h : f.IsPlain)
    (halike : (Expansion.strippedFunction f).Alike Token.AllMatch f') {c : Constructor}
    (hc : constructorsIn (blockFindings file module typeName [f]) = [c]) :
    ∃ c', constructorsIn (blockFindings file module typeName [f']) = [c'] ∧ c.Stripped c' := by
  cases typeName with
  | none =>
    rw [constructorsIn_untyped] at hc
    cases hc
  | some name =>
    rw [constructorsIn_typed] at hc
    cases hcandidate : (candidate file module name f).1 with
    | constructor found =>
      rw [hcandidate] at hc
      cases hc
      obtain ⟨c', hc', hstripped⟩ := candidate_stripped h halike hcandidate
      exact ⟨c', by rw [constructorsIn_typed, hc'], hstripped⟩
    | _ =>
      rw [hcandidate] at hc
      cases hc

theorem constructorsIn_functions {attributes : List Attribute} {ofTrait : Bool} {subject : TypeExpr} {functions : List FunctionItem} :
    constructorsIn (itemFindings file module (.functions attributes ofTrait subject functions)) =
      constructorsIn (blockFindings file module (blockName? ofTrait subject) functions) := by
  rw [itemFindings, constructorsIn_append, constructorsIn_of_none fun _ => block_not_mem_itemDirectives]
  rfl

/-- The findings in a file of the given tokens. -/
def tokenFindings (root : Nat) (dir file : String) (ts : List Token) : List Finding :=
  findingsIn root dir file ((readTokens Read.file ts .start).map (·.1))

theorem declaredIn_tokenFindings {root : Nat} {dir : String} {ts written : List Token} {items : List Item}
    (h : readTokens Read.file ts .start = .ok (items, written)) :
    declaredIn (tokenFindings root dir file ts) = declaredIn (itemsFindings file ⟨root, Discovery.moduleSegments dir file⟩ items) := by
  rw [tokenFindings, h]
  rfl

theorem constructorsIn_tokenFindings {root : Nat} {dir : String} {ts written : List Token} {items : List Item}
    (h : readTokens Read.file ts .start = .ok (items, written)) :
    constructorsIn (tokenFindings root dir file ts) = constructorsIn (itemsFindings file ⟨root, Discovery.moduleSegments dir file⟩ items) := by
  rw [tokenFindings, h]
  rfl

end Scan

/-! ## Expansions are read again -/

namespace Syntax

/-- Items that are read by themselves are read one after the other in a file. -/
theorem exists_readFile (parts : List (List Token × (Item → Prop))) {ts : List Token} (hts : parts.flatMap Prod.fst = ts)
    (hitem : ∀ part ∈ parts, Makes Token.AllMatch (grammarFor ts).item part.1 (fun _ => true) part.2)
    (hne : ∀ part ∈ parts, part.1 ≠ []) (hstart : ∀ {us}, Token.AllMatch ts us → Read.endsInnerAttributes us = true) :
    ∃ items written, readTokens Read.file ts .start = .ok (items, written) ∧ List.Forall₂ (fun part item => part.2 item) parts items := by
  subst hts
  exact exists_readTokens (Read.makes_file hitem hne hstart) (Token.Likeness.refl _) .start

theorem grammar_item (depth : Nat) : (grammar (depth + 1)).item = Read.item (grammar depth) := by rfl

theorem grammarFor_item (ts : List Token) : (grammarFor ts).item = Read.item (grammar (4 * Token.sizes ts + 4 + 3)) :=
  grammar_item (4 * Token.sizes ts + 4 + 3)

/-- A plain struct with the inclusion of a builder behind it is read as a file. -/
theorem exists_readStruct {s : StructItem} (h : s.IsPlain) (unit : String) :
    ∃ s' written, readTokens Read.file (s.tokens ++ Expansion.inclusion unit) .start = .ok ([.struct s', .plain], written) ∧
      s.Alike Token.AllMatch s' := by
  obtain ⟨fields, trailing, hfields, -⟩ := h.fields
  have htokens := StructItem.tokens_of_named hfields
  have hinclusion : Expansion.inclusion unit = (PathExpr.ofNames true ["buildergen", "include_builder"]).tokens ++
      (Token.symbol "!" ++ (.group .parenthesis (Fragment.words [unit]) .start .start :: Token.symbol ";")) := rfl
  have hstruct : Makes Token.AllMatch (grammarFor (s.tokens ++ Expansion.inclusion unit)).item s.tokens (fun _ => true)
      fun read => ∃ s', read = .struct s' ∧ s.Alike Token.AllMatch s' := by
    rw [grammarFor_item]
    refine Read.makes_struct (rereadsFunctions_grammar _).bounds h ?_
    rw [sizes_append]
    omega
  have hmacro : Makes Token.AllMatch (grammarFor (s.tokens ++ Expansion.inclusion unit)).item (Expansion.inclusion unit) (fun _ => true)
      (· = .plain) := by
    rw [grammarFor_item, hinclusion]
    refine Read.makes_invocation (by decide) ?_
    unfold IsPlainName
    decide
  have hnonempty : s.tokens ≠ [] := by
    rw [htokens]
    simp
  have hstart : ∀ {us}, Token.AllMatch (s.tokens ++ Expansion.inclusion unit) us → Read.endsInnerAttributes us = true := by
    intro us hu
    rw [htokens] at hu
    obtain ⟨vs, ws, rfl, hv, -⟩ := Token.Likeness.of_append hu
    exact Read.endsInnerAttributes_of_visible h.attributes h.visibility hv.1
  obtain ⟨items, written, hread, hall⟩ := exists_readFile
    [(s.tokens, fun read => ∃ s', read = .struct s' ∧ s.Alike Token.AllMatch s'), (Expansion.inclusion unit, (· = .plain))]
    (by simp : _ = s.tokens ++ Expansion.inclusion unit) (List.forall_mem_cons.mpr ⟨hstruct, List.forall_mem_singleton.mpr hmacro⟩)
    (List.forall_mem_cons.mpr ⟨hnonempty, List.forall_mem_singleton.mpr (hinclusion ▸ nofun)⟩) hstart
  cases hall with
  | cons first rest =>
    obtain ⟨s', rfl, hs'⟩ := first
    cases rest with
    | cons second none =>
      cases none
      obtain rfl := second
      exact ⟨s', written, hread, hs'⟩

/-- A plain function in a block is read as one in a file. -/
theorem exists_readFunction {header : BlockHeader} (hheader : header.IsPlain) {f : FunctionItem} (h : f.IsPlain) :
    ∃ attributes f' written, readTokens Read.file (header.around f.tokens) .start =
        .ok ([.functions attributes header.ofTrait.isSome (.path header.subject) [f']], written) ∧ f.Alike Token.AllMatch f' := by
  have hblock : Makes Token.AllMatch (grammarFor (header.around f.tokens)).item (header.around f.tokens) (fun _ => true) fun read =>
      ∃ attributes' functions', read = .functions attributes' header.ofTrait.isSome (.path header.subject) functions' ∧
        List.Forall₂ (FunctionItem.Alike Token.AllMatch) [f] functions' := by
    have hr := rereadsFunctions_grammar (4 * Token.sizes (header.around f.tokens) + 4)
    have hread := @Read.makes_functions _ _ hr [] nofun header hheader [f]
      (List.forall_mem_singleton.mpr h)
    rw [List.flatMap_cons, List.flatMap_nil, List.append_nil] at hread
    rw [grammarFor_item]
    exact hread (by omega)
  obtain ⟨items, written, hread, hall⟩ := exists_readFile [(header.around f.tokens, _)] (List.append_nil _)
    (List.forall_mem_singleton.mpr hblock) (List.forall_mem_singleton.mpr nofun) fun hu => by
      obtain ⟨pos, vs, rfl, -⟩ := Token.AllMatch.of_ident hu
      rfl
  cases hall with
  | cons first none =>
    cases none
    obtain ⟨attributes, functions, rfl, hfunctions⟩ := first
    cases hfunctions with
    | cons hf none =>
      cases none
      exact ⟨attributes, _, written, hread, hf⟩

end Syntax

/-! ## Expansions -/

/-- What a directive on a function reads in its item. -/
inductive ReadsFunction (item : List Token) (f : FunctionItem) : DirectiveForm → Prop where
  | builder {written : List Token} (read : readTokens Read.item item .start = .ok (.function f, written)) : ReadsFunction item f .builder
  | constructor {written : List Token} (read : readTokens Read.blockFunction item .start = .ok (f, written)) :
      ReadsFunction item f .constructor

namespace ReadsFunction

variable {item : List Token} {f : FunctionItem} {form : DirectiveForm}

/-- The function stays, without modifiers. -/
theorem expand_eq (h : ReadsFunction item f form) (closesAt : Position) :
    Expansion.expand form [] closesAt item = (Expansion.strippedFunction f).tokens := by
  cases h with
  | builder read =>
    show Expansion.onItem item = _
    rw [Expansion.onItem, read]
  | constructor read =>
    show Expansion.onConstructor item = _
    rw [Expansion.onConstructor, read]

/-- What stays is read as a function again. -/
theorem again (h : ReadsFunction item f form) (hplain : f.IsPlain) :
    ∃ f', (Expansion.strippedFunction f).Alike Token.AllMatch f' ∧ ReadsFunction (Expansion.strippedFunction f).tokens f' form := by
  have hr := rereadsFunctions_grammar (4 * Token.sizes (Expansion.strippedFunction f).tokens + 5)
  have hstripped := Expansion.isPlain_strippedFunction hplain
  cases h with
  | builder read =>
    obtain ⟨after, hread, -⟩ := onTokens_eq_ok read
    have hdefault : f.isDefault = false := Read.isDefault_of_item _ hread
    have hmakes : Makes Token.AllMatch (Read.item (grammarFor (Expansion.strippedFunction f).tokens)) (Expansion.strippedFunction f).tokens
        List.isEmpty fun read => ∃ f', read = .function f' ∧ (Expansion.strippedFunction f).Alike Token.AllMatch f' :=
      Read.makes_function hr hstripped hdefault (by omega)
    obtain ⟨_, written, hagain, f', rfl, hf'⟩ := exists_readTokens hmakes (Token.Likeness.refl _) .start
    exact ⟨f', hf', .builder hagain⟩
  | constructor read =>
    have hmakes : Makes Token.AllMatch (Read.blockFunction (grammarFor (Expansion.strippedFunction f).tokens))
        (Expansion.strippedFunction f).tokens List.isEmpty ((Expansion.strippedFunction f).Alike Token.AllMatch) :=
      Read.makes_blockFunction hr hstripped (by omega)
    obtain ⟨f', written, hagain, hf'⟩ := exists_readTokens hmakes (Token.Likeness.refl _) .start
    exact ⟨f', hf', .constructor hagain⟩

end ReadsFunction

/-- The struct stays, without modifiers, and its builder is taken in behind it. -/
theorem Expansion.expand_struct {item written : List Token} {s : StructItem} {unit : String}
    (hread : readTokens Read.item item .start = .ok (.struct s, written)) (hnamed : s.fields.isNamed = true)
    (hunit : unitName s.name Request.defaultSuffix = .ok unit) (closesAt : Position) :
    expand .builder [] closesAt item = (strippedStruct s).tokens ++ inclusion unit := by
  show onItem item = _
  rw [onItem, hread]
  dsimp only
  rw [if_pos hnamed, inclusionFor, hunit]

/-- Scanning what a directive leaves of a plain item finds the same struct, or the same constructor, without modifiers, and a directive
on a function leaves nothing to be taken away from it. -/
theorem expansions_declare_the_same (root : Nat) (dir file : String) (closesAt : Position) :
    (∀ {item written : List Token} {s : StructItem} {unit : String}, readTokens Read.item item .start = .ok (.struct s, written) →
        s.IsPlain → Expansion.unitName s.name Request.defaultSuffix = .ok unit →
      ∃ t t', declaredIn (Scan.itemFindings file ⟨root, Discovery.moduleSegments dir file⟩ (.struct s)) = [t] ∧
        declaredIn (Scan.tokenFindings root dir file (Expansion.expand .builder [] closesAt item)) = [t'] ∧ t.Stripped t') ∧
    ∀ {form : DirectiveForm} {item : List Token} {f : FunctionItem}, ReadsFunction item f form → f.IsPlain →
      (∀ {header : BlockHeader} {c : Constructor}, header.IsPlain → header.ofTrait = none →
          constructorsIn (Scan.itemFindings file ⟨root, Discovery.moduleSegments dir file⟩ (.functions [] false (.path header.subject) [f])) = [c] →
        ∃ c', constructorsIn (Scan.tokenFindings root dir file (header.around (Expansion.expand form [] closesAt item))) = [c'] ∧
          c.Stripped c') ∧
      Token.AllMatch (Expansion.expand form [] closesAt item)
        (Expansion.expand form [] closesAt (Expansion.expand form [] closesAt item)) := by
  constructor
  · intro item written s unit hread hplain hunit
    have hnamed : s.fields.isNamed = true := by
      obtain ⟨fields, trailing, hfields, -⟩ := hplain.fields
      rw [hfields]
      rfl
    obtain ⟨s', written', hagain, halike⟩ := exists_readStruct (Expansion.isPlain_strippedStruct hplain) unit
    obtain ⟨t, t', ht, ht', hstripped⟩ := Scan.declared_stripped hplain halike
    refine ⟨t, t', ht, ?_, hstripped⟩
    rw [Expansion.expand_struct hread hnamed hunit, Scan.declaredIn_tokenFindings hagain]
    show declaredIn (Scan.structFindings _ _ s' ++ ([] ++ [])) = _
    rw [declaredIn_append, ht']
    rfl
  · intro form item f hread hplain
    constructor
    · intro header c hheader hinherent hc
      obtain ⟨attributes, f', written, hagain, halike⟩ := exists_readFunction hheader (Expansion.isPlain_strippedFunction hplain)
      rw [Scan.constructorsIn_functions] at hc
      obtain ⟨c', hc', hstripped⟩ := Scan.constructors_stripped hplain halike hc
      refine ⟨c', ?_, hstripped⟩
      rw [hread.expand_eq, Scan.constructorsIn_tokenFindings hagain]
      show constructorsIn (Scan.itemFindings _ _ _ ++ []) = _
      rw [List.append_nil, Scan.constructorsIn_functions, hinherent]
      exact hc'
    · obtain ⟨f', halike, hagain⟩ := hread.again hplain
      rw [hread.expand_eq, hagain.expand_eq, Expansion.strippedFunction_of_alike halike]
      exact halike.like_tokens

/-! ### Pairs -/

namespace ExpandedPair

open SourceTree

/-- `#[builder(mutable)]` -/
def mutableMark : Attribute :=
  let content := [Token.word "builder", .enclosed .parenthesis [Token.word "mutable"]]
  ⟨.start, false, ⟨false, [⟨"builder", .none⟩]⟩, .start, .list [Token.word "mutable"] .start, content⟩

/-- `pub struct Pair<T> where T: Clone { a: T, #[builder(mutable)] b: T }` -/
def pair : StructItem :=
  let field (name : String) (attributes : List Attribute) : Field := ⟨attributes, .inherited, some (name, .start), .path pathT⟩
  ⟨[], .everywhere, "Pair", .start, parameterT, some cloneT, .named [field "a" [], field "b" [mutableMark]] false⟩

/-- `pub fn new(a: T, #[builder(mutable)] b: T) -> Self {}` -/
def new : FunctionItem :=
  let input (name : String) (attributes : List Attribute) : FunctionInput :=
    .typed attributes (.binding name .start false false) (bindingTokens false name) (.path pathT)
  { attributes := []
    visibility := .everywhere
    isDefault := false
    signature :=
      { isAsync := false, isUnsafe := false, name := "new", nameAt := .start, generics := .empty
        inputs := [input "a" [], input "b" [mutableMark]], trailing := false, variadic := []
        output := some (.path (.ofNames false ["Self"])), whereClause := none, qualifiers := [] }
    innerAttributes := []
    body := [] }

/-- `impl<T> Pair<T> where T: Clone` -/
def block : BlockHeader := ⟨parameterT, none, ⟨false, [⟨"Pair", .angled false [.type (.path pathT)] false⟩]⟩, some cloneT⟩

theorem mutableMark_isPlain : mutableMark.IsPlain false where
  placed := rfl
  path := ⟨false, ["builder"], nofun, by unfold IsPlainName; decide, rfl⟩
  content := ⟨_, .list .parenthesis [Token.word "mutable"] .start .start, rfl⟩

theorem attributes_isPlain : ∀ a ∈ [mutableMark], a.IsPlain false := List.forall_mem_singleton.mpr mutableMark_isPlain

theorem pathT_proper : pathT.Proper := ⟨nofun, by decide, rfl, nofun, trivial, trivial⟩

theorem pair_isPlain : pair.IsPlain where
  attributes := nofun
  visibility := trivial
  name := by decide
  generics := parameterT_isPlain
  whereClause _ h := Option.some.inj h ▸ cloneT_isPlain
  fields := by
    refine ⟨_, _, rfl, nofun, List.forall_mem_cons.mpr ⟨?_, List.forall_mem_singleton.mpr ?_⟩⟩
    · exact ⟨nofun, trivial, ⟨"a", .start, rfl, by decide⟩, rfl, pathT_proper⟩
    · exact ⟨attributes_isPlain, trivial, ⟨"b", .start, rfl, by decide⟩, rfl, pathT_proper⟩

theorem new_isPlain : new.IsPlain where
  attributes := nofun
  visibility := trivial
  signature :=
    { qualifiers := ⟨⟨false, false, false, none⟩, nofun, rfl, rfl, rfl⟩
      name := by decide
      generics := ⟨nofun, rfl, fun _ => rfl⟩
      inputs := List.forall_mem_cons.mpr ⟨.typed nofun (by decide) rfl pathT_proper,
        List.forall_mem_singleton.mpr (.typed attributes_isPlain (by decide) rfl pathT_proper)⟩
      ended := nofun
      fixed := rfl
      output := fun _ h => Option.some.inj h ▸ ⟨rfl, nofun, by decide, rfl, nofun, trivial, trivial⟩
      whereClause := nofun }
  innerAttributes := nofun
  body := .nil

theorem block_isPlain : block.IsPlain where
  generics := parameterT_isPlain
  ofTrait := nofun
  subject := ⟨rfl, nofun, by decide, rfl, fun _ => rfl, ⟨nofun, pathT_proper, trivial⟩, trivial⟩
  whereClause _ h := Option.some.inj h ▸ cloneT_isPlain

set_option maxRecDepth 100000 in
theorem exists_readPair : ∃ written, readTokens Read.item pair.tokens .start = .ok (.struct pair, written) := ⟨_, rfl⟩

set_option maxRecDepth 100000 in
theorem readsFunction_new : ReadsFunction new.tokens new .constructor := .constructor rfl

theorem unitName_pair : Expansion.unitName "Pair" Request.defaultSuffix = .ok "PairBuilder" := by
  have hread : readIdentifier ("Pair" ++ Request.defaultSuffix) = .ok "PairBuilder" :=
    readIdentifier_of_isFree ⟨by decide, by decide⟩
  rw [Expansion.unitName, hread]

end ExpandedPair

open ExpandedPair in
theorem expansions_declare_the_same_for_a_pair :
    (∃ t t', declaredIn (Scan.itemFindings "lib.rs" ⟨0, Discovery.moduleSegments "" "lib.rs"⟩ (.struct pair)) = [t] ∧
      declaredIn (Scan.tokenFindings 0 "" "lib.rs" (Expansion.expand .builder [] .start pair.tokens)) = [t'] ∧ t.Stripped t') ∧
    (∃ c c', constructorsIn (Scan.itemFindings "lib.rs" ⟨0, Discovery.moduleSegments "" "lib.rs"⟩
        (.functions [] false (.path block.subject) [new])) = [c] ∧
      constructorsIn (Scan.tokenFindings 0 "" "lib.rs" (block.around (Expansion.expand .constructor [] .start new.tokens))) = [c'] ∧
      c.Stripped c') ∧
    Token.AllMatch (Expansion.expand .constructor [] .start new.tokens)
      (Expansion.expand .constructor [] .start (Expansion.expand .constructor [] .start new.tokens)) := by
  obtain ⟨hstructs, hfunctions⟩ := expansions_declare_the_same 0 "" "lib.rs" .start
  obtain ⟨written, hread⟩ := exists_readPair
  obtain ⟨hconstructors, hagain⟩ := hfunctions readsFunction_new new_isPlain
  obtain ⟨c, hc⟩ : ∃ c, constructorsIn (Scan.itemFindings "lib.rs" ⟨0, Discovery.moduleSegments "" "lib.rs"⟩
    (.functions [] false (.path block.subject) [new])) = [c] := ⟨_, rfl⟩
  obtain ⟨c', hc'⟩ := hconstructors block_isPlain rfl hc
  exact ⟨hstructs hread pair_isPlain unitName_pair, ⟨c, c', hc, hc'⟩, hagain⟩

namespace ExpandedPair

/-- `pub struct Pair where { a: u8 }` -/
def unbounded : List Token :=
  [Token.word "pub", Token.word "struct", Token.word "Pair", Token.word "where",
    .enclosed .brace (Token.word "a" :: (Token.symbol ":" ++ [Token.word "u8"]))]

def unboundedPair : StructItem :=
  ⟨[], .everywhere, "Pair", .start, .empty, some ⟨[], false⟩,
    .named [⟨[], .inherited, some ("a", .start), .path (.ofNames false ["u8"])⟩] false⟩

set_option maxRecDepth 100000 in
theorem exists_readUnbounded : ∃ written, readTokens Read.item unbounded .start = .ok (.struct unboundedPair, written) := ⟨_, rfl⟩

set_option maxRecDepth 100000 in
theorem whereClauses_of_unbounded :
    (declaredIn (Scan.itemFindings "lib.rs" ⟨0, Discovery.moduleSegments "" "lib.rs"⟩ (.struct unboundedPair))).map
        DeclaredType.whereClause = [some ""] ∧
      (declaredIn (Scan.tokenFindings 0 "" "lib.rs" (Expansion.expand .builder [] .start unbounded))).map
        DeclaredType.whereClause = [none] := by
  decide +kernel

end ExpandedPair

open ExpandedPair in
/-- A where clause without predicates is declared as an empty text, but it is not written in the expansion, and nothing is declared there. -/
theorem a_struct_with_an_empty_where_clause_is_declared_otherwise :
    ∃ s written unit, readTokens Read.item unbounded .start = .ok (.struct s, written) ∧
      Expansion.unitName s.name Request.defaultSuffix = .ok unit ∧
      ¬∃ t t', declaredIn (Scan.itemFindings "lib.rs" ⟨0, Discovery.moduleSegments "" "lib.rs"⟩ (.struct s)) = [t] ∧
        declaredIn (Scan.tokenFindings 0 "" "lib.rs" (Expansion.expand .builder [] .start unbounded)) = [t'] ∧ t.Stripped t' := by
  obtain ⟨written, hread⟩ := exists_readUnbounded
  refine ⟨unboundedPair, written, "PairBuilder", hread, unitName_pair, ?_⟩
  rintro ⟨t, t', ht, ht', hstripped⟩
  obtain ⟨hsome, hnone⟩ := whereClauses_of_unbounded
  rw [ht] at hsome
  rw [ht'] at hnone
  have hclause : t'.whereClause = t.whereClause := hstripped.whereClause
  rw [List.head_eq_of_cons_eq hsome, List.head_eq_of_cons_eq hnone] at hclause
  cases hclause

end BuilderSynthesis
