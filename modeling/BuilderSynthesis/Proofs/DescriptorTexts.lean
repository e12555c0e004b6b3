/-
  BuilderSynthesis.Proofs.DescriptorTexts — the types that write descriptors.

  The text of a descriptor is put together from the texts of its parts, so it is a type of its own,
  with a blank behind each comma and without what the declared type had besides. `Descriptor.Writes` says
  which argument writes which descriptor. The text then spells the argument (`Writes.spells`), the argument
  is plain (`Writes.readable`), and what it declares is seen with the same text and mark (`Writes.seen`).
-/

import Mathlib.Data.List.Forall2
import BuilderSynthesis.Proofs.PrintedTypes
import BuilderSynthesis.Descriptor.Basic

namespace BuilderSynthesis

namespace Syntax

open BuilderSynthesis.Syntax.Parser

/-! ## Spelling the parts of a type -/

theorem spells_marks {cs rest : List Char} {ts : List Token} (h : ∀ c ∈ cs, isPlainMark c = true ∧ c ≠ '\'')
    (hrest : Spells rest ts) : Spells (cs ++ rest) (Token.marks cs ++ ts) := by
  induction cs with
  | nil => exact hrest
  | cons c more ih =>
    obtain ⟨hc, hne⟩ := h c List.mem_cons_self
    have hmore := ih fun d hd => h d (List.mem_cons_of_mem _ hd)
    cases more with
    | nil => exact .mark hc hne (fun hj => by cases hj) hmore
    | cons d others =>
      obtain ⟨hd, -⟩ := h d (List.mem_cons_of_mem _ List.mem_cons_self)
      exact .mark hc hne (fun _ => hd) hmore

theorem spells_symbol (operator : String) {rest : List Char} {ts : List Token}
    (h : (operator.toList.all fun c => isPlainMark c && c != '\'') = true) (hrest : Spells rest ts) :
    Spells (operator.toList ++ rest) (Token.symbol operator ++ ts) :=
  spells_marks (fun c hc => by simpa using List.all_eq_true.mp h c hc) hrest

theorem spells_lifetime {name : String} (h : IsLifetime name) {rest : List Char} {ts : List Token}
    (ends : endsLexeme rest = true) (hrest : Spells rest ts) : Spells (name.toList ++ rest) (Token.lifetime name ++ ts) := by
  obtain ⟨letters, rfl, hl⟩ := h
  rw [lifetime_tokens, String.toList_append]
  exact .lifetime hl ends hrest

theorem joinTokens_cons_of_ne_nil {separator : List Token} {trailing : Bool} (part : List Token) {parts : List (List Token)}
    (h : parts ≠ []) : joinTokens separator trailing (part :: parts) = part ++ (separator ++ joinTokens separator trailing parts) := by
  obtain ⟨next, rest, rfl⟩ := List.exists_cons_of_ne_nil h
  exact List.append_assoc ..

/-- Names with separators between them, and what comes after the last one. -/
theorem spells_names {names : List String} {last : String} {arguments : Arguments} {rest : List Char}
    (hnames : ∀ name ∈ names, IsIdentifier name) (hlast : IsIdentifier last) (ends : endsLexeme rest = true)
    (hrest : Spells rest arguments.tokens) :
    Spells (("::".intercalate (names ++ [last])).toList ++ rest)
      (joinTokens (Token.symbol "::") false (Segment.tokensOfAll (names.map (Segment.mk · .none) ++ [.mk last arguments]))) := by
  induction names with
  | nil =>
    have hend : joinTokens (Token.symbol "::") false (Segment.tokensOfAll [.mk last arguments]) =
        Token.word last :: arguments.tokens := List.append_nil _
    rw [List.nil_append, String.intercalate_singleton, List.map_nil, List.nil_append, hend]
    exact .word hlast ends hrest
  | cons name others ih =>
    have hmore := ih fun found hf => hnames found (List.mem_cons_of_mem _ hf)
    have hne : others ++ [last] ≠ [] := List.append_ne_nil_of_right_ne_nil _ (List.cons_ne_nil _ _)
    have hsegments : Segment.tokensOfAll (others.map (Segment.mk · .none) ++ [.mk last arguments]) ≠ [] := by
      rw [Segment.tokensOfAll_eq_map]
      simp
    rw [List.cons_append, String.intercalate_cons_of_ne_nil hne, List.map_cons, List.cons_append, Segment.tokensOfAll,
      joinTokens_cons_of_ne_nil _ hsegments, String.toList_append, String.toList_append, List.append_assoc, List.append_assoc]
    exact .word (hnames name List.mem_cons_self) rfl (spells_symbol "::" (by decide) hmore)

theorem spells_brackets {inner : List Char} {content : List Token} (h : Spells inner content) :
    Spells ("[".toList ++ (inner ++ "]".toList)) [Token.enclosed .bracket content] := by
  have hgroup : Spells (Delimiter.bracket.opening :: (inner ++ Delimiter.bracket.closing :: [])) [Token.enclosed .bracket content] :=
    .group h .nil
  exact hgroup

/-- Texts with a comma and a blank between them. -/
theorem spells_commas {texts : List String} {parts : List (List Token)}
    (h : List.Forall₂ (fun text part => Spells text.toList part) texts parts) :
    Spells (", ".intercalate texts).toList (commas false parts) := by
  induction h with
  | nil => exact .nil
  | @cons text part texts parts hfirst hrest ih =>
    cases hrest with
    | nil =>
      have hone : commas false [part] = part := List.append_nil part
      rw [String.intercalate_singleton, hone]
      exact hfirst
    | cons hnext hmore =>
      rw [String.intercalate_cons_cons, String.toList_append, String.toList_append, List.append_assoc,
        commas_cons fun h => absurd h (List.cons_ne_nil _ _)]
      refine hfirst.append ?_ rfl
      exact .mark (by decide) (by decide) (fun hj => by cases hj) (.blank ih)

end Syntax

open Syntax

/-! ## Paths with arguments at their end -/

/-- A path whose last name has arguments. -/
def pathOf (leading : Bool) (names : List String) (last : String) (arguments : Arguments) : PathExpr :=
  .mk leading (names.map (Segment.mk · .none) ++ [.mk last arguments])

/-- The path as text, without the arguments. -/
def pathText (leading : Bool) (names : List String) (last : String) : String :=
  (if leading then "::" else "") ++ "::".intercalate (names ++ [last])

theorem isOfPlain_pathOf {leading : Bool} {names : List String} {last : String} {arguments : Arguments} :
    (pathOf leading names last arguments).isOfPlain = true ↔
      (∀ name ∈ names, name ≠ "try") ∧ last ≠ "try" ∧ arguments.areOfPlain = true := by
  have hsegments : Segment.allOfPlain (names.map (Segment.mk · .none) ++ [.mk last arguments]) = true ↔
      (∀ name ∈ names, name ≠ "try") ∧ last ≠ "try" ∧ arguments.areOfPlain = true := by
    induction names with
    | nil => simp [Segment.allOfPlain]
    | cons name rest ih =>
      rw [List.map_cons, List.cons_append, Segment.allOfPlain, Bool.and_eq_true, Bool.and_eq_true, ih, List.forall_mem_cons]
      simp [Arguments.areOfPlain, and_assoc]
  exact hsegments

/-- A name that is read as the last one before these arguments. -/
def MayTake (last : String) (arguments : Arguments) : Prop :=
  IsIdentifier last ∧ isPathName last = true ∧ (arguments.isNone = false → takesArguments last = true)

theorem proper_pathOf {leading : Bool} {names : List String} {last : String} {arguments : Arguments} :
    (pathOf leading names last arguments).Proper ↔
      (∀ name ∈ names, IsIdentifier name ∧ isPathName name = true) ∧ MayTake last arguments ∧ arguments.Proper := by
  have hsegments : Segment.AllProper (names.map (Segment.mk · .none) ++ [.mk last arguments]) ↔
      (∀ name ∈ names, IsIdentifier name ∧ isPathName name = true) ∧ MayTake last arguments ∧ arguments.Proper := by
    rw [Segment.allProper_iff, List.forall_mem_append, List.forall_mem_map, List.forall_mem_singleton]
    simp [Segment.AllProper, Arguments.Proper, Arguments.isNone, MayTake, and_assoc]
  exact ⟨fun h => hsegments.mp h.2, fun h => ⟨by simp, hsegments.mpr h⟩⟩

/-- Arguments as they stand behind a name, without a comma at the end. -/
def passed : List Argument → Arguments
  | [] => .none
  | arguments => .angled false arguments false

theorem passed_areOfPlain {arguments : List Argument} : (passed arguments).areOfPlain = Argument.allPlain false arguments := by
  cases arguments <;> rfl

theorem passed_proper {arguments : List Argument} : (passed arguments).Proper ↔ Argument.AllProper arguments := by
  cases arguments with
  | nil => exact ⟨fun _ => trivial, fun _ => trivial⟩
  | cons a rest => exact ⟨fun h => h.2, fun h => ⟨fun _ => rfl, h⟩⟩

/-- The optional type around an argument. -/
def optionOf (a : Argument) : TypeExpr := .path (pathOf false [] "Option" (passed [a]))

/-- The declared type, or lifetime, that an argument stands for. -/
def declared : Argument → TypeRef
  | .type type => .ofType type
  | .lifetime name => .lifetime name
  | _ => default

namespace Descriptor

/-- A declared type as it stands if asked for, and otherwise with its outer option as a mark. -/
def view (bare : Bool) (type : TypeRef) : Descriptor := if bare then structural type else canonical type

/-! ## Descriptors that types write -/

/-- Each descriptor is written by the argument next to it: its text is that of the argument, and so is
what the argument is seen as, bare or not. -/
inductive Writes : Bool → List Descriptor → List Argument → Prop where
  | nil (bare) : Writes bare [] []
  | lifetime {bare name ds as} (h : IsLifetime name) (rest : Writes bare ds as) :
      Writes bare (plain (.lifetime name) [] :: ds) (.lifetime name :: as)
  | primitive {bare name ds as} (h : name ∈ primitives) (rest : Writes bare ds as) :
      Writes bare (plain (.primitive name) [] :: ds) (.type (.path (pathOf false [] name .none)) :: as)
  | named {bare leading names last arguments written m ds as} (arguments_ : Writes false arguments written)
      (plain_ : (pathOf leading names last (passed written)).isOfPlain = true)
      (proper : (pathOf leading names last (passed written)).Proper)
      (option : bare = false → arguments.length = 1 → TypeRef.isOptionPath (pathText leading names last) = false)
      (rest : Writes bare ds as) :
      Writes bare (mk (.named (pathText leading names last)) arguments false m :: ds)
        (.type (.path (pathOf leading names last (passed written))) :: as)
  | array {bare element type length ds as} (element_ : Writes false [element] [.type type]) (h : isNumeral length = true)
      (rest : Writes bare ds as) :
      Writes bare (plain (.array (printed length)) [element] :: ds) (.type (.array type length) :: as)
  | slice {bare element type ds as} (element_ : Writes false [element] [.type type]) (rest : Writes bare ds as) :
      Writes bare (plain .slice [element] :: ds) (.type (.slice type) :: as)
  | reference {bare lifetime mutable referent type m ds as} (h : ∀ name ∈ lifetime, IsLifetime name)
      (referent_ : Writes false [referent] [.type type]) (rest : Writes bare ds as) :
      Writes bare (mk (.reference lifetime mutable) [referent] false m :: ds)
        (.type (.reference lifetime (mutable || m) type) :: as)
  | verbatim {bare type ds as} (plain_ : type.isPlain = true) (proper : type.Proper)
      (h : TypeRef.ofType type = .verbatim (printed type.tokens)) (rest : Writes bare ds as) :
      Writes bare (plain (.verbatim (printed type.tokens)) [] :: ds) (.type type :: as)
  | optional {base arguments m a ds as} (inner : Writes true [mk base arguments false m] [a]) (rest : Writes false ds as) :
      Writes false (mk base arguments true m :: ds) (.type (optionOf a) :: as)

theorem texts_eq_map (ds : List Descriptor) : texts ds = ds.map text := by
  induction ds with
  | nil => rfl
  | cons d rest ih => rw [texts, ih, List.map_cons]

/-- An optional type is written around what is inside. -/
theorem text_optional (base : Base) (arguments : List Descriptor) (m : Bool) :
    (mk base arguments true m).text = "Option<" ++ (mk base arguments false m).text ++ ">" := by
  simp only [text]
  rfl

theorem spells_pathOf {leading : Bool} {names : List String} {last : String} {arguments : Arguments} {rest : List Char}
    (hproper : (pathOf leading names last arguments).Proper) (ends : endsLexeme rest = true)
    (hrest : Spells rest arguments.tokens) :
    Spells ((pathText leading names last).toList ++ rest) (pathOf leading names last arguments).tokens := by
  obtain ⟨hnames, hlast, -⟩ := proper_pathOf.mp hproper
  have hspelled := spells_names (fun name hn => (hnames name hn).1) hlast.1 ends hrest
  rw [pathText, String.toList_append, List.append_assoc, pathOf, PathExpr.tokens]
  cases leading with
  | true => exact spells_symbol "::" (by decide) hspelled
  | false => exact hspelled

/-- What is passed to a name, in angle brackets. -/
theorem spells_passed {texts : List String} {arguments : List Argument} (hne : arguments ≠ [])
    (hplain : Argument.allPlain false arguments = true)
    (h : List.Forall₂ (fun text part => Spells text.toList part) texts (arguments.map Argument.tokens)) :
    Spells ('<' :: ((", ".intercalate texts).toList ++ ['>'])) (passed arguments).tokens := by
  have hpassed : passed arguments = .angled false arguments false := by
    cases arguments with
    | nil => exact absurd rfl hne
    | cons a rest => rfl
  rw [hpassed, angled_tokens _ _ hplain]
  refine .mark (by decide) (by decide) (fun hj => by cases hj) ((spells_commas h).append ?_ rfl)
  exact .mark (by decide) (by decide) (fun hj => by cases hj) .nil

/-! ## What writes a descriptor -/

theorem optionOf_isPlain {a : Argument} (h : Argument.allPlain false [a] = true) : (optionOf a).isPlain = true :=
  isOfPlain_pathOf.mpr ⟨nofun, by decide, passed_areOfPlain.trans h⟩

theorem optionOf_proper {a : Argument} (h : Argument.AllProper [a]) : (optionOf a).Proper :=
  proper_pathOf.mpr ⟨nofun, ⟨by decide, rfl, fun _ => rfl⟩, passed_proper.mpr h⟩

/-- Whatever writes a descriptor is plain and proper. -/
theorem Writes.readable {bare : Bool} {ds : List Descriptor} {as : List Argument} (h : Writes bare ds as) :
    ∀ a ∈ as, Argument.allPlain false [a] = true ∧ Argument.AllProper [a] := by
  have htype : ∀ {t : TypeExpr}, t.isPlain = true → t.Proper →
      Argument.allPlain false [.type t] = true ∧ Argument.AllProper [.type t] := fun hplain hproper =>
    ⟨by rw [Argument.allPlain, hplain]; rfl, hproper, trivial⟩
  have hread : ∀ {t : TypeExpr}, (∀ a ∈ [Argument.type t], Argument.allPlain false [a] = true ∧ Argument.AllProper [a]) →
      t.isPlain = true ∧ t.Proper := by
    intro t ht
    obtain ⟨hplain, hproper, -⟩ := ht _ List.mem_cons_self
    rw [Argument.allPlain, Bool.and_eq_true] at hplain
    exact ⟨hplain.1, hproper⟩
  induction h with
  | nil => exact fun a ha => by cases ha
  | lifetime h rest ih => exact List.forall_mem_cons.mpr ⟨⟨rfl, h, trivial⟩, ih⟩
  | @primitive bare name ds as h rest ih =>
    have hname : IsIdentifier name ∧ isPathName name = true ∧ name ≠ "try" :=
      (by decide : ∀ name ∈ primitives, IsIdentifier name ∧ isPathName name = true ∧ name ≠ "try") name h
    refine List.forall_mem_cons.mpr ⟨htype ?_ ?_, ih⟩
    · exact isOfPlain_pathOf.mpr ⟨nofun, hname.2.2, rfl⟩
    · exact proper_pathOf.mpr ⟨nofun, ⟨hname.1, hname.2.1, nofun⟩, trivial⟩
  | named arguments_ plain_ proper option rest iha ih => exact List.forall_mem_cons.mpr ⟨htype plain_ proper, ih⟩
  | array element_ h rest ihe ih =>
    obtain ⟨hplain, hproper⟩ := hread ihe
    exact List.forall_mem_cons.mpr ⟨htype (Bool.and_eq_true_iff.mpr ⟨hplain, h⟩) hproper, ih⟩
  | slice element_ rest ihe ih =>
    obtain ⟨hplain, hproper⟩ := hread ihe
    exact List.forall_mem_cons.mpr ⟨htype hplain hproper, ih⟩
  | reference h referent_ rest ihr ih =>
    obtain ⟨hplain, hproper⟩ := hread ihr
    exact List.forall_mem_cons.mpr ⟨htype hplain ⟨h, hproper⟩, ih⟩
  | verbatim plain_ proper h rest ih => exact List.forall_mem_cons.mpr ⟨htype plain_ proper, ih⟩
  | optional inner rest ihi ih =>
    obtain ⟨hplain, hproper⟩ := ihi _ List.mem_cons_self
    exact List.forall_mem_cons.mpr ⟨htype (optionOf_isPlain hplain) (optionOf_proper hproper), ih⟩

theorem elementText_spells {element : Descriptor} {type : TypeExpr}
    (h : List.Forall₂ (fun d a => Spells d.text.toList a.tokens) [element] [Argument.type type]) :
    Spells (elementText [element]).toList type.tokens := by
  cases h with
  | cons h _ => exact h

theorem spells_named {leading : Bool} {names : List String} {last : String} {arguments : List Descriptor}
    {written : List Argument} {m : Bool} (hplain : (pathOf leading names last (passed written)).isOfPlain = true)
    (hproper : (pathOf leading names last (passed written)).Proper)
    (h : List.Forall₂ (fun d a => Spells d.text.toList a.tokens) arguments written) :
    Spells (mk (.named (pathText leading names last)) arguments false m).text.toList
      (pathOf leading names last (passed written)).tokens := by
  cases h with
  | nil =>
    have hspelled := spells_pathOf hproper rfl .nil
    rw [List.append_nil] at hspelled
    exact hspelled
  | @cons d a arguments written hfirst hmore =>
    have hpassed := passed_areOfPlain.symm.trans (isOfPlain_pathOf.mp hplain).2.2
    have htexts : List.Forall₂ (fun text part => Spells text.toList part) (texts (d :: arguments))
        ((a :: written).map Argument.tokens) := by
      rw [texts_eq_map, List.forall₂_map_left_iff, List.forall₂_map_right_iff]
      exact .cons hfirst hmore
    have htext : (mk (.named (pathText leading names last)) (d :: arguments) false m).text =
        pathText leading names last ++ "<" ++ ", ".intercalate (texts (d :: arguments)) ++ ">" := rfl
    rw [htext, String.toList_append, String.toList_append, String.toList_append, List.append_assoc, List.append_assoc]
    exact spells_pathOf hproper rfl (spells_passed (List.cons_ne_nil _ _) hpassed htexts)

theorem spells_array {element : Descriptor} {type : TypeExpr} {length : List Token} (h : isNumeral length = true)
    (helement : List.Forall₂ (fun d a => Spells d.text.toList a.tokens) [element] [Argument.type type]) :
    Spells (plain (.array (printed length)) [element]).text.toList (TypeExpr.array type length).tokens := by
  have hlength : Spells (printed length).toList length := by
    rw [printed, String.toList_ofList]
    exact spells_printAll (printable_numeral h)
  have htext : (plain (.array (printed length)) [element]).text =
      "[" ++ elementText [element] ++ "; " ++ printed length ++ "]" := rfl
  rw [htext, String.toList_append, String.toList_append, String.toList_append, String.toList_append, TypeExpr.tokens]
  simp only [List.append_assoc]
  have hcontent : Spells ((elementText [element]).toList ++ (';' :: ' ' :: (printed length).toList))
      (type.tokens ++ (Token.symbol ";" ++ length)) :=
    (elementText_spells helement).append (.mark (by decide) (by decide) (fun hj => by cases hj) (.blank hlength)) rfl
  have hgroup := spells_brackets hcontent
  rw [List.append_assoc] at hgroup
  exact hgroup

/-- The lifetime and the mark of a reference stand in front of the type, each if there is one. -/
theorem spells_reference {lifetime : Option String} {mutable m : Bool} {referent : Descriptor} {type : TypeExpr}
    (h : ∀ name ∈ lifetime, IsLifetime name)
    (hreferent : List.Forall₂ (fun d a => Spells d.text.toList a.tokens) [referent] [Argument.type type]) :
    Spells (mk (.reference lifetime mutable) [referent] false m).text.toList
      (TypeExpr.reference lifetime (mutable || m) type).tokens := by
  have htext : (mk (.reference lifetime mutable) [referent] false m).text =
      "&" ++ (lifetime.map (· ++ " ")).getD "" ++ (if mutable || m then "mut " else "") ++ elementText [referent] := by
    cases lifetime <;> rfl
  have hmutable : Spells ((if mutable || m then "mut " else "").toList ++ (elementText [referent]).toList)
      ((if mutable || m then [Token.word "mut"] else []) ++ type.tokens) := by
    cases mutable || m with
    | true =>
      have hmut : IsIdentifier "mut" := by decide
      exact .word hmut rfl (.blank (elementText_spells hreferent))
    | false => exact elementText_spells hreferent
  have hlifetime : Spells (((lifetime.map (· ++ " ")).getD "").toList ++
      ((if mutable || m then "mut " else "").toList ++ (elementText [referent]).toList))
      ((lifetime.map Token.lifetime).getD [] ++ ((if mutable || m then [Token.word "mut"] else []) ++ type.tokens)) := by
    cases lifetime with
    | none => exact hmutable
    | some name =>
      have hblank : (name ++ " ").toList = name.toList ++ [' '] := String.toList_append
      rw [Option.map_some, Option.getD_some, hblank, List.append_assoc]
      exact spells_lifetime (h name rfl) rfl (.blank hmutable)
  rw [htext, TypeExpr.tokens]
  simp only [String.toList_append, List.append_assoc]
  exact .mark (by decide) (by decide) (fun hj => by cases hj) hlifetime

/-- The text of a descriptor spells the argument that writes it. -/
theorem Writes.spells {bare : Bool} {ds : List Descriptor} {as : List Argument} (h : Writes bare ds as) :
    List.Forall₂ (fun d a => Spells d.text.toList a.tokens) ds as := by
  induction h with
  | nil => exact .nil
  | lifetime h rest ih =>
    have hspelled := spells_lifetime h rfl .nil
    rw [List.append_nil, List.append_nil] at hspelled
    exact .cons hspelled ih
  | @primitive bare name ds as h rest ih =>
    have hname : IsIdentifier name := (by decide : ∀ name ∈ primitives, IsIdentifier name) name h
    have hspelled : Spells (name.toList ++ []) [Token.word name] := .word hname rfl .nil
    rw [List.append_nil] at hspelled
    exact .cons hspelled ih
  | named arguments_ plain_ proper option rest iha ih => exact .cons (spells_named plain_ proper iha) ih
  | array element_ h rest ihe ih => exact .cons (spells_array h ihe) ih
  | @slice bare element type ds as element_ rest ihe ih =>
    refine .cons ?_ ih
    have htext : (plain .slice [element]).text = "[" ++ elementText [element] ++ "]" := rfl
    rw [htext, String.toList_append, String.toList_append, List.append_assoc, Argument.tokens, TypeExpr.tokens]
    exact spells_brackets (elementText_spells ihe)
  | reference h referent_ rest ihr ih => exact .cons (spells_reference h ihr) ih
  | verbatim plain_ proper h rest ih =>
    refine .cons ?_ ih
    have htext : ∀ text, (plain (.verbatim text) []).text = text := fun _ => rfl
    rw [htext, printed, String.toList_ofList]
    exact spells_printAll (TypeExpr.printable plain_ proper)
  | @optional base arguments m a ds as inner rest ihi ih =>
    refine .cons ?_ ih
    obtain ⟨hplain, hproper⟩ := inner.readable a List.mem_cons_self
    have hinner : List.Forall₂ (fun text part => Spells text.toList part) [(mk base arguments false m).text] [a.tokens] := by
      cases ihi with
      | cons hfirst _ => exact .cons hfirst .nil
    have hspelled := spells_pathOf (optionOf_proper hproper) rfl (spells_passed (List.cons_ne_nil _ _) hplain hinner)
    rw [text_optional, String.toList_append, String.toList_append, List.append_assoc]
    exact hspelled

end Descriptor

namespace TypeRef

/-! ## Declared again -/

theorem ofSegments_pathOf {names : List String} {last : String} {arguments : Arguments} :
    ofSegments (names.map (Segment.mk · .none) ++ [.mk last arguments]) =
      (ofArguments arguments).map fun list => (names ++ [last], list) := by
  induction names with
  | nil => rfl
  | cons name rest ih =>
    obtain ⟨next, more, hmore⟩ := List.exists_cons_of_ne_nil
      (List.append_ne_nil_of_right_ne_nil (rest.map (Segment.mk · .none)) (List.cons_ne_nil (Segment.mk last arguments) []))
    rw [hmore] at ih
    rw [List.map_cons, List.cons_append, hmore, ofSegments, ih]
    cases ofArguments arguments <;> rfl

theorem ofType_pathOf_none (leading : Bool) (names : List String) (last : String) :
    ofType (.path (pathOf leading names last .none)) =
      if (names ++ [last]).length == 1 && primitives.contains (pathText leading names last) then
        .primitive (pathText leading names last)
      else .path (pathText leading names last) [] := by
  rw [ofType, pathOf, ofPath, ofSegments_pathOf]
  rfl

theorem ofType_pathOf_passed {leading : Bool} {names : List String} {last : String} {arguments : List Argument}
    {types : List TypeRef} (hne : arguments ≠ []) (h : ofArgumentList arguments = some types) :
    ofType (.path (pathOf leading names last (passed arguments))) = .path (pathText leading names last) types := by
  have hpassed : ofArguments (passed arguments) = some (some types) := by
    cases arguments with
    | nil => exact absurd rfl hne
    | cons a rest => exact congrArg (Option.map some) h
  rw [ofType, pathOf, ofPath, ofSegments_pathOf, hpassed]
  rfl

end TypeRef

namespace Descriptor

theorem structural_path (path : String) (types : List TypeRef) :
    structural (.path path types) = plain (.named path) (types.map canonical) := by
  match types with
  | [] => rfl
  | [type] => rfl
  | first :: second :: rest =>
    rw [structural, views, viewsOfAll_eq_map]
    exact congrArg (plain (.named path)) (List.map_map ..)

theorem structural_nullable (type : TypeRef) : (structural type).nullable = false := by
  cases type with
  | path path types =>
    rw [structural_path]
    rfl
  | _ => rfl

/-- A path that names no option is seen with its arguments as they are. -/
theorem view_path {bare : Bool} {path : String} {types : List TypeRef}
    (h : bare = false → types.length = 1 → TypeRef.isOptionPath path = false) :
    view bare (.path path types) = plain (.named path) (types.map canonical) := by
  cases bare with
  | true => exact structural_path path types
  | false =>
    refine (canonical_of_not_optional ?_).trans (structural_path path types)
    match types with
    | [] => rfl
    | [type] => exact if_neg (Bool.not_eq_true _ ▸ h rfl rfl)
    | _ :: _ :: _ => rfl

/-- Arguments of the same texts make the same text. -/
theorem text_congr (base : Base) {ds es : List Descriptor} (n m : Bool) (h : texts ds = texts es) :
    (mk base ds n m).text = (mk base es n m).text := by
  have hempty : ds.isEmpty = es.isEmpty := by
    rw [texts_eq_map, texts_eq_map] at h
    cases ds <;> cases es <;> first | rfl | cases h
  have helement : elementText ds = elementText es := by
    cases ds <;> cases es <;> first | rfl | cases h | exact (List.cons.inj h).1
  cases base <;> simp only [text, hempty, helement, h]

/-- The name of a primitive declares it. -/
theorem declared_primitive {name : String} (h : name ∈ primitives) :
    declared (.type (.path (pathOf false [] name .none))) = .primitive name := by
  have htext : pathText false [] name = name := by
    rw [pathText, List.nil_append, String.intercalate_singleton]
    exact String.empty_append
  rw [declared, TypeRef.ofType_pathOf_none, htext, if_pos]
  exact List.contains_iff_mem.mpr h

/-- An argument is seen with the text and the mark of a descriptor. -/
def SeenAs (bare : Bool) (d : Descriptor) (a : Argument) : Prop :=
  (view bare (declared a)).text = d.text ∧ (view bare (declared a)).nullable = d.nullable

theorem texts_of_seen {ds : List Descriptor} {as : List Argument} (h : List.Forall₂ (SeenAs false) ds as) :
    texts ((as.map declared).map canonical) = texts ds := by
  induction h with
  | nil => rfl
  | cons hfirst hrest ih => exact congrArg₂ List.cons hfirst.1 ih

theorem ofArgumentList_type {type : TypeExpr} {as : List Argument} (h : TypeRef.ofArgumentList as = some (as.map declared)) :
    TypeRef.ofArgumentList (.type type :: as) = some ((Argument.type type :: as).map declared) := by
  rw [TypeRef.ofArgumentList, h]
  rfl

theorem seen_named {bare : Bool} {leading : Bool} {names : List String} {last : String} {arguments : List Descriptor}
    {written : List Argument} {m : Bool}
    (option : bare = false → arguments.length = 1 → TypeRef.isOptionPath (pathText leading names last) = false)
    (hlist : TypeRef.ofArgumentList written = some (written.map declared))
    (h : List.Forall₂ (SeenAs false) arguments written) :
    SeenAs bare (mk (.named (pathText leading names last)) arguments false m)
      (.type (.path (pathOf leading names last (passed written)))) := by
  by_cases hwritten : written = []
  · subst hwritten
    cases h
    have hview : ∀ {type : TypeRef}, type = .primitive (pathText leading names last) ∨ type = .path (pathText leading names last) [] →
        (view bare type).text = pathText leading names last ∧ (view bare type).nullable = false := by
      rintro type (rfl | rfl)
      · cases bare <;> exact ⟨rfl, rfl⟩
      · cases bare <;> exact ⟨rfl, rfl⟩
    refine hview ?_
    rw [declared, passed, TypeRef.ofType_pathOf_none]
    split
    · exact Or.inl rfl
    · exact Or.inr rfl
  · have hlength : (written.map declared).length = arguments.length := by
      rw [List.length_map, h.length_eq]
    unfold SeenAs
    rw [declared, TypeRef.ofType_pathOf_passed hwritten hlist, view_path fun hb hl => option hb (hlength.symm.trans hl)]
    exact ⟨text_congr (.named (pathText leading names last)) false m (texts_of_seen h), rfl⟩

theorem seen_array {bare : Bool} {element : Descriptor} {type : TypeExpr} {length : List Token}
    (h : List.Forall₂ (SeenAs false) [element] [.type type]) :
    SeenAs bare (plain (.array (printed length)) [element]) (.type (.array type length)) := by
  have hview : view bare (declared (.type (.array type length))) =
      plain (.array (printed length)) [canonical (TypeRef.ofType type)] := by
    cases bare <;> rfl
  unfold SeenAs
  rw [hview]
  exact ⟨text_congr _ false false (texts_of_seen h), rfl⟩

theorem seen_slice {bare : Bool} {element : Descriptor} {type : TypeExpr}
    (h : List.Forall₂ (SeenAs false) [element] [.type type]) :
    SeenAs bare (plain .slice [element]) (.type (.slice type)) := by
  have hview : view bare (declared (.type (.slice type))) = plain .slice [canonical (TypeRef.ofType type)] := by
    cases bare <;> rfl
  unfold SeenAs
  rw [hview]
  exact ⟨text_congr _ false false (texts_of_seen h), rfl⟩

theorem seen_reference {bare : Bool} {lifetime : Option String} {mutable m : Bool} {referent : Descriptor} {type : TypeExpr}
    (h : List.Forall₂ (SeenAs false) [referent] [.type type]) :
    SeenAs bare (mk (.reference lifetime mutable) [referent] false m) (.type (.reference lifetime (mutable || m) type)) := by
  have hview : view bare (declared (.type (.reference lifetime (mutable || m) type))) =
      plain (.reference lifetime (mutable || m)) [canonical (TypeRef.ofType type)] := by
    cases bare <;> rfl
  have htext : (mk (.reference lifetime mutable) [referent] false m).text =
      (plain (.reference lifetime (mutable || m)) [referent]).text := by
    cases mutable <;> cases m <;> rfl
  unfold SeenAs
  rw [hview, htext]
  exact ⟨text_congr _ false false (texts_of_seen h), rfl⟩

/-- An option is seen as a mark on what is inside. -/
theorem seen_optional {base : Base} {arguments : List Descriptor} {m : Bool} {a : Argument}
    (hlist : TypeRef.ofArgumentList [a] = some [declared a]) (h : SeenAs true (mk base arguments false m) a) :
    SeenAs false (mk base arguments true m) (.type (optionOf a)) := by
  have hinner : TypeRef.ofType (optionOf a) = .path "Option" [declared a] :=
    TypeRef.ofType_pathOf_passed (List.cons_ne_nil _ _) hlist
  have hview : view false (declared (.type (optionOf a))) = (structural (declared a)).asNullable := by
    rw [declared, hinner]
    exact canonical_of_optional rfl
  have htext : (structural (declared a)).text = (mk base arguments false m).text := h.1
  have hnullable := structural_nullable (declared a)
  unfold SeenAs
  rw [hview]
  generalize structural (declared a) = found at htext hnullable
  obtain ⟨base, given, nullable, k⟩ := found
  obtain rfl : nullable = false := hnullable
  refine ⟨?_, rfl⟩
  rw [asNullable, text_optional, text_optional, htext]

/-- What an argument is seen as has the text and the mark of the descriptor that it writes. -/
theorem Writes.seen {bare : Bool} {ds : List Descriptor} {as : List Argument} (h : Writes bare ds as) :
    TypeRef.ofArgumentList as = some (as.map declared) ∧ List.Forall₂ (SeenAs bare) ds as := by
  induction h with
  | nil => exact ⟨rfl, .nil⟩
  | @lifetime bare name ds as h rest ih =>
    refine ⟨?_, .cons ?_ ih.2⟩
    · rw [TypeRef.ofArgumentList, ih.1]
      rfl
    · cases bare <;> exact ⟨rfl, rfl⟩
  | @primitive bare name ds as h rest ih =>
    refine ⟨ofArgumentList_type ih.1, .cons ?_ ih.2⟩
    unfold SeenAs
    rw [declared_primitive h]
    cases bare <;> exact ⟨rfl, rfl⟩
  | named arguments_ plain_ proper option rest iha ih =>
    exact ⟨ofArgumentList_type ih.1, .cons (seen_named option iha.1 iha.2) ih.2⟩
  | array element_ h rest ihe ih => exact ⟨ofArgumentList_type ih.1, .cons (seen_array ihe.2) ih.2⟩
  | slice element_ rest ihe ih => exact ⟨ofArgumentList_type ih.1, .cons (seen_slice ihe.2) ih.2⟩
  | reference h referent_ rest ihr ih => exact ⟨ofArgumentList_type ih.1, .cons (seen_reference ihr.2) ih.2⟩
  | @verbatim bare type ds as plain_ proper h rest ih =>
    refine ⟨ofArgumentList_type ih.1, .cons ?_ ih.2⟩
    unfold SeenAs
    rw [declared, h]
    cases bare <;> exact ⟨rfl, rfl⟩
  | optional inner rest ihi ih =>
    refine ⟨ofArgumentList_type ih.1, .cons ?_ ih.2⟩
    cases ihi.2 with
    | cons hfirst _ => exact seen_optional ihi.1 hfirst

end Descriptor

end BuilderSynthesis
