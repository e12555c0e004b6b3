/-
  BuilderSynthesis.Proofs.ScannedNames — the names, paths and visibilities that a scan comes upon.

  What a scan takes over from the sources as text is what a reader has made of it there: names are
  identifiers, visibilities are written out, and the path of a struct elsewhere is that of a path that was
  read. This holds of single findings (`Finding.Proper`) and so of all findings of a scanned tree
  (`proper_of_mem_findings`).
-/

import BuilderSynthesis.Proofs.Inclusion
import BuilderSynthesis.Proofs.OwnStructs

namespace BuilderSynthesis

open Syntax

/-! ## Findings -/

/-- The visibility is one of the sources. -/
def Visibility.Proper (visibility : Visibility) : Prop :=
  ∃ written : VisibilityExpr, written.Proper ∧ visibility = Scan.visibilityOf written

structure DeclaredType.Proper (t : DeclaredType) : Prop where
  name : IsFree t.name
  visibility : t.visibility.Proper
  /-- Where there are no parameters, none are noted. -/
  generics : ∀ text ∈ t.generics, text ≠ ""
  fields : ∀ f ∈ t.fields, IsIdentifier f.name

structure FunctionBlock.Proper (b : FunctionBlock) : Prop where
  functions : ∀ c ∈ b.constructors, ∀ function, c.kind = .function function → IsFree function
  parameters : ∀ c ∈ b.constructors, ∀ p ∈ c.parameters, IsIdentifier p.name
  getters : ∀ getter ∈ b.getters, IsFree getter.method

def DirectiveKind.Proper : DirectiveKind → Prop
  | .external target _ _ visibility => (∃ path : PathExpr, path.Proper ∧ target = path.text) ∧ visibility.Proper
  | _ => True

/-- Everything in the finding that is text has been read. -/
def Finding.Proper : Finding → Prop
  | .declared t => t.Proper
  | .block b => b.Proper
  | .directive d => d.kind.Proper
  | _ => True

/-! ## Entries -/

namespace Syntax.Read

open BuilderSynthesis.Syntax.Parser

variable {σ : Type} {entry : σ → PathExpr → Position → Parser σ} {holds : σ → Prop}

/-- What every entry preserves holds of all that entries gather. -/
theorem holds_of_entriesFrom (hentry : ∀ state path position, holds state → GivesOf IsIdentifier (entry state path position) holds)
    (n : Nat) {state : σ} {s : Stream} (hs : Token.AllHold IsIdentifier s.rest) (h : holds state) :
    holds (entriesFrom entry n state s).1 := by
  induction n generalizing state s with
  | zero => exact h
  | succ n ih =>
    unfold entriesFrom
    split
    · exact h
    · rename_i path position after hpath
      have hafter := hs.of_suffix (entryPath.shrinks hpath)
      split
      · exact h
      · rename_i next rest hnext
        have hrest := hafter.of_suffix ((entry state path position).shrinks hnext)
        have hholds := hentry _ _ _ h hafter hnext
        split
        · exact hholds
        · split
          · exact hholds
          · rename_i marked hm
            split
            · exact hholds
            · exact ih (hrest.of_suffix ((mark ",").shrinks hm)) hholds

theorem holds_of_attributeEntries (hentry : ∀ state path position, holds state → GivesOf IsIdentifier (entry state path position) holds)
    {attr : Attribute} (ha : attr.Proper) {state : σ} (h : holds state) : holds (attributeEntries entry state attr).1 := by
  unfold Attribute.Proper Attribute.listed at ha
  unfold attributeEntries
  split
  · rename_i content closesAt hform
    rw [hform] at ha
    have hfrom := holds_of_entriesFrom hentry content.length (s := ⟨content, closesAt, none, none, []⟩) ha h
    unfold entries
    split
    · exact h
    · split
      · rename_i hread
        rw [hread] at hfrom
        exact hfrom
      · rename_i hread
        rw [hread] at hfrom
        split <;> exact hfrom
  · exact h
  · exact h

end Syntax.Read

namespace Scan

open BuilderSynthesis.Syntax.Parser

variable {file : String} {module : ModulePath} {v : Visibility} {attrs : List Attribute}

/-- The target of a directive for a struct elsewhere is the text of a path. -/
theorem exists_path_of_external {attr : Attribute} (ha : attr.Proper) {target : String} {suffix : Option String}
    {useConstructors : Bool} (h : external file v attr = .ok (.external target suffix useConstructors v)) :
    ∃ path : PathExpr, path.Proper ∧ target = path.text := by
  have hentry : ∀ given path position, (∀ text ∈ ExternalArguments.target given, ∃ path : PathExpr, path.Proper ∧ text = path.text) →
      GivesOf IsIdentifier (externalEntry (grammarFor attr.listed) given path position)
        fun given => ∀ text ∈ given.target, ∃ path : PathExpr, path.Proper ∧ text = path.text := by
    intro given path position hgiven
    refine gives_ite ?_ (gives_ite ?_ (gives_ite ?_ ?_))
    · have hvalue : GivesOf IsIdentifier (Read.entryValue (Read.path (grammarFor attr.listed) false)) PathExpr.Proper :=
        gives_bind fun _ => Read.gives_properPath (proper_grammar _) false
      refine hvalue.bind fun target ht => gives_pure fun text htext => ?_
      exact ⟨target, ht, (Option.some.inj htext).symm⟩
    · exact gives_bind fun suffix => gives_pure hgiven
    · exact gives_bind fun use => gives_pure hgiven
    · exact fun _ _ _ _ h => by cases h
  have hstart : ∀ text ∈ (ExternalArguments.mk none none false).target, ∃ path : PathExpr, path.Proper ∧ text = path.text := nofun
  have hall := Read.holds_of_attributeEntries hentry ha hstart
  unfold external at h
  split at h
  · cases h
  · cases h
  · rename_i hread
    cases h
    rw [hread] at hall
    exact hall target rfl

theorem proper_externalFinding {attr : Attribute} (ha : attr.Proper) (hv : v.Proper) :
    (externalFinding file module v attr).Proper := by
  unfold externalFinding
  cases he : external file v attr with
  | error problem => trivial
  | ok kind =>
    obtain ⟨target, suffix, useConstructors, rfl⟩ := kind_of_external he
    exact ⟨exists_path_of_external ha he, hv⟩

theorem proper_itemDirectives {own : DirectiveKind} (hown : own.Proper) (ha : ∀ a ∈ attrs, a.Proper) (hv : v.Proper)
    {f : Finding} (hf : f ∈ itemDirectives file module v own attrs) : f.Proper := by
  obtain ⟨attr, hattr, he⟩ := List.mem_filterMap.mp hf
  split at he
  · rw [← Option.some.inj he]
    exact proper_externalFinding (ha attr hattr) hv
  · split at he
    · rw [← Option.some.inj he]
      exact hown
    · cases he

/-! ## Structs and functions -/

theorem printed_mark_ne_empty {c : Char} {joint : Bool} {pos : Position} {rest : List Token} : printed (.punct c joint pos :: rest) ≠ "" := by
  intro h
  have hchars := congrArg String.toList h
  rw [printed, String.toList_ofList] at hchars
  cases rest <;> rw [Token.printAll, Token.print] at hchars <;> cases hchars

theorem printed_generics_ne_empty {g : Generics} (h : g.parameters.isEmpty = false) : printed g.tokens ≠ "" := by
  rw [Generics.tokens, Generics.angled, h]
  exact printed_mark_ne_empty

theorem proper_structFindings {s : StructItem} (hs : s.Proper) {f : Finding} (hf : f ∈ structFindings file module s) : f.Proper := by
  rcases List.mem_append.mp hf with hf | hf
  · rcases List.mem_append.mp hf with hf | hf
    · exact proper_itemDirectives (show DirectiveKind.Proper (.type s.name) from trivial) hs.attributes ⟨_, hs.visibility, rfl⟩ hf
    · obtain ⟨problem, -, rfl⟩ := List.mem_map.mp hf
      trivial
  · rw [List.mem_singleton.mp hf]
    refine ⟨hs.name, ⟨_, hs.visibility, rfl⟩, fun text ht => ?_, fun declared hd => ?_⟩
    · cases hgenerics : s.generics.parameters.isEmpty with
      | true =>
        simp only [hgenerics] at ht
        cases ht
      | false =>
        simp only [hgenerics] at ht
        cases ht
        exact printed_generics_ne_empty hgenerics
    cases hfields : s.fields with
    | named fields trailing =>
      rw [hfields] at hd
      obtain ⟨⟨found, problems⟩, hmade, rfl⟩ := List.mem_map.mp hd
      obtain ⟨field, hin, he⟩ := List.mem_filterMap.mp hmade
      obtain ⟨⟨name, position⟩, hname, he⟩ := Option.map_eq_some_iff.mp he
      cases he
      exact hs.fields fields trailing hfields field hin _ hname
    | unnamed fields trailing =>
      rw [hfields] at hd
      cases hd
    | unit =>
      rw [hfields] at hd
      cases hd

theorem isIdentifier_of_bindsEach {inputs : List FunctionInput} {parameters : List Parameter} (h : BindsEach inputs parameters)
    (hproper : ∀ input ∈ inputs, input.Proper) : ∀ p ∈ parameters, IsIdentifier p.name := by
  induction h with
  | nil => exact nofun
  | @cons input p inputs parameters first rest ih =>
    obtain ⟨attributes, nameAt, tokens, type, rfl, -⟩ := first
    obtain ⟨hname, hothers⟩ := List.forall_mem_cons.mp hproper
    exact List.forall_mem_cons.mpr ⟨hname, ih hothers⟩

theorem method_of_getter? {item : FunctionItem} {getter : Getter} (h : getter? item = some getter) :
    getter.method = item.signature.name := by
  unfold getter? at h
  simp only at h
  split at h
  · obtain ⟨-, h⟩ := Option.ite_none_left_eq_some.mp h
    obtain ⟨-, h⟩ := Option.ite_none_left_eq_some.mp h
    rw [← Option.some.inj h]
  · cases h

theorem proper_functionFindings {typeName : Option String} {item : FunctionItem} {f : Finding}
    (hf : f ∈ (functionFindings file module typeName item).2) : f.Proper := by
  rcases List.mem_append.mp hf with hf | hf
  · rcases List.mem_append.mp hf with hf | hf
    · obtain ⟨problem, -, rfl⟩ := List.mem_map.mp hf
      trivial
    · obtain ⟨attr, -, he⟩ := List.mem_filterMap.mp hf
      obtain ⟨kind, hkind, rfl⟩ := Option.map_eq_some_iff.mp he
      show kind.Proper
      unfold functionDirective at hkind
      simp only at hkind
      split at hkind
      · rw [← Option.some.inj hkind]
        trivial
      · split at hkind
        · rw [← Option.some.inj hkind]
          split <;> trivial
        · cases hkind
  · split at hf
    · rw [List.mem_singleton.mp hf]
      trivial
    · cases hf

/-- The constructor that a function turns out to be. -/
def Candidate.constructor? : Candidate → Option Constructor
  | .constructor c => some c
  | _ => none

theorem constructor_of_constructor? {found : Candidate} {c : Constructor} (h : found.constructor? = some c) :
    found = .constructor c := by
  cases found with
  | constructor made =>
    cases h
    rfl
  | unusable reason => cases h
  | other => cases h

theorem proper_blockFindings {typeName : Option String} {functions : List FunctionItem} (hs : ∀ f ∈ functions, f.Proper)
    {f : Finding} (hf : f ∈ blockFindings file module typeName functions) : f.Proper := by
  have hfindings : f ∈ (functions.map fun item => (item, functionFindings file module typeName item)).flatMap
      (·.2.2) → f.Proper := by
    intro hin
    obtain ⟨read, hr, hin⟩ := List.mem_flatMap.mp hin
    obtain ⟨item, -, rfl⟩ := List.mem_map.mp hr
    exact proper_functionFindings hin
  unfold blockFindings at hf
  cases typeName with
  | none => exact hfindings hf
  | some name =>
    rcases List.mem_append.mp hf with hf | hf
    · exact hfindings hf
    rw [List.mem_singleton.mp hf]
    -- Every constructor and every getter is a function of the block.
    have hconstructor : ∀ c ∈ (functions.map fun item => (item, functionFindings file module (some name) item)).filterMap
        (·.2.1.constructor?),
        ∃ item ∈ functions, (candidate file module name item).1 = .constructor c := by
      intro c hc
      obtain ⟨read, hr, hm⟩ := List.mem_filterMap.mp hc
      obtain ⟨item, hitem, rfl⟩ := List.mem_map.mp hr
      exact ⟨item, hitem, constructor_of_constructor? hm⟩
    refine ⟨fun c hc function hk => ?_, fun c hc => ?_, fun getter hg => ?_⟩
    · obtain ⟨item, hitem, hmade⟩ := hconstructor c hc
      rw [kind_of_candidate hmade] at hk
      cases hk
      exact (hs item hitem).name
    · obtain ⟨item, hitem, hmade⟩ := hconstructor c hc
      exact isIdentifier_of_bindsEach (bindsEach_of_candidate hmade) (hs item hitem).inputs
    · obtain ⟨read, hr, hm⟩ := List.mem_filterMap.mp hg
      obtain ⟨item, hitem, rfl⟩ := List.mem_map.mp hr
      dsimp only at hm
      split at hm
      · rw [method_of_getter? hm]
        exact (hs item hitem).name
      · cases hm

theorem proper_outerFindings {item : Item} (h : item.Proper) {f : Finding} (hf : f ∈ outerFindings file module item) : f.Proper := by
  cases item with
  | struct s => exact proper_structFindings h hf
  | functions attributes ofTrait subject functions =>
    rcases List.mem_append.mp hf with hf | hf
    · exact proper_itemDirectives (show DirectiveKind.Proper (.misplaced _) from trivial) h.1 ⟨.inherited, trivial, rfl⟩ hf
    · exact proper_blockFindings h.2.2 hf
  | module attributes v name content =>
    exact proper_itemDirectives (show DirectiveKind.Proper (misplaced "module" name) from trivial) h.1 ⟨v, h.2, rfl⟩ hf
  | function item =>
    exact proper_itemDirectives (show DirectiveKind.Proper (misplaced "function" item.signature.name) from trivial)
      h.attributes ⟨item.visibility, h.visibility, rfl⟩ hf
  | named kind attributes v name =>
    exact proper_itemDirectives (show DirectiveKind.Proper (misplaced (kindText kind) name) from trivial) h.1 ⟨v, h.2, rfl⟩ hf
  | plain => cases hf

end Scan

namespace SourceTree

variable {tree : SourceTree}

/-- All that is found in scanned sources has been read there. -/
theorem proper_of_mem_findings (hs : tree.IsScanned) {f : Finding} (hf : f ∈ tree.findings) : f.Proper := by
  by_cases hreport : f.isReport = false
  · obtain ⟨file, module, items, hfile, hin⟩ := exists_file_of_mem hs hf hreport
    obtain ⟨cs, hreads⟩ := hfile.reads
    rw [Scan.itemsFindings_eq] at hin
    obtain ⟨part, hpart, hin⟩ := List.mem_flatMap.mp hin
    obtain ⟨outer, houter, hinner⟩ := Item.mem_partsOfAll_iff.mp hpart
    exact Scan.proper_outerFindings (throughout_of_readFile hreads outer houter _ part hinner) hin
  · cases f with
    | directive d => exact absurd rfl hreport
    | declared t => exact absurd rfl hreport
    | block b => exact absurd rfl hreport
    | _ => trivial

theorem proper_of_mem_types (hs : tree.IsScanned) {t : DeclaredType} (ht : t ∈ tree.types) : t.Proper := by
  obtain ⟨f, hf, he⟩ := List.mem_filterMap.mp ht
  cases f with
  | declared found =>
    cases he
    exact proper_of_mem_findings hs hf
  | _ => cases he

theorem proper_of_mem_blocks (hs : tree.IsScanned) {b : FunctionBlock} (hb : b ∈ tree.blocks) : b.Proper := by
  obtain ⟨f, hf, he⟩ := List.mem_filterMap.mp hb
  cases f with
  | block found =>
    cases he
    exact proper_of_mem_findings hs hf
  | _ => cases he

theorem proper_of_mem_directives (hs : tree.IsScanned) {d : Directive} (hd : d ∈ tree.directives) : d.kind.Proper := by
  obtain ⟨f, hf, he⟩ := List.mem_filterMap.mp hd
  cases f with
  | directive found =>
    cases he
    exact proper_of_mem_findings hs hf
  | _ => cases he

end SourceTree

end BuilderSynthesis
