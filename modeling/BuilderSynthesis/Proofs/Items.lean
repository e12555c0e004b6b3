/-
  BuilderSynthesis.Proofs.Items — the items of a file, down to the innermost module.

  Modules hold items of their own, so a file is a tree. Its items are listed with the module that each
  stands in (`Item.partsOfAll`), and what is found in a file is what is found in each of them by itself
  (`itemsFindings_eq`). What every reader gives of single items holds throughout every file that reads
  (`throughout_of_readFile`).
-/

import BuilderSynthesis.Proofs.ReadItems
import BuilderSynthesis.Scan.Items

namespace BuilderSynthesis

namespace Syntax

mutual

/-- An item and the items in it, each with the module it stands in. -/
def Item.parts (module : ModulePath) : Item → List (ModulePath × Item)
  | .module attributes v name content =>
    (module, .module attributes v name content) :: Item.partsOfAll (module.child name) content
  | item => [(module, item)]

def Item.partsOfAll (module : ModulePath) : List Item → List (ModulePath × Item)
  | [] => []
  | item :: rest => item.parts module ++ Item.partsOfAll module rest

end

theorem Item.mem_partsOfAll_iff {module : ModulePath} {items : List Item} {part : ModulePath × Item} :
    part ∈ Item.partsOfAll module items ↔ ∃ item ∈ items, part ∈ item.parts module := by
  induction items with
  | nil => simp [partsOfAll]
  | cons item rest ih => simp [partsOfAll, ih]

/-! ## What holds throughout -/

/-- The parts of an item that are kept are as every reader makes them. -/
def Item.Proper : Item → Prop
  | .struct s => s.Proper
  | .function f => f.Proper
  | .functions attributes _ subject members =>
    (∀ a ∈ attributes, a.Proper) ∧ subject.Proper ∧ ∀ f ∈ members, f.Proper
  | .module attributes v _ _ => (∀ a ∈ attributes, a.Proper) ∧ v.Proper
  | .named _ attributes v _ => (∀ a ∈ attributes, a.Proper) ∧ v.Proper
  | .plain => True

/-- So are the items in it. -/
def Item.Throughout (item : Item) : Prop := ∀ module, ∀ part ∈ item.parts module, part.2.Proper

/-- The item holds no items. -/
def Item.isSingle : Item → Bool
  | .module .. => false
  | _ => true

theorem Item.throughout_of_isSingle {item : Item} (hs : item.isSingle = true) (h : item.Proper) : item.Throughout := by
  intro module part hp
  cases item with
  | module _ _ _ _ => cases hs
  | _ => exact List.mem_singleton.mp hp ▸ h

theorem Item.throughout_module {attributes : List Attribute} {v : VisibilityExpr} {name : String} {content : List Item}
    (ha : ∀ a ∈ attributes, a.Proper) (hv : v.Proper) (h : ∀ item ∈ content, item.Throughout) :
    (Item.module attributes v name content).Throughout := by
  intro module part hp
  rw [parts] at hp
  rcases List.mem_cons.mp hp with rfl | hp
  · exact ⟨ha, hv⟩
  · obtain ⟨item, hi, hin⟩ := mem_partsOfAll_iff.mp hp
    exact h item hi _ part hin

namespace Read

open BuilderSynthesis.Syntax.Parser

variable {g : Grammar} {attributes : List Attribute} {v : VisibilityExpr}

theorem gives_single {item : Item} {canonical : Bool} (hs : item.isSingle = true) (h : item.Proper) :
    GivesOf IsIdentifier (pure (item, canonical)) fun read => read.1.Throughout :=
  gives_pure (Item.throughout_of_isSingle hs h)

/-- The attributes before an item and those in it. -/
theorem proper_attributes {more : List Attribute} (ha : ∀ a ∈ attributes, a.Proper) (hm : ∀ a ∈ more, a.Proper) :
    ∀ a ∈ attributes ++ more, a.Proper := by
  intro a h
  rcases List.mem_append.mp h with h | h
  · exact ha a h
  · exact hm a h

theorem gives_throughModule (ha : ∀ a ∈ attributes, a.Proper) (hv : v.Proper)
    (hitem : GivesOf IsIdentifier g.item Item.Throughout) :
    GivesOf IsIdentifier (moduleItem g attributes v) Item.Throughout := by
  refine gives_bind fun _ => gives_bind fun _ => gives_bind fun name => gives_bind fun ended => ?_
  refine gives_ite (gives_pure (Item.throughout_module ha hv fun item hi => by cases hi)) (gives_bind fun braced => ?_)
  refine gives_ite (gives_properInner.bind fun inner hinner => hitem.whileSeen.bind fun items hitems => ?_).inside
    gives_failNoneOf
  exact gives_pure (Item.throughout_module (proper_attributes ha hinner) hv hitems)

theorem gives_throughTrait (ha : ∀ a ∈ attributes, a.Proper) (hv : v.Proper) :
    GivesOf IsIdentifier (traitOrAlias g attributes v) Item.Throughout := by
  have hbody : ∀ name : String, GivesOf IsIdentifier (do pure (.named .trait (← traitBody g attributes) v name)) Item.Throughout := by
    intro name
    have hattributes : GivesOf IsIdentifier (traitBody g attributes) fun attrs => ∀ a ∈ attrs, a.Proper := by
      refine gives_bind fun _ => gives_bind fun _ => (gives_properInner.bind fun inner hinner => gives_bind fun _ => ?_).inside
      exact gives_pure (proper_attributes ha hinner)
    exact hattributes.bind fun attrs hattrs => gives_pure (Item.throughout_of_isSingle rfl ⟨hattrs, hv⟩)
  refine gives_bind fun isUnsafe => gives_bind fun isAuto => gives_bind fun _ => gives_bind fun name => ?_
  refine gives_bind fun _ => gives_ite (hbody name) (gives_bind fun bodied => gives_ite (hbody name) ?_)
  refine gives_bind fun renamed => gives_ite ?_ gives_failNoneOf
  exact gives_bind fun _ => gives_bind fun _ => gives_bind fun _ =>
    gives_pure (Item.throughout_of_isSingle rfl trivial)

theorem gives_throughBlock (ha : ∀ a ∈ attributes, a.Proper) (hg : Proper g)
    (hp : GivesOf IsIdentifier g.pattern PatternShape.Proper) (visible : Bool) :
    GivesOf IsIdentifier (functionsItem g attributes visible) fun read => read.1.Throughout := by
  refine gives_bind fun _ => gives_bind fun _ => gives_bind fun _ => gives_bind fun opens => ?_
  refine gives_optional fun _ => gives_bind fun isConst => gives_bind fun position => ?_
  refine gives_bind fun mark => gives_bind fun brace => ?_
  refine gives_optional fun _ => (hg true).bind fun first hfirst => gives_bind fun ofTrait => ?_
  have hsubject : ∀ named, GivesOf IsIdentifier (if ofTrait then do pure (← g.type true, named)
      else if mark && !brace then failAt position .negativeInherentBlock else pure (first, true))
      fun read : TypeExpr × Bool => read.1.Proper := by
    intro named
    refine gives_ite ((hg true).bind fun subject hs => gives_pure hs) (gives_ite ?_ (gives_pure hfirst))
    exact fun _ _ _ _ h => by cases h
  refine (hsubject _).bind fun ⟨subject, ordinary⟩ hsubject => gives_bind fun _ => GivesOf.inside ?_
  refine gives_properInner.bind fun inner hinner => (gives_properBlockItem hp).whileSeen.bind fun items hitems => gives_pure ?_
  dsimp only
  split
  · refine Item.throughout_of_isSingle rfl ⟨proper_attributes ha hinner, hsubject, fun f hf => ?_⟩
    obtain ⟨item, hi, hf⟩ := List.mem_filterMap.mp hf
    exact hitems item hi f hf
  · exact Item.throughout_of_isSingle rfl trivial

theorem gives_throughUnsafe (ha : ∀ a ∈ attributes, a.Proper) (hv : v.Proper) (hg : Proper g)
    (hp : GivesOf IsIdentifier g.pattern PatternShape.Proper) (hitem : GivesOf IsIdentifier g.item Item.Throughout)
    (start : Position) : GivesOf IsIdentifier (unsafeItem g attributes v start) fun read => read.1.Throughout := by
  refine gives_bind fun _ => gives_bind fun _ => gives_bind fun _ => ?_
  refine gives_ite ((gives_throughTrait ha hv).bind fun item hi => gives_pure hi) (gives_bind fun ofImpl => ?_)
  refine gives_ite (gives_throughBlock ha hg hp _) (gives_bind fun ofExtern => ?_)
  refine gives_ite (gives_bind fun _ => gives_bind fun _ => gives_single rfl trivial) ?_
  refine gives_bind fun ofModule => gives_ite ?_ (gives_bind fun _ => gives_failNoneOf)
  exact (gives_throughModule ha hv hitem).bind fun item hi => gives_pure hi

/-- An item of which only the outside is kept, unless it is incomplete. -/
theorem gives_outside (ha : ∀ a ∈ attributes, a.Proper) (hv : v.Proper) {kind : ItemKind} {name : String} {complete : Bool} :
    GivesOf IsIdentifier (pure (if complete then Item.named kind attributes v name else .plain, complete))
      fun read : Item × Bool => read.1.Throughout := by
  cases complete with
  | true => exact gives_single rfl ⟨ha, hv⟩
  | false => exact gives_single rfl trivial

theorem gives_throughBody (ha : ∀ a ∈ attributes, a.Proper) (hv : v.Proper) (hg : Proper g)
    (hp : GivesOf IsIdentifier g.pattern PatternShape.Proper) (hitem : GivesOf IsIdentifier g.item Item.Throughout)
    (start : Position) : GivesOf IsIdentifier (itemBody g attributes v start) fun read => read.1.Throughout := by
  refine gives_bind fun signed => gives_ite ?_ ?_
  · refine (gives_properSignature hp).bind fun signature hs => gives_bind fun ended => gives_ite (gives_single rfl trivial) ?_
    exact (gives_properFunction ha hv hs).bind fun function hf => gives_single rfl hf
  refine gives_bind fun ofExtern => gives_ite (gives_bind fun _ => gives_single rfl trivial) ?_
  refine gives_bind fun ofUse => gives_ite (gives_bind fun canonical => gives_single rfl trivial) ?_
  refine gives_bind fun ofStatic => gives_ite (gives_bind fun ⟨name, complete⟩ => gives_outside ha hv) ?_
  refine gives_bind fun ofConst => gives_ite (gives_bind fun constant => gives_outside ha hv) ?_
  refine gives_bind fun ofUnsafe => gives_ite (gives_throughUnsafe ha hv hg hp hitem start) ?_
  refine gives_bind fun ofModule => gives_ite ?_ ?_
  · exact (gives_throughModule ha hv hitem).bind fun item hi => gives_pure hi
  refine gives_bind fun ofType => gives_ite (gives_bind fun type => gives_outside ha hv) ?_
  refine gives_bind fun ofStruct => gives_ite ?_ ?_
  · exact (gives_properStruct ha hv).bind fun s hs => gives_single rfl hs
  refine gives_bind fun ofEnum => gives_ite (gives_bind fun name => gives_single rfl ⟨ha, hv⟩) ?_
  refine gives_bind fun ofUnion => gives_bind fun named => gives_ite (gives_bind fun name => gives_single rfl ⟨ha, hv⟩) ?_
  refine gives_bind fun ofTrait => gives_bind fun auto => gives_bind fun autoTrait => gives_ite ?_ ?_
  · exact (gives_throughTrait ha hv).bind fun item hi => gives_pure hi
  refine gives_bind fun ofImpl => gives_bind fun default => gives_ite (gives_throughBlock ha hg hp _) ?_
  refine gives_bind fun ofMacro => gives_ite (gives_bind fun _ => gives_single rfl trivial) ?_
  exact gives_bind fun invoked => gives_ite (gives_bind fun _ => gives_single rfl trivial) gives_failNoneOf

theorem gives_throughItem (hg : Proper g) (hp : GivesOf IsIdentifier g.pattern PatternShape.Proper)
    (hitem : GivesOf IsIdentifier g.item Item.Throughout) : GivesOf IsIdentifier (item g) Item.Throughout := by
  have hbody : GivesOf IsIdentifier (do
      let attributes ← outerAttributes g
      let start ← here
      let v ← visibility
      itemBody g attributes v start) fun read => read.1.Throughout :=
    gives_properAttributes.bind fun attributes ha => gives_bind fun start => gives_properVisibility.bind fun v hv =>
      gives_throughBody ha hv hg hp hitem start
  exact GivesOf.orAsItStands hbody

end Read

open BuilderSynthesis.Syntax.Parser in
theorem gives_throughout (depth : Nat) : GivesOf IsIdentifier (grammar depth).item Item.Throughout := by
  induction depth with
  | zero => exact gives_fail
  | succ depth ih =>
    refine Read.gives_throughItem (proper_grammar depth) ?_ ih
    cases depth with
    | zero => exact gives_fail
    | succ depth => exact Read.gives_properPattern

open BuilderSynthesis.Syntax.Parser in
/-- In a file that reads, all items are proper down to the innermost module. -/
theorem throughout_of_readFile {cs : List Char} {items : List Item} (h : readFileChars cs = .ok items) :
    ∀ item ∈ items, item.Throughout := by
  unfold readFileChars readChars at h
  split at h
  · cases h
  · rename_i ts hts
    cases hr : readTokens Read.file ts .start with
    | error problem =>
      rw [hr] at h
      cases h
    | ok read =>
      rw [hr] at h
      cases h
      obtain ⟨after, hp, -⟩ := onTokens_eq_ok hr
      have hfile : GivesOf IsIdentifier (Read.file (grammarFor ts)) fun items => ∀ item ∈ items, item.Throughout :=
        gives_bind fun _ => (gives_throughout _).whileSeen
      exact hfile (identified_tokensOf hts) hp

/-- The name of the type that a block stands for is one. -/
theorem isName_of_blockName? {ofTrait : Bool} {subject : TypeExpr} {name : String} (hs : subject.Proper)
    (h : Scan.blockName? ofTrait subject = some name) : IsName name := by
  unfold Scan.blockName? at h
  split at h
  · rename_i path
    split at h
    · cases h
    · obtain ⟨leading, segments⟩ := path
      obtain ⟨⟨name, arguments⟩, hin, rfl⟩ := List.mem_map.mp (List.mem_of_getLast? h)
      have hproper := Segment.allProper_iff.mp hs.2 _ hin
      exact isName_of_isIdentifier hproper.1
  · cases h

end Syntax

namespace Scan

open Syntax

/-! ## What is found in them -/

/-- The findings in an item without those in the items in it. -/
def outerFindings (file : String) (module : ModulePath) : Item → List Finding
  | .module attributes v name _ => itemDirectives file module (visibilityOf v) (misplaced "module" name) attributes
  | item => itemFindings file module item

mutual

theorem itemFindings_eq (file : String) (module : ModulePath) : ∀ item : Item,
    itemFindings file module item = (item.parts module).flatMap fun part => outerFindings file part.1 part.2
  | .module _ _ name content => by
    rw [itemFindings, Item.parts, List.flatMap_cons, itemsFindings_eq file (module.child name) content]
    rfl
  | .struct _ => List.append_nil _ |>.symm
  | .functions .. => List.append_nil _ |>.symm
  | .function _ => List.append_nil _ |>.symm
  | .named .. => List.append_nil _ |>.symm
  | .plain => List.append_nil _ |>.symm

/-- What is found in items is what is found in each of them by itself, from the outside inwards. -/
theorem itemsFindings_eq (file : String) (module : ModulePath) : ∀ items : List Item,
    itemsFindings file module items =
      (Item.partsOfAll module items).flatMap fun part => outerFindings file part.1 part.2
  | [] => rfl
  | item :: rest => by
    rw [itemsFindings, Item.partsOfAll, List.flatMap_append, itemFindings_eq file module item,
      itemsFindings_eq file module rest]

end

end Scan

end BuilderSynthesis
