/-
  BuilderSynthesis.Proofs.Borrows — the borrows that are seen in a type.

  A type has a borrow if a reference or a lifetime stands anywhere in it (`TypeExpr.HasBorrow`). What a
  declared type keeps of a written one is less: arrays, slices, references, and the types and lifetimes
  that are passed to the last name of a path (`PathExpr.passed?`). Every other form is kept as text
  (`TypeExpr.isText`), and nothing is looked for in a text.

  So a borrow is seen exactly where it stands in what is kept (`borrows_ofType_iff`). Each borrow of a type
  is either shown or hidden in a text or in the length of an array (`hasBorrow_iff`), and the answer is
  right for a type unless all of its borrows are hidden (`borrows_are_seen_where_they_show`). A method that
  returns a pair with a reference in it is taken for one that returns something of its own
  (`a_borrow_in_a_tuple_is_not_seen`).
-/

import BuilderSynthesis.Proofs.PrintedTypes
import BuilderSynthesis.Scan.Items

namespace BuilderSynthesis

namespace Syntax

/-! ## Borrows anywhere -/

mutual

/-- A reference or a lifetime stands somewhere in a type. Of the parts that are kept as tokens, such as the
length of an array or what a `for` binds, `kept` says whether one stands there. -/
inductive TypeExpr.HasBorrow (kept : List Token → Prop) : TypeExpr → Prop where
  | reference {lifetime : Option String} {mutable : Bool} {referent : TypeExpr} :
      TypeExpr.HasBorrow kept (.reference lifetime mutable referent)
  | element {element : TypeExpr} {length : List Token} (h : element.HasBorrow kept) :
      TypeExpr.HasBorrow kept (.array element length)
  | length {element : TypeExpr} {length : List Token} (h : kept length) :
      TypeExpr.HasBorrow kept (.array element length)
  | slice {element : TypeExpr} (h : element.HasBorrow kept) : TypeExpr.HasBorrow kept (.slice element)
  | tuple {elements : List TypeExpr} {trailing : Bool} {t : TypeExpr} (hmem : t ∈ elements) (h : t.HasBorrow kept) :
      TypeExpr.HasBorrow kept (.tuple elements trailing)
  | paren {inner : TypeExpr} (h : inner.HasBorrow kept) : TypeExpr.HasBorrow kept (.paren inner)
  | pointer {mutable : Bool} {target : TypeExpr} (h : target.HasBorrow kept) :
      TypeExpr.HasBorrow kept (.pointer mutable target)
  | path {path : PathExpr} (h : path.HasBorrow kept) : TypeExpr.HasBorrow kept (.path path)
  | subject {subject : TypeExpr} {asTrait : Option PathExpr} {rest : List Segment} (h : subject.HasBorrow kept) :
      TypeExpr.HasBorrow kept (.qualified subject asTrait rest)
  | asTrait {subject : TypeExpr} {path : PathExpr} {rest : List Segment} (h : path.HasBorrow kept) :
      TypeExpr.HasBorrow kept (.qualified subject (some path) rest)
  | rest {subject : TypeExpr} {asTrait : Option PathExpr} {rest : List Segment} {s : Segment} (hmem : s ∈ rest)
      (h : s.HasBorrow kept) : TypeExpr.HasBorrow kept (.qualified subject asTrait rest)
  | introduction {introduction : List Token} {inputs : List Input} {trailing : Bool} {variadic : List Token}
      {output : Option TypeExpr} (h : kept introduction) :
      TypeExpr.HasBorrow kept (.function introduction inputs trailing variadic output)
  | input {introduction : List Token} {inputs : List Input} {trailing : Bool} {variadic : List Token}
      {output : Option TypeExpr} {i : Input} (hmem : i ∈ inputs) (h : i.HasBorrow kept) :
      TypeExpr.HasBorrow kept (.function introduction inputs trailing variadic output)
  | variadic {introduction : List Token} {inputs : List Input} {trailing : Bool} {variadic : List Token}
      {output : Option TypeExpr} (h : kept variadic) :
      TypeExpr.HasBorrow kept (.function introduction inputs trailing variadic output)
  | output {introduction : List Token} {inputs : List Input} {trailing : Bool} {variadic : List Token} {t : TypeExpr}
      (h : t.HasBorrow kept) : TypeExpr.HasBorrow kept (.function introduction inputs trailing variadic (some t))
  | traitObject {dyn : Bool} {bounds : List Bound} {trailing : Bool} {b : Bound} (hmem : b ∈ bounds)
      (h : b.HasBorrow kept) : TypeExpr.HasBorrow kept (.traitObject dyn bounds trailing)
  | implTrait {bounds : List Bound} {trailing : Bool} {b : Bound} (hmem : b ∈ bounds) (h : b.HasBorrow kept) :
      TypeExpr.HasBorrow kept (.implTrait bounds trailing)
  | invocation {tokens : List Token} (h : kept tokens) : TypeExpr.HasBorrow kept (.invocation tokens)
  | verbatim {tokens : List Token} (h : kept tokens) : TypeExpr.HasBorrow kept (.verbatim tokens)

inductive PathExpr.HasBorrow (kept : List Token → Prop) : PathExpr → Prop where
  | segment {leading : Bool} {segments : List Segment} {s : Segment} (hmem : s ∈ segments) (h : s.HasBorrow kept) :
      PathExpr.HasBorrow kept (.mk leading segments)

inductive Segment.HasBorrow (kept : List Token → Prop) : Segment → Prop where
  | arguments {name : String} {arguments : Arguments} (h : arguments.HasBorrow kept) :
      Segment.HasBorrow kept (.mk name arguments)

inductive Arguments.HasBorrow (kept : List Token → Prop) : Arguments → Prop where
  | angled {turbofish : Bool} {arguments : List Argument} {trailing : Bool} {a : Argument} (hmem : a ∈ arguments)
      (h : a.HasBorrow kept) : Arguments.HasBorrow kept (.angled turbofish arguments trailing)
  | input {inputs : List TypeExpr} {trailing : Bool} {output : Option TypeExpr} {t : TypeExpr} (hmem : t ∈ inputs)
      (h : t.HasBorrow kept) : Arguments.HasBorrow kept (.called inputs trailing output)
  | output {inputs : List TypeExpr} {trailing : Bool} {t : TypeExpr} (h : t.HasBorrow kept) :
      Arguments.HasBorrow kept (.called inputs trailing (some t))

inductive Argument.HasBorrow (kept : List Token → Prop) : Argument → Prop where
  | lifetime {name : String} : Argument.HasBorrow kept (.lifetime name)
  | type {t : TypeExpr} (h : t.HasBorrow kept) : Argument.HasBorrow kept (.type t)
  | constant {value : List Token} (h : kept value) : Argument.HasBorrow kept (.constant value)
  | bindingGenerics {name : String} {generics : Arguments} {value : TypeExpr} (h : generics.HasBorrow kept) :
      Argument.HasBorrow kept (.binding name generics value)
  | binding {name : String} {generics : Arguments} {value : TypeExpr} (h : value.HasBorrow kept) :
      Argument.HasBorrow kept (.binding name generics value)
  | constantGenerics {name : String} {generics : Arguments} {value : List Token} (h : generics.HasBorrow kept) :
      Argument.HasBorrow kept (.constantBinding name generics value)
  | constantBinding {name : String} {generics : Arguments} {value : List Token} (h : kept value) :
      Argument.HasBorrow kept (.constantBinding name generics value)
  | constraintGenerics {name : String} {generics : Arguments} {bounds : List Bound} {trailing : Bool}
      (h : generics.HasBorrow kept) : Argument.HasBorrow kept (.constraint name generics bounds trailing)
  | constraint {name : String} {generics : Arguments} {bounds : List Bound} {trailing : Bool} {b : Bound}
      (hmem : b ∈ bounds) (h : b.HasBorrow kept) : Argument.HasBorrow kept (.constraint name generics bounds trailing)

inductive Bound.HasBorrow (kept : List Token → Prop) : Bound → Prop where
  | introduction {inParens : Bool} {introduction : List Token} {path : PathExpr} (h : kept introduction) :
      Bound.HasBorrow kept (.trait inParens introduction path)
  | trait {inParens : Bool} {introduction : List Token} {path : PathExpr} (h : path.HasBorrow kept) :
      Bound.HasBorrow kept (.trait inParens introduction path)
  | lifetime {name : String} : Bound.HasBorrow kept (.lifetime name)
  | capture {tokens : List Token} (h : kept tokens) : Bound.HasBorrow kept (.capture tokens)
  | verbatim {tokens : List Token} (h : kept tokens) : Bound.HasBorrow kept (.verbatim tokens)

inductive Input.HasBorrow (kept : List Token → Prop) : Input → Prop where
  | introduction {introduction : List Token} {t : TypeExpr} (h : kept introduction) :
      Input.HasBorrow kept (.mk introduction t)
  | type {introduction : List Token} {t : TypeExpr} (h : t.HasBorrow kept) : Input.HasBorrow kept (.mk introduction t)

end

/-! ## What is kept of a type -/

/-- A type or a lifetime. -/
def Argument.isPassed : Argument → Bool
  | .lifetime _ | .type _ => true
  | _ => false

def Arguments.passed? : Arguments → Option (List Argument)
  | .none => some []
  | .angled _ arguments _ => if arguments.all Argument.isPassed then some arguments else Option.none
  | .called .. => Option.none

def Segment.passed? : List Segment → Option (List Argument)
  | [] => none
  | [.mk _ arguments] => arguments.passed?
  | .mk _ arguments :: next :: rest => if arguments.isNone then Segment.passed? (next :: rest) else none

/-- What is passed to the last name of a path, if that is types and lifetimes only and nothing is passed to the
names before it. -/
def PathExpr.passed? (p : PathExpr) : Option (List Argument) := Segment.passed? p.segments

/-- The type has a form of which nothing but the text is kept. -/
def TypeExpr.isText : TypeExpr → Bool
  | .array .. | .slice _ | .reference .. => false
  | .path p => p.passed?.isNone
  | _ => true

variable {kept : List Token → Prop} {t : TypeExpr} {p : PathExpr} {args : List Argument}

theorem Segment.sizeOf_passed {segments : List Segment} (h : Segment.passed? segments = some args) :
    sizeOf args < sizeOf segments ∨ args = [] := by
  fun_induction Segment.passed? segments with
  | case1 => cases h
  | case2 name arguments =>
    cases arguments with
    | none => exact .inr (Option.some.inj h).symm
    | called => cases h
    | angled turbofish given trailing =>
      obtain ⟨-, hgiven⟩ := Option.ite_none_right_eq_some.mp h
      obtain rfl := Option.some.inj hgiven
      refine .inl ?_
      simp only [List.cons.sizeOf_spec, Segment.mk.sizeOf_spec, Arguments.angled.sizeOf_spec]
      omega
  | case3 name arguments next rest hnone ih =>
    refine (ih h).imp_left fun hlt => hlt.trans ?_
    rw [List.cons.sizeOf_spec (Segment.mk name arguments)]
    omega
  | case4 => cases h

/-- A type that is passed to a path is smaller. -/
theorem sizeOf_of_passed (hp : p.passed? = some args) (ht : .type t ∈ args) :
    sizeOf t < sizeOf (TypeExpr.path p) := by
  obtain ⟨leading, segments⟩ := p
  have hmem := List.sizeOf_lt_of_mem ht
  rcases Segment.sizeOf_passed hp with hlt | rfl
  · have hsegments : sizeOf args < sizeOf segments := hlt
    rw [Argument.type.sizeOf_spec] at hmem
    rw [TypeExpr.path.sizeOf_spec, PathExpr.mk.sizeOf_spec]
    omega
  · cases ht

/-- A property of types holds if it is carried over from the parts that are kept, and holds of every text. -/
@[elab_as_elim] theorem TypeExpr.keptInduction {motive : TypeExpr → Prop}
    (array : ∀ element length, motive element → motive (.array element length))
    (slice : ∀ element, motive element → motive (.slice element))
    (reference : ∀ lifetime mutable referent, motive (.reference lifetime mutable referent))
    (path : ∀ p args, p.passed? = some args → (∀ t, .type t ∈ args → motive t) → motive (.path p))
    (text : ∀ t : TypeExpr, t.isText = true → motive t) (t : TypeExpr) : motive t := by
  match t with
  | .array element length => exact array element length (keptInduction array slice reference path text element)
  | .slice element => exact slice element (keptInduction array slice reference path text element)
  | .reference lifetime mutable referent => exact reference lifetime mutable referent
  | .path p =>
    cases hp : p.passed? with
    | none => exact text _ (by rw [isText, hp]; rfl)
    | some args => exact path p args hp fun t ht => keptInduction array slice reference path text t
  | .tuple .. | .paren _ | .pointer .. | .never | .inferred | .qualified .. | .function .. | .traitObject ..
  | .implTrait .. | .invocation _ | .verbatim _ => exact text _ rfl
termination_by sizeOf t
decreasing_by
  · rw [TypeExpr.array.sizeOf_spec]
    omega
  · rw [TypeExpr.slice.sizeOf_spec]
    omega
  · exact sizeOf_of_passed hp ht

/-! ## Shown and hidden borrows -/

/-- A reference or a lifetime stands in what is kept of a type. -/
inductive TypeExpr.ShowsBorrow : TypeExpr → Prop where
  | reference {lifetime : Option String} {mutable : Bool} {referent : TypeExpr} :
      ShowsBorrow (.reference lifetime mutable referent)
  | array {element : TypeExpr} {length : List Token} (h : element.ShowsBorrow) : ShowsBorrow (.array element length)
  | slice {element : TypeExpr} (h : element.ShowsBorrow) : ShowsBorrow (.slice element)
  | lifetime {p : PathExpr} {args : List Argument} {name : String} (hp : p.passed? = some args)
      (hmem : .lifetime name ∈ args) : ShowsBorrow (.path p)
  | argument {p : PathExpr} {args : List Argument} {t : TypeExpr} (hp : p.passed? = some args) (hmem : .type t ∈ args)
      (h : t.ShowsBorrow) : ShowsBorrow (.path p)

/-- A reference or a lifetime stands in a part of a type that is kept as text. -/
inductive TypeExpr.HidesBorrow (kept : List Token → Prop) : TypeExpr → Prop where
  | length {element : TypeExpr} {length : List Token} (h : kept length) : HidesBorrow kept (.array element length)
  | array {element : TypeExpr} {length : List Token} (h : element.HidesBorrow kept) :
      HidesBorrow kept (.array element length)
  | slice {element : TypeExpr} (h : element.HidesBorrow kept) : HidesBorrow kept (.slice element)
  | argument {p : PathExpr} {args : List Argument} {t : TypeExpr} (hp : p.passed? = some args) (hmem : .type t ∈ args)
      (h : t.HidesBorrow kept) : HidesBorrow kept (.path p)
  | text {t : TypeExpr} (ht : t.isText = true) (h : t.HasBorrow kept) : HidesBorrow kept t

theorem TypeExpr.not_showsBorrow_of_isText (h : t.isText = true) : ¬ t.ShowsBorrow := by
  intro hshows
  cases hshows with
  | reference | array | slice => cases h
  | lifetime hp | argument hp => simp [isText, hp] at h

theorem isPassed_of_passed (hp : p.passed? = some args) : ∀ a ∈ args, a.isPassed = true := by
  obtain ⟨leading, segments⟩ := p
  unfold PathExpr.passed? PathExpr.segments at hp
  fun_induction Segment.passed? segments with
  | case1 => cases hp
  | case2 name arguments =>
    cases arguments with
    | none =>
      obtain rfl := Option.some.inj hp
      simp
    | called => cases hp
    | angled turbofish given trailing =>
      obtain ⟨hgiven, hargs⟩ := Option.ite_none_right_eq_some.mp hp
      obtain rfl := Option.some.inj hargs
      exact List.all_eq_true.mp hgiven
  | case3 name arguments next rest hnone ih => exact ih hp
  | case4 => cases hp

theorem Segment.not_hasBorrow {name : String} {arguments : Arguments} (h : arguments.isNone = true) :
    ¬ (Segment.mk name arguments).HasBorrow kept := by
  intro hborrow
  cases arguments with
  | none => cases hborrow with | arguments hnone => cases hnone
  | angled | called => cases h

/-- The borrows of a path that is kept stand in what is passed to it. -/
theorem PathExpr.hasBorrow_iff (hp : p.passed? = some args) :
    p.HasBorrow kept ↔ ∃ a ∈ args, a.HasBorrow kept := by
  obtain ⟨leading, segments⟩ := p
  have hsegments : (PathExpr.mk leading segments).HasBorrow kept ↔ ∃ s ∈ segments, s.HasBorrow kept :=
    ⟨fun | .segment hmem h => ⟨_, hmem, h⟩, fun ⟨_, hmem, h⟩ => .segment hmem h⟩
  unfold PathExpr.passed? PathExpr.segments at hp
  refine hsegments.trans ?_
  clear hsegments
  fun_induction Segment.passed? segments with
  | case1 => cases hp
  | case2 name arguments =>
    cases arguments with
    | none =>
      obtain rfl := Option.some.inj hp
      simp [Segment.not_hasBorrow (show Arguments.none.isNone = true from rfl)]
    | called => cases hp
    | angled turbofish given trailing =>
      obtain ⟨-, hargs⟩ := Option.ite_none_right_eq_some.mp hp
      obtain rfl := Option.some.inj hargs
      constructor
      · rintro ⟨s, hs, hborrow⟩
        obtain rfl := List.mem_singleton.mp hs
        cases hborrow with
        | arguments hangled => cases hangled with | angled hmem h => exact ⟨_, hmem, h⟩
      · rintro ⟨a, hmem, h⟩
        exact ⟨_, List.mem_singleton_self _, .arguments (.angled hmem h)⟩
  | case3 name arguments next rest hempty ih =>
    have hrest := ih hp
    rw [List.exists_mem_cons_iff, or_iff_right (Segment.not_hasBorrow hempty)]
    exact hrest
  | case4 => cases hp

theorem TypeExpr.ShowsBorrow.hasBorrow (h : t.ShowsBorrow) : t.HasBorrow kept := by
  induction h with
  | reference => exact .reference
  | array _ ih => exact .element ih
  | slice _ ih => exact .slice ih
  | lifetime hp hmem => exact .path ((PathExpr.hasBorrow_iff hp).mpr ⟨_, hmem, .lifetime⟩)
  | argument hp hmem _ ih => exact .path ((PathExpr.hasBorrow_iff hp).mpr ⟨_, hmem, .type ih⟩)

theorem TypeExpr.HidesBorrow.hasBorrow (h : t.HidesBorrow kept) : t.HasBorrow kept := by
  induction h with
  | length h => exact .length h
  | array _ ih => exact .element ih
  | slice _ ih => exact .slice ih
  | argument hp hmem _ ih => exact .path ((PathExpr.hasBorrow_iff hp).mpr ⟨_, hmem, .type ih⟩)
  | text _ h => exact h

/-- Every borrow of a type is shown or hidden. -/
theorem TypeExpr.hasBorrow_iff (kept : List Token → Prop) (t : TypeExpr) :
    t.HasBorrow kept ↔ t.ShowsBorrow ∨ t.HidesBorrow kept := by
  refine ⟨fun h => ?_, fun h => h.elim ShowsBorrow.hasBorrow HidesBorrow.hasBorrow⟩
  induction t using TypeExpr.keptInduction with
  | array element length ih =>
    cases h with
    | element h => exact (ih h).imp .array .array
    | length h => exact .inr (.length h)
  | slice element ih => cases h with | slice h => exact (ih h).imp .slice .slice
  | reference => exact .inl .reference
  | path p args hp ih =>
    cases h with
    | path h =>
      obtain ⟨a, hmem, ha⟩ := (PathExpr.hasBorrow_iff hp).mp h
      have hpassed := isPassed_of_passed hp a hmem
      cases a with
      | lifetime name => exact .inl (.lifetime hp hmem)
      | type t =>
        cases ha with
        | type ha => exact (ih t hmem ha).imp (.argument hp hmem) (.argument hp hmem)
      | constant | binding | constantBinding | constraint => cases hpassed
  | text t ht => exact .inr (.text ht h)

end Syntax

/-! ## What the declared type says -/

namespace TypeRef

open Syntax

variable {t : TypeExpr} {p : PathExpr} {args : List Argument}

/-- What is kept of a type or a lifetime that is passed. -/
def ofPassed : Argument → TypeRef
  | .lifetime name => .lifetime name
  | .type t => ofType t
  | _ => default

theorem borrowsAny_eq (types : List TypeRef) : borrowsAny types = types.any borrows := by
  induction types with
  | nil => rfl
  | cons type rest ih => rw [borrowsAny, ih, List.any_cons]

theorem ofArgumentList_eq (arguments : List Argument) :
    ofArgumentList arguments =
      if arguments.all Argument.isPassed then some (arguments.map ofPassed) else none := by
  induction arguments with
  | nil => rfl
  | cons a rest ih =>
    cases a with
    | lifetime | type =>
      simp only [ofArgumentList, ih, List.all_cons, Argument.isPassed, Bool.true_and]
      split <;> rfl
    | constant | binding | constantBinding | constraint => rfl

/-- The arguments that a declared type keeps of a path. -/
theorem ofSegments_eq (segments : List Segment) :
    (ofSegments segments).map (fun kept => kept.2.getD []) = (Segment.passed? segments).map (·.map ofPassed) := by
  fun_induction Segment.passed? segments with
  | case1 => rfl
  | case2 name arguments =>
    cases arguments with
    | none => rfl
    | called => rfl
    | angled turbofish given trailing =>
      simp only [ofSegments, ofArguments, ofArgumentList_eq, Arguments.passed?]
      split <;> rfl
  | case3 name arguments next rest hnone ih =>
    rw [ofSegments, if_pos hnone, ← ih, Option.map_map]
    rfl
  | case4 name arguments next rest hsome => rw [ofSegments, if_neg hsome]; rfl

/-- A path is known to borrow if something that is passed to it is. -/
theorem borrows_ofPath (p : PathExpr) :
    (ofPath p).map borrows = p.passed?.map fun args => args.any fun a => (ofPassed a).borrows := by
  obtain ⟨leading, segments⟩ := p
  have harguments := ofSegments_eq segments
  have hpath : (ofPath (.mk leading segments)).map borrows =
      (ofSegments segments).map fun kept => (kept.2.getD []).any borrows := by
    rw [ofPath, Option.map_map]
    refine Option.map_congr fun ⟨names, arguments⟩ _ => ?_
    cases arguments with
    | some types => exact borrowsAny_eq types
    | none => exact (apply_ite borrows _ _ _).trans (ite_self false)
  calc (ofPath (.mk leading segments)).map borrows
      = ((ofSegments segments).map fun kept => kept.2.getD []).map (·.any borrows) := by rw [hpath, Option.map_map]; rfl
    _ = ((Segment.passed? segments).map (·.map ofPassed)).map (·.any borrows) := by rw [harguments]
    _ = (Segment.passed? segments).map fun args => args.any fun a => (ofPassed a).borrows := by
      rw [Option.map_map]
      exact Option.map_congr fun args _ => List.any_map

theorem borrows_of_isText (h : t.isText = true) : (ofType t).borrows = false := by
  cases t with
  | array | slice | reference => cases h
  | path p =>
    have hpath := borrows_ofPath p
    rw [Option.isNone_iff_eq_none.mp h, Option.map_none, Option.map_eq_none_iff] at hpath
    rw [ofType, hpath]
    rfl
  | _ => rfl

theorem borrows_of_passed (hp : p.passed? = some args) :
    (ofType (.path p)).borrows = args.any fun a => (ofPassed a).borrows := by
  have hpath := borrows_ofPath p
  rw [hp] at hpath
  obtain ⟨type, htype, hborrows⟩ := Option.map_eq_some_iff.mp hpath
  rw [ofType, htype]
  exact hborrows

/-- The declared type is known to borrow if the written one shows that it does. -/
theorem borrows_ofType_iff (t : TypeExpr) : (ofType t).borrows = true ↔ t.ShowsBorrow := by
  induction t using TypeExpr.keptInduction with
  | array element length ih => exact ih.trans ⟨.array, fun | .array h => h⟩
  | slice element ih => exact ih.trans ⟨.slice, fun | .slice h => h⟩
  | reference => exact iff_of_true rfl .reference
  | path p args hp ih =>
    rw [borrows_of_passed hp, List.any_eq_true]
    constructor
    · rintro ⟨a, hmem, ha⟩
      have hpassed := isPassed_of_passed hp a hmem
      cases a with
      | lifetime name => exact .lifetime hp hmem
      | type t => exact .argument hp hmem ((ih t hmem).mp ha)
      | constant | binding | constantBinding | constraint => cases hpassed
    · intro h
      cases h with
      | lifetime hp' hmem =>
        obtain rfl := Option.some.inj (hp.symm.trans hp')
        exact ⟨_, hmem, rfl⟩
      | argument hp' hmem h =>
        obtain rfl := Option.some.inj (hp.symm.trans hp')
        exact ⟨_, hmem, (ih _ hmem).mpr h⟩
  | text t ht => exact iff_of_false (by simp [borrows_of_isText ht]) (TypeExpr.not_showsBorrow_of_isText ht)

end TypeRef

/-! ## Methods that read a value -/

namespace Scan

open Syntax

variable {f : FunctionItem} {t : TypeExpr}

/-- A method that takes its value by shared reference and nothing else, can be called as it is, and returns
something of the type: neither the empty tuple nor an `impl Trait`. -/
structure ReadsValue (f : FunctionItem) (t : TypeExpr) : Prop where
  receiver : f.signature.receiver? = some (true, false)
  alone : f.signature.inputs.length = 1
  generics : f.signature.generics.parameters = []
  sync : f.signature.isAsync = false
  safe : f.signature.isUnsafe = false
  output : f.signature.output = some t
  notUnit : ∀ trailing, t ≠ .tuple [] trailing
  notImpl : ∀ bounds trailing, t ≠ .implTrait bounds trailing

theorem isImplTrait_ofType_iff (t : TypeExpr) :
    (TypeRef.ofType t).isImplTrait = true ↔ ∃ bounds trailing, t = .implTrait bounds trailing := by
  constructor
  · intro h
    cases t with
    | implTrait bounds trailing => exact ⟨bounds, trailing, rfl⟩
    | path p =>
      obtain ⟨leading, segments⟩ := p
      rw [TypeRef.ofType, TypeRef.ofPath] at h
      cases hsegments : TypeRef.ofSegments segments with
      | none => rw [hsegments] at h; cases h
      | some found =>
        obtain ⟨names, arguments⟩ := found
        rw [hsegments] at h
        cases arguments with
        | some types => cases h
        | none => cases ((apply_ite TypeRef.isImplTrait _ _ _).trans (ite_self false)).symm.trans h
    | _ => cases h
  · rintro ⟨bounds, trailing, rfl⟩
    rfl

/-- The results that a getter cannot have. -/
theorem refused_iff (t : TypeExpr) :
    ((match t with | .tuple [] _ => true | _ => false) || (TypeRef.ofType t).borrows ||
        (TypeRef.ofType t).isImplTrait) = true ↔
      (∃ trailing, t = .tuple [] trailing) ∨ t.ShowsBorrow ∨ ∃ bounds trailing, t = .implTrait bounds trailing := by
  have hunit : (match t with | .tuple [] _ => true | _ => false) = true ↔ ∃ trailing, t = .tuple [] trailing := by
    constructor
    · intro h
      split at h
      · exact ⟨_, rfl⟩
      · cases h
    · rintro ⟨trailing, rfl⟩
      rfl
  rw [Bool.or_eq_true, Bool.or_eq_true, hunit, TypeRef.borrows_ofType_iff, isImplTrait_ofType_iff, or_assoc]

/-- Such a method is a getter if the type does not show a borrow. -/
theorem isSome_getter_iff (hout : f.signature.output = some t) :
    (getter? f).isSome = true ↔ ReadsValue f t ∧ ¬ t.ShowsBorrow := by
  by_cases hreceiver : f.signature.receiver? = some (true, false)
  · simp only [getter?, hreceiver, hout]
    by_cases hcall : (f.signature.inputs.length != 1 || !f.signature.generics.parameters.isEmpty ||
        f.signature.isAsync || f.signature.isUnsafe) = true
    · rw [if_pos hcall]
      refine iff_of_false Bool.false_ne_true fun ⟨h, _⟩ => ?_
      simp [h.alone, h.generics, h.sync, h.safe] at hcall
    · rw [if_neg hcall]
      obtain ⟨⟨⟨halone, hgenerics⟩, hsync⟩, hsafe⟩ := by simpa using hcall
      split_ifs with htype
      · refine iff_of_false Bool.false_ne_true fun ⟨h, hshows⟩ => ?_
        rcases (refused_iff t).mp htype with ⟨trailing, hunit⟩ | hborrows | ⟨bounds, trailing, himpl⟩
        · exact h.notUnit trailing hunit
        · exact hshows hborrows
        · exact h.notImpl bounds trailing himpl
      · have hallowed := mt (refused_iff t).mpr htype
        push Not at hallowed
        obtain ⟨hunit, hshows, himpl⟩ := hallowed
        exact iff_of_true rfl ⟨⟨hreceiver, halone, hgenerics, hsync, hsafe, hout, hunit, himpl⟩, hshows⟩
  · refine iff_of_false ?_ fun h => hreceiver h.1.receiver
    simp only [getter?]
    split
    · rename_i hfound _
      exact absurd hfound hreceiver
    · simp

/-- A type is known to borrow exactly if it shows a borrow. That is right for a type unless all of its borrows
are hidden, and a method that reads a value of such a type is still a getter. -/
theorem borrows_are_seen_where_they_show (kept : List Token → Prop) (t : TypeExpr) :
    ((TypeRef.ofType t).borrows = true ↔ t.ShowsBorrow) ∧
      (t.HasBorrow kept ↔ t.ShowsBorrow ∨ t.HidesBorrow kept) ∧
      (((TypeRef.ofType t).borrows = true ↔ t.HasBorrow kept) ↔ (t.HidesBorrow kept → t.ShowsBorrow)) ∧
      ∀ f : FunctionItem, f.signature.output = some t →
        ((getter? f).isSome = true ↔ ReadsValue f t ∧ ¬ t.ShowsBorrow) := by
  refine ⟨TypeRef.borrows_ofType_iff t, TypeExpr.hasBorrow_iff kept t, ?_, fun f hout => isSome_getter_iff hout⟩
  rw [TypeRef.borrows_ofType_iff, TypeExpr.hasBorrow_iff]
  exact ⟨fun h hides => h.mpr (.inr hides), fun h => ⟨.inl, fun hborrow => hborrow.elim id h⟩⟩

/-! ### A pair with a reference -/

/-- `&'a str` -/
def textReference : TypeExpr := .reference (some "'a") false (.path ⟨false, [⟨"str", .none⟩]⟩)

/-- `(&'a str, u8)` -/
def textPair : TypeExpr := .tuple [textReference, .path ⟨false, [⟨"u8", .none⟩]⟩] false

/-- `HashMap<&'a str, (&'a str, u8)>` -/
def textMap : TypeExpr := .path ⟨false, [⟨"HashMap", .angled false [.type textReference, .type textPair] false⟩]⟩

/-- A public method that borrows its value and returns something of the type. -/
def methodReturning (t : TypeExpr) : FunctionItem where
  attributes := []
  visibility := .everywhere
  isDefault := false
  signature := { isAsync := false, isUnsafe := false, name := "parts", nameAt := ⟨2, 12⟩, generics := .empty
                 inputs := [.receiver true false (Token.symbol "&" ++ [Token.word "self"])], trailing := false
                 variadic := [], output := some t, whereClause := none, qualifiers := [] }
  innerAttributes := []
  body := [Token.word "todo", .punct '!' false ⟨2, 40⟩, .enclosed .parenthesis []]

theorem readType_textPair : readType "(& 'a str , u8)" = .ok textPair := by
  have hlifetime : ∀ name ∈ some "'a", IsLifetime name := fun _ h => Option.some.inj h ▸ ⟨"a", rfl, by decide⟩
  have htext : PathExpr.Proper ⟨false, [⟨"str", .none⟩]⟩ := ⟨nofun, by decide, rfl, nofun, trivial, trivial⟩
  have hnumber : PathExpr.Proper ⟨false, [⟨"u8", .none⟩]⟩ := ⟨nofun, by decide, rfl, nofun, trivial, trivial⟩
  have hproper : textPair.Proper := ⟨nofun, nofun, ⟨hlifetime, htext⟩, hnumber, trivial⟩
  have hread := readType_printed (show textPair.isPlain = true by decide) hproper
  rwa [show printed textPair.tokens = "(& 'a str , u8)" by decide +kernel] at hread

/-- One borrow of the type is hidden in a pair and another one is shown, so the method is no getter. -/
theorem borrows_are_seen_where_they_show_in_a_map :
    textMap.HidesBorrow (fun _ => False) ∧ (methodReturning textMap).signature.output = some textMap ∧
      (TypeRef.ofType textMap).borrows = true ∧ (getter? (methodReturning textMap)).isSome = false := by
  have hshows : textMap.ShowsBorrow := .argument rfl List.mem_cons_self .reference
  have hpair : textPair.HasBorrow (fun _ => False) := .tuple List.mem_cons_self .reference
  have hhides : textMap.HidesBorrow (fun _ => False) :=
    .argument rfl (List.mem_cons_of_mem _ List.mem_cons_self) (.text rfl hpair)
  obtain ⟨hborrows, -, -, hgetter⟩ := borrows_are_seen_where_they_show (fun _ => False) textMap
  have hmethod := mt (hgetter (methodReturning textMap) rfl).mp fun h => h.2 hshows
  exact ⟨hhides, rfl, hborrows.mpr hshows, Bool.eq_false_iff.mpr hmethod⟩

/-- The reference stands in a tuple, of which the text is kept. -/
theorem a_borrow_in_a_tuple_is_not_seen :
    ∃ t, readType "(& 'a str , u8)" = .ok t ∧ (∀ kept, t.HasBorrow kept) ∧ (TypeRef.ofType t).borrows = false ∧
      (getter? (methodReturning t)).isSome = true :=
  ⟨textPair, readType_textPair, fun _ => .tuple List.mem_cons_self .reference, rfl, rfl⟩

end Scan

end BuilderSynthesis
