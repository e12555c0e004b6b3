/-
  BuilderSynthesis.Declaration.TypeRef — the type of a field or parameter as declared.

  A declared type keeps the structure that builders care about: primitives, arrays, slices, paths
  with generic arguments at their end, and references. Every other type is kept as text.
-/

import BuilderSynthesis.Syntax.Printer
import BuilderSynthesis.Syntax.TypeExpr
import BuilderSynthesis.Text.Segments

namespace BuilderSynthesis

open Syntax

inductive TypeRef where
  | primitive (name : String)
  | array (element : TypeRef) (length : String)
  | slice (element : TypeRef)
  /-- Segments joined by separators, and the generic arguments of the last one. -/
  | path (path : String) (arguments : List TypeRef)
  | reference (lifetime : Option String) (mutable : Bool) (referent : TypeRef)
  | lifetime (name : String)
  | implTrait (text : String)
  | verbatim (text : String)

instance : Inhabited TypeRef := ⟨.verbatim ""⟩

def primitives : List String :=
  ["bool", "char", "str", "u8", "u16", "u32", "u64", "u128", "usize", "i8", "i16", "i32", "i64", "i128", "isize",
   "f32", "f64"]

namespace TypeRef

/-! ## Equality -/

mutual

def same : TypeRef → TypeRef → Bool
  | primitive a, primitive b => a == b
  | array e m, array f n => same e f && m == n
  | slice e, slice f => same e f
  | path p as, path q bs => p == q && sameAll as bs
  | reference l m r, reference k n s => l == k && m == n && same r s
  | lifetime a, lifetime b => a == b
  | implTrait a, implTrait b => a == b
  | verbatim a, verbatim b => a == b
  | _, _ => false

def sameAll : List TypeRef → List TypeRef → Bool
  | [], [] => true
  | a :: as, b :: bs => same a b && sameAll as bs
  | _, _ => false

end

mutual

theorem eq_of_same : ∀ {a b : TypeRef}, same a b = true → a = b
  | primitive _, b, h => by cases b <;> simp_all [same]
  | array e _, b, h => by
    cases b <;> simp_all [same]
    exact eq_of_same h.1
  | slice e, b, h => by
    cases b <;> simp_all [same]
    exact eq_of_same h
  | path _ as, b, h => by
    cases b <;> simp_all [same]
    exact eq_of_sameAll h.2
  | reference _ _ r, b, h => by
    cases b <;> simp_all [same]
    exact eq_of_same h.2
  | lifetime _, b, h => by cases b <;> simp_all [same]
  | implTrait _, b, h => by cases b <;> simp_all [same]
  | verbatim _, b, h => by cases b <;> simp_all [same]

theorem eq_of_sameAll : ∀ {as bs : List TypeRef}, sameAll as bs = true → as = bs
  | [], [], _ => rfl
  | [], _ :: _, h => by simp [sameAll] at h
  | _ :: _, [], h => by simp [sameAll] at h
  | a :: as, b :: bs, h => by
    simp only [sameAll, Bool.and_eq_true] at h
    rw [eq_of_same h.1, eq_of_sameAll h.2]

end

mutual

theorem same_self : ∀ a : TypeRef, same a a = true
  | primitive _ => by simp [same]
  | array e _ => by simp [same, same_self e]
  | slice e => by simp [same, same_self e]
  | path _ as => by simp [same, sameAll_self as]
  | reference _ _ r => by simp [same, same_self r]
  | lifetime _ => by simp [same]
  | implTrait _ => by simp [same]
  | verbatim _ => by simp [same]

theorem sameAll_self : ∀ as : List TypeRef, sameAll as as = true
  | [] => rfl
  | a :: as => by simp [sameAll, same_self a, sameAll_self as]

end

instance : DecidableEq TypeRef := fun a b =>
  if h : same a b = true then isTrue (eq_of_same h)
  else isFalse fun e => h (e ▸ same_self a)

/-! ## From a written type -/

mutual

/-- The declared type that a written one stands for. -/
def ofType : TypeExpr → TypeRef
  | .array element length => .array (ofType element) (printed length)
  | .slice element => .slice (ofType element)
  | .reference name mutable referent => .reference name mutable (ofType referent)
  | .implTrait bounds trailing => .implTrait (printed (TypeExpr.implTrait bounds trailing).tokens)
  | .path p => (ofPath p).getD (.verbatim (printed p.tokens))
  | other => .verbatim (printed other.tokens)

/-- A path whose generic arguments, if it has any, stand on its last segment and are types and
lifetimes only. -/
def ofPath : PathExpr → Option TypeRef
  | .mk leading segments =>
    (ofSegments segments).map fun (names, arguments) =>
      let path := (if leading then "::" else "") ++ "::".intercalate names
      match arguments with
      | some list => .path path list
      | none => if names.length == 1 && primitives.contains path then .primitive path else .path path []

def ofSegments : List Segment → Option (List String × Option (List TypeRef))
  | [] => none
  | [.mk name arguments] => (ofArguments arguments).map fun list => ([name], list)
  | .mk name arguments :: next :: rest =>
    if arguments.isNone then (ofSegments (next :: rest)).map fun (names, list) => (name :: names, list)
    else none

def ofArguments : Arguments → Option (Option (List TypeRef))
  | .none => some none
  | .angled _ arguments _ => (ofArgumentList arguments).map some
  | .called .. => none

def ofArgumentList : List Argument → Option (List TypeRef)
  | [] => some []
  | .type type :: rest => (ofArgumentList rest).map (ofType type :: ·)
  | .lifetime name :: rest => (ofArgumentList rest).map (.lifetime name :: ·)
  | _ :: _ => none

end

/-! ## Properties -/

mutual

/-- A reference or a lifetime argument occurs somewhere in the structure of the type. -/
def borrows : TypeRef → Bool
  | reference .. | lifetime _ => true
  | array element _ => borrows element
  | slice element => borrows element
  | path _ arguments => borrowsAny arguments
  | primitive _ | implTrait _ | verbatim _ => false

def borrowsAny : List TypeRef → Bool
  | [] => false
  | type :: rest => borrows type || borrowsAny rest

end

def isImplTrait : TypeRef → Bool
  | implTrait _ => true
  | _ => false

/-- The paths that name the optional type. -/
def isOptionPath (path : String) : Bool :=
  ["Option", "option::Option", "std::option::Option", "core::option::Option"].contains
    (Text.withoutLeadingSeparators path)

/-- The value inside, if the type is optional. -/
def optional? : TypeRef → Option TypeRef
  | path p [inner] => if isOptionPath p then some inner else none
  | _ => none

/-- Values of the type may be absent. -/
def isNullable (type : TypeRef) : Bool := type.optional?.isSome

end TypeRef

end BuilderSynthesis
