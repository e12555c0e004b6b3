/-
  BuilderSynthesis.Descriptor.Basic — the type of a field as its builder sees it.

  A descriptor is a base with arguments. Being optional is a mark on the descriptor, not a base, so
  that a builder can hold an absent value of any type. `Descriptor.text` writes it as a type.
-/

import BuilderSynthesis.Declaration.TypeRef

namespace BuilderSynthesis

inductive Base where
  | primitive (name : String)
  /-- The element is the only argument. -/
  | array (length : String)
  /-- The element is the only argument. -/
  | slice
  | named (path : String)
  /-- The referent is the only argument. -/
  | reference (lifetime : Option String) (mutable : Bool)
  | lifetime (name : String)
  | verbatim (text : String)
  deriving DecidableEq, Repr, Inhabited

/-- `nullable` says that the type is optional; `mutableCollection`, that a read-only collection
has been made mutable. -/
inductive Descriptor where
  | mk (base : Base) (arguments : List Descriptor) (nullable mutableCollection : Bool)

instance : Inhabited Descriptor := ⟨.mk .slice [] false false⟩

namespace Descriptor

def base : Descriptor → Base
  | mk base _ _ _ => base

def arguments : Descriptor → List Descriptor
  | mk _ arguments _ _ => arguments

def nullable : Descriptor → Bool
  | mk _ _ nullable _ => nullable

def mutableCollection : Descriptor → Bool
  | mk _ _ _ mutableCollection => mutableCollection

/-- A descriptor without any mark. -/
def plain (base : Base) (arguments : List Descriptor) : Descriptor := mk base arguments false false

def asNullable : Descriptor → Descriptor
  | mk base arguments _ m => mk base arguments true m

def asNonNull : Descriptor → Descriptor
  | mk base arguments _ m => mk base arguments false m

/-! ## Equality -/

mutual

def same : Descriptor → Descriptor → Bool
  | mk b as n m, mk c bs o k => b == c && sameAll as bs && n == o && m == k

def sameAll : List Descriptor → List Descriptor → Bool
  | [], [] => true
  | a :: as, b :: bs => same a b && sameAll as bs
  | _, _ => false

end

mutual

theorem eq_of_same : ∀ {a b : Descriptor}, same a b = true → a = b
  | mk b as n m, mk c bs o k, h => by
    simp only [same, Bool.and_eq_true, beq_iff_eq] at h
    obtain ⟨⟨⟨rfl, hs⟩, rfl⟩, rfl⟩ := h
    rw [eq_of_sameAll hs]

theorem eq_of_sameAll : ∀ {as bs : List Descriptor}, sameAll as bs = true → as = bs
  | [], [], _ => rfl
  | [], _ :: _, h => by simp [sameAll] at h
  | _ :: _, [], h => by simp [sameAll] at h
  | a :: as, b :: bs, h => by
    simp only [sameAll, Bool.and_eq_true] at h
    rw [eq_of_same h.1, eq_of_sameAll h.2]

end

mutual

theorem same_self : ∀ a : Descriptor, same a a = true
  | mk _ as _ _ => by simp [same, sameAll_self as]

theorem sameAll_self : ∀ as : List Descriptor, sameAll as as = true
  | [] => rfl
  | a :: as => by simp [sameAll, same_self a, sameAll_self as]

end

instance : DecidableEq Descriptor := fun a b =>
  if h : same a b = true then isTrue (eq_of_same h)
  else isFalse fun e => h (e ▸ same_self a)

/-! ## As text -/

mutual

/-- The descriptor as a type. -/
def text : Descriptor → String
  | mk base arguments nullable mutableCollection =>
    let inner := match base with
      | .primitive name => name
      | .lifetime name => name
      | .verbatim text => text
      | .named path => if arguments.isEmpty then path else path ++ "<" ++ ", ".intercalate (texts arguments) ++ ">"
      | .array length => "[" ++ elementText arguments ++ "; " ++ length ++ "]"
      | .slice => "[" ++ elementText arguments ++ "]"
      | .reference lifetime mutable =>
        "&" ++ (match lifetime with | some name => name ++ " " | none => "") ++
          (if mutable || mutableCollection then "mut " else "") ++ elementText arguments
    if nullable then "Option<" ++ inner ++ ">" else inner

/-- The first argument, which is left open when there is none. -/
def elementText : List Descriptor → String
  | [] => "_"
  | element :: _ => element.text

def texts : List Descriptor → List String
  | [] => []
  | d :: rest => d.text :: texts rest

end

/-! ## Arguments -/

def isLifetime (d : Descriptor) : Bool :=
  match d.base with
  | .lifetime _ => true
  | _ => false

/-- The arguments that are types. -/
def typeArguments (d : Descriptor) : List Descriptor := d.arguments.filter (!·.isLifetime)

/-- The bare string type. -/
def isStr (d : Descriptor) : Bool := !d.nullable && d.base == .primitive "str"

/-- A string literal converts into the type: it is `String`, `&str`, or `Box`, `Rc`, `Arc` or `Cow`
around `str`. -/
def isStringLike (d : Descriptor) : Bool :=
  match d.base with
  | .named path =>
    let name := Text.lastSegment path
    if name == "String" then d.arguments.isEmpty
    else if ["Box", "Rc", "Arc", "Cow"].contains name then
      match d.typeArguments with
      | [only] => only.isStr
      | _ => false
    else false
  | .reference .. => d.arguments.head?.any isStr
  | _ => false

/-! ## From a declared type -/

mutual

/-- A declared type taken as it stands, and with its outer option as a mark. -/
def views : TypeRef → Descriptor × Descriptor
  | .primitive name => both (plain (.primitive name) [])
  | .array element length => both (plain (.array length) [(views element).2])
  | .slice element => both (plain .slice [(views element).2])
  | .path p arguments =>
    let parts := viewsOfAll arguments
    let whole := plain (.named p) (parts.map (·.2))
    match parts with
    | [inner] => (whole, if TypeRef.isOptionPath p then inner.1.asNullable else whole)
    | _ => both whole
  | .reference lifetime mutable referent => both (plain (.reference lifetime mutable) [(views referent).2])
  | .lifetime name => both (plain (.lifetime name) [])
  | .implTrait text => both (plain (.verbatim text) [])
  | .verbatim text => both (plain (.verbatim text) [])
where
  both (d : Descriptor) : Descriptor × Descriptor := (d, d)

def viewsOfAll : List TypeRef → List (Descriptor × Descriptor)
  | [] => []
  | type :: rest => views type :: viewsOfAll rest

end

/-- The descriptor of a declared type taken as it stands, optional or not. -/
def structural (type : TypeRef) : Descriptor := (views type).1

/-- The descriptor of a declared type. An optional type becomes a nullable descriptor of what is
inside; of an option inside an option, only the outer one becomes the mark. -/
def canonical (type : TypeRef) : Descriptor := (views type).2

theorem viewsOfAll_eq_map (types : List TypeRef) : viewsOfAll types = types.map views := by
  induction types with
  | nil => rfl
  | cons t ts ih => simp [viewsOfAll, ih]

theorem canonical_of_optional {type inner : TypeRef} (h : type.optional? = some inner) :
    canonical type = (structural inner).asNullable := by
  unfold TypeRef.optional? at h
  split at h
  · split at h <;> simp_all [canonical, structural, views, viewsOfAll]
  · simp at h

theorem canonical_of_not_optional {type : TypeRef} (h : type.optional? = none) :
    canonical type = structural type := by
  cases type <;> try rfl
  next p arguments =>
    match arguments, h with
    | [], _ => rfl
    | [inner], h =>
      simp [TypeRef.optional?] at h
      simp [canonical, structural, views, viewsOfAll, h]
    | _ :: _ :: _, _ => rfl

end Descriptor

end BuilderSynthesis
