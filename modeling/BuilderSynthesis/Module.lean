/-
  BuilderSynthesis.Module — modules of the scanned crates, and who sees what is declared in them.

  A module is known by the source root it belongs to and by the names that lead to it from the
  root of that crate.
-/

namespace BuilderSynthesis

structure ModulePath where
  root : Nat
  segments : List String
  deriving DecidableEq, Repr, Inhabited

namespace ModulePath

/-- The root module of a source root. -/
def crateRoot (root : Nat) : ModulePath := ⟨root, []⟩

def child (module : ModulePath) (name : String) : ModulePath :=
  { module with segments := module.segments ++ [name] }

/-- The same module, or one nested in it. -/
def isWithin (module outer : ModulePath) : Bool :=
  module.root == outer.root && outer.segments.isPrefixOf module.segments

def text (module : ModulePath) : String := "::".intercalate ("crate" :: module.segments)

end ModulePath

/-- The declared visibility of an item; a restricted one is kept as written. -/
inductive Visibility where
  | everywhere
  | restricted (text : String)
  | inherited
  deriving DecidableEq, Repr, Inhabited

namespace Visibility

/-- Whether an item declared in `owner` can be named from `user`. A restricted visibility counts
as visible in the whole crate. -/
def admits (visibility : Visibility) (owner user : ModulePath) : Bool :=
  match visibility with
  | everywhere => true
  | restricted _ => owner.root == user.root
  | inherited => user.isWithin owner

/-- As written in a source; nothing for an inherited visibility. -/
def source : Visibility → String
  | everywhere => "pub"
  | restricted text => text
  | inherited => ""

/-- Of two visibilities, the one that admits less. Two restrictions count as equal, and then the
second is taken. -/
def narrower (a b : Visibility) : Visibility :=
  match a, b with
  | inherited, _ => a
  | _, everywhere => a
  | _, _ => b

end Visibility

end BuilderSynthesis
