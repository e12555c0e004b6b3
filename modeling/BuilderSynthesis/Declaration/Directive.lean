/-
  BuilderSynthesis.Declaration.Directive — requests for builders in the scanned sources.
-/

import BuilderSynthesis.Declaration.Basic
import BuilderSynthesis.Text.Quoted

namespace BuilderSynthesis

inductive DirectiveKind where
  /-- On a struct. -/
  | type (name : String)
  /-- On a function that constructs a struct. -/
  | constructor (typeName function : String)
  /-- On an item that marks where the builder of another type goes. -/
  | external (target : String) (suffix : Option String) (useConstructors : Bool) (visibility : Visibility)
  /-- On an item that cannot carry it. -/
  | misplaced (item : String)
  deriving DecidableEq, Repr

structure Directive where
  kind : DirectiveKind
  module : ModulePath
  location : Location
  deriving DecidableEq, Repr

namespace Directive

def isExternal (d : Directive) : Bool :=
  match d.kind with
  | .external .. => true
  | _ => false

end Directive

/-! ## As log text -/

def Visibility.logText : Visibility → String
  | everywhere => "Public"
  | restricted text => "Restricted(" ++ Text.quoted text ++ ")"
  | inherited => "Private"

/-- The directive with all that it asks for, as the log shows it. -/
def DirectiveKind.logText : DirectiveKind → String
  | type name => "Type \x7b name: " ++ Text.quoted name ++ " \x7d"
  | constructor typeName function =>
    "Constructor \x7b type_name: " ++ Text.quoted typeName ++ ", constructor: " ++ Text.quoted function ++ " \x7d"
  | external target suffix useConstructors visibility =>
    "External \x7b target: " ++ Text.quoted target ++ ", suffix: " ++
      (match suffix with | some text => "Some(" ++ Text.quoted text ++ ")" | none => "None") ++
      ", use_constructors: " ++ (if useConstructors then "true" else "false") ++
      ", visibility: " ++ visibility.logText ++ " \x7d"
  | misplaced item => "Misplaced \x7b item: " ++ Text.quoted item ++ " \x7d"

end BuilderSynthesis
