/-
  BuilderSynthesis.Scan.Finding — what a scan comes upon, in the order of the source.

  Everything that is known about scanned sources is read off one list of findings: the structs, the
  directives, the blocks of functions and the problems are each the findings of one kind. The
  findings of several files are the findings of each, one after the other.
-/

import BuilderSynthesis.Declaration.Directive

namespace BuilderSynthesis

/-- A method that reads a property. -/
structure Getter where
  property : String
  method : String
  visibility : Visibility
  type : TypeRef
  deriving DecidableEq

/-- The constructors and getters in one block of functions of a type. -/
structure FunctionBlock where
  typeName : String
  module : ModulePath
  constructors : List Constructor
  getters : List Getter
  deriving DecidableEq

inductive Finding where
  /-- A root has been searched and its source files follow, so many of them. -/
  | entered (files : Nat) (label : String)
  /-- A file has been read and its items follow. -/
  | opened (file : String) (module : ModulePath)
  | directive (directive : Directive)
  | declared (type : DeclaredType)
  | block (block : FunctionBlock)
  /-- A function would be a constructor if it could be called. -/
  | skipped (typeName function reason : String)
  | problem (diagnostic : Diagnostic)
  deriving DecidableEq

namespace Finding

def directive? : Finding → Option Directive
  | directive d => some d
  | _ => none

def declared? : Finding → Option DeclaredType
  | declared t => some t
  | _ => none

def block? : Finding → Option FunctionBlock
  | block b => some b
  | _ => none

def problem? : Finding → Option Diagnostic
  | problem d => some d
  | _ => none

end Finding

end BuilderSynthesis
