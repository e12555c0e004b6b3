/-
  BuilderSynthesis.Diagnostic — what is reported about a source or a builder.

  A diagnostic never stops a pass. An error gives up the one builder it is about, or one modifier
  of it; a note only informs.
-/

namespace BuilderSynthesis

/-- A place in a scanned file. -/
structure Location where
  file : String
  line : Nat
  column : Nat
  deriving DecidableEq, Repr, Inhabited

namespace Location

def text (location : Location) : String :=
  location.file ++ ":" ++ toString location.line ++ ":" ++ toString location.column

end Location

inductive Severity where
  | error
  | note
  deriving DecidableEq, Repr, Inhabited

def Severity.text : Severity → String
  | error => "error"
  | note => "note"

structure Diagnostic where
  severity : Severity
  message : String
  location : Option Location
  deriving DecidableEq, Repr, Inhabited

namespace Diagnostic

def error (message : String) (location : Location) : Diagnostic := ⟨.error, message, some location⟩

def note (message : String) (location : Location) : Diagnostic := ⟨.note, message, some location⟩

def isError (diagnostic : Diagnostic) : Bool := diagnostic.severity == .error

def text (diagnostic : Diagnostic) : String :=
  match diagnostic.location with
  | some location => location.text ++ ": " ++ diagnostic.severity.text ++ ": " ++ diagnostic.message
  | none => diagnostic.severity.text ++ ": " ++ diagnostic.message

end Diagnostic

end BuilderSynthesis
