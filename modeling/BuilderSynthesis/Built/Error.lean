/-
  BuilderSynthesis.Built.Error — the failure of a builder that is run.
-/

namespace BuilderSynthesis

/-- A required field was never set. -/
structure MissingField where
  builder : String
  field : String
  deriving DecidableEq, Repr

def MissingField.message (e : MissingField) : String :=
  e.builder ++ ": required field `" ++ e.field ++ "` was not set"

end BuilderSynthesis
