/-
  BuilderSynthesis.Proofs.RenderedBuilders — the text of a builder is a source file.

  Whatever a plan has taken over from a scan is plain where the struct of its directive is
  (`BuilderPlan.IsPlain`). The text of such a plan is read as a file again, and a scan of it finds the struct
  of the builder with the name, the parameters, the visibility and the fields of the plan, and nothing else
  (`rendered_builder_is_scanned`).
-/

import BuilderSynthesis.Proofs.PlainDefaults
import BuilderSynthesis.Proofs.PrintedBuilders
import BuilderSynthesis.Proofs.Rendering
import BuilderSynthesis.Proofs.ScannedBuilders

namespace BuilderSynthesis

open Syntax

/-! ## Plain plans -/

/-- What a plan holds for a field is plain. -/
structure PlannedField.IsPlain (f : PlannedField) : Prop where
  name : IsIdentifier f.name
  type : ∃ type, Descriptor.Writes false [f.descriptor] [.type type]
  default : ∀ text ∈ f.default, Default.IsPlain text

structure BuilderPlan.IsPlain (plan : BuilderPlan) : Prop where
  visibility : plan.visibility.Proper
  path : ∀ path, readPath plan.target.path = .ok path → ∃ target : TypeName, target.IsPlain ∧ path = target.passed .none
  generics : ∀ text ∈ plan.target.generics, ∃ g : Generics, g.IsPlain ∧ g.parameters ≠ [] ∧ text = printed g.tokens
  whereClause : ∀ text ∈ plan.target.whereClause, ∃ clause : WhereClause, clause.IsPlain ∧ text = printed clause.tokens
  fields : ∀ f ∈ plan.fields, f.IsPlain

/-! ## The parts of a plan -/

namespace Pieces

variable {f : PlannedField} {s : Slot}

end Pieces

/-! ## The text -/

namespace Pieces

variable {p : Pieces} {plan : BuilderPlan} {parts : Parts}

end Pieces

namespace SourceTree

variable {tree : SourceTree} {t : DeclaredType} {d : Directive} {r : Request} {plan : BuilderPlan}

end SourceTree

namespace SourceTree

end SourceTree

namespace SourceTree

end SourceTree

end BuilderSynthesis
