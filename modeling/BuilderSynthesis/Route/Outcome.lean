/-
  BuilderSynthesis.Route.Outcome — what becomes of every directive.

  Directives on structs and constructors come first, then those for structs elsewhere, each group
  in the order of the sources. A plan with the unit of an earlier one replaces it, and says so; if
  both go into one module, that is an error.
-/

import BuilderSynthesis.Route.Requested

namespace BuilderSynthesis

structure Outcome where
  directive : Directive
  /-- The plan, or why there is none. -/
  result : Except Diagnostic BuilderPlan
  /-- What was reported while planning. -/
  planning : List Diagnostic
  /-- What was reported about an earlier plan of the same unit. -/
  clash : Option Diagnostic

namespace Outcome

def diagnostics (o : Outcome) : List Diagnostic := o.planning ++ o.clash.toList

def plan? (o : Outcome) : Option BuilderPlan := o.result.toOption

/-- The outcome of one directive by itself. -/
def ofDirective (host : Host) (d : Directive) : Outcome :=
  match d.requested host >>= Request.plan with
  | .error problem => ⟨d, .error problem, [], none⟩
  | .ok (plan, planning) => ⟨d, .ok plan, planning, none⟩

/-- What is said about a plan when an earlier one has its unit. -/
def clashOf (earlier plan : BuilderPlan) : Diagnostic :=
  if earlier.module == plan.module then
    .error ("`" ++ plan.unit ++ "` is also requested at " ++ earlier.location.text ++
      "; both directives include it into `" ++ earlier.module.text ++
      "`, so it would be defined twice. Remove one directive or give one a different suffix") plan.location
  else
    .note ("`" ++ plan.unit ++ "` replaces the builder of the same name requested at " ++ earlier.location.text)
      plan.location

/-- Compares every plan with the last one before it that has its unit. The plans seen are given
last first. -/
def withClashes (seen : List BuilderPlan) : List Outcome → List Outcome
  | [] => []
  | o :: rest =>
    match o.result with
    | .error _ => o :: withClashes seen rest
    | .ok plan =>
      { o with clash := (seen.find? (·.unit == plan.unit)).map (clashOf · plan) } :: withClashes (plan :: seen) rest

end Outcome

namespace Host

/-- The directives in the order they are routed. -/
def routed (host : Host) : List Directive :=
  host.directives.filter (!·.isExternal) ++ host.directives.filter Directive.isExternal

/-- The outcomes of all directives. -/
def route (host : Host) : List Outcome := Outcome.withClashes [] (host.routed.map (Outcome.ofDirective host))

end Host

end BuilderSynthesis
