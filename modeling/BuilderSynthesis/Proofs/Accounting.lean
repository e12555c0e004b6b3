/-
  BuilderSynthesis.Proofs.Accounting — no directive is lost on the way through a pass.

  Every directive has one outcome, a refused one has an error and nothing else to report, and every
  plan is given to the emitter exactly once, whatever became of the plans before it. So the builders
  written, the directives refused and the plans that failed add up to the directives
  (`generate_accounts_for_every_directive`).

  To speak of calls, the emitter is wrapped in one that keeps a record (`Emitter.recording`), which
  changes nothing else. What is reported is compared with a loop that adds to a collection that was
  there before (`Emitter.advance`).
-/

import BuilderSynthesis.Pass.Generate
import BuilderSynthesis.Proofs.Planning
import Mathlib.Data.List.Basic

namespace BuilderSynthesis

/-! ## Refusing -/

namespace Directive

variable {d : Directive} {host : Host} {r : Request} {problem : Diagnostic}

theorem isError_of_refuse {α : Type} {message : String} (h : d.refuse message = (.error problem : Except Diagnostic α)) :
    problem.isError = true := by
  cases h
  rfl

theorem isError_of_namedStruct {path : String} (h : d.namedStruct host path = .error problem) :
    problem.isError = true := by
  unfold namedStruct at h
  split at h
  · exact isError_of_refuse h
  · split at h
    · cases h
    · exact isError_of_refuse h

/-- A step that fails is the first one or comes after it. -/
theorem error_of_bind {α β : Type} {x : Except Diagnostic α} {f : α → Except Diagnostic β}
    (h : (x >>= f) = .error problem) : x = .error problem ∨ ∃ a, x = .ok a ∧ f a = .error problem := by
  cases x with
  | error e =>
    cases h
    exact Or.inl rfl
  | ok a => exact Or.inr ⟨a, rfl, h⟩

/-- A directive is never turned down with a mere note. -/
theorem isError_of_requested (h : d.requested host = .error problem) : problem.isError = true := by
  unfold requested at h
  split at h
  · rcases error_of_bind h with h | ⟨t, -, h⟩
    · exact isError_of_namedStruct h
    · cases h
  · rcases error_of_bind h with h | ⟨t, -, h⟩
    · exact isError_of_namedStruct h
    · split at h
      · exact isError_of_refuse h
      · cases h
  · rcases error_of_bind h with h | ⟨t, -, h⟩
    · exact isError_of_namedStruct h
    · dsimp only at h
      split at h
      · exact isError_of_refuse h
      · cases h
  · exact isError_of_refuse h

theorem location_of_requested (h : d.requested host = .ok r) : r.location = d.location := by
  obtain ⟨t, ha⟩ := asks_of_requested h
  cases ha <;> rfl

end Directive

namespace Request

variable {r : Request} {problem : Diagnostic}

theorem isError_of_fieldProblem? {f : Parameter} (h : r.fieldProblem? f = some problem) : problem.isError = true := by
  unfold fieldProblem? at h
  split at h
  · cases h
    rfl
  · split at h
    · cases h
      rfl
    · cases h

theorem isError_of_unitProblem? (h : r.unitProblem? = some problem) : problem.isError = true := by
  unfold unitProblem? at h
  split at h
  · cases h
  · cases h
    rfl

theorem isError_of_plan (h : r.plan = .error problem) : problem.isError = true := by
  rcases reason_of_plan h with hu | ⟨f, -, hf⟩ | rfl
  · exact isError_of_unitProblem? hu
  · exact isError_of_fieldProblem? hf
  · rfl

end Request

/-! ## Outcomes -/

namespace Outcome

variable {host : Host} {o : Outcome} {problem : Diagnostic} {plan : BuilderPlan}

/-- A refused directive has reported nothing before, and the reason is an error. -/
theorem refused_of_ofDirective {d : Directive} (h : (ofDirective host d).result = .error problem) :
    (ofDirective host d).diagnostics = [] ∧ problem.isError = true := by
  unfold ofDirective at h ⊢
  split at h
  · rename_i refused hr
    cases h
    refine ⟨rfl, ?_⟩
    rcases Directive.error_of_bind hr with hr | ⟨r, -, hr⟩
    · exact Directive.isError_of_requested hr
    · exact Request.isError_of_plan hr
  · cases h

/-- Nothing is compared with an outcome that has no plan. -/
theorem mem_of_withClashes_error {seen : List BuilderPlan} {outcomes : List Outcome} (h : o ∈ withClashes seen outcomes)
    (hr : o.result = .error problem) : o ∈ outcomes := by
  induction outcomes generalizing seen with
  | nil => cases h
  | cons first rest ih =>
    unfold withClashes at h
    split at h
    · rcases List.mem_cons.mp h with rfl | h
      · exact List.mem_cons_self
      · exact List.mem_cons_of_mem _ (ih h)
    · rename_i plan hplan
      rcases List.mem_cons.mp h with rfl | h
      · cases hplan.symm.trans hr
      · exact List.mem_cons_of_mem _ (ih h)

theorem refused_of_mem_route (ho : o ∈ host.route) (hr : o.result = .error problem) :
    o.diagnostics = [] ∧ problem.isError = true := by
  obtain ⟨d, -, rfl⟩ := List.mem_map.mp (mem_of_withClashes_error ho hr)
  exact refused_of_ofDirective hr

theorem location_of_mem_route (ho : o ∈ host.route) (hr : o.result = .ok plan) :
    plan.location = o.directive.location := by
  obtain ⟨r, planning, hrequested, hplan⟩ := ofDirective_eq_ok ((Host.ofDirective_of_mem_route ho).2 ▸ hr)
  exact (Request.location_of_plan hplan).trans (Directive.location_of_requested hrequested)

theorem directives_withClashes (seen : List BuilderPlan) (outcomes : List Outcome) :
    (withClashes seen outcomes).map Outcome.directive = outcomes.map Outcome.directive := by
  induction outcomes generalizing seen with
  | nil => rfl
  | cons o rest ih =>
    unfold withClashes
    split
    · rw [List.map_cons, List.map_cons, ih]
    · rw [List.map_cons, List.map_cons, ih]

end Outcome

namespace Host

theorem directives_route (host : Host) : host.route.map Outcome.directive = host.routed := by
  unfold route
  rw [Outcome.directives_withClashes, List.map_map]
  exact (List.map_congr_left fun d _ => Outcome.directive_ofDirective host d).trans (List.map_id _)

theorem routed_perm (host : Host) : host.routed.Perm host.directives := by
  have h := List.filter_append_perm (fun d : Directive => !d.isExternal) host.directives
  simp only [Bool.not_not] at h
  exact h

/-- Every directive has a plan or is refused. -/
theorem length_plans (host : Host) :
    host.plans.length + host.route.countP (·.plan?.isNone) = host.directives.length := by
  have hsplit : host.route.length = host.route.countP (·.plan?.isSome) + host.route.countP (·.plan?.isNone) := by
    rw [List.length_eq_countP_add_countP (·.plan?.isSome)]
    congr 2
    funext o
    cases o.plan? <;> rfl
  rw [plans, List.length_filterMap_eq_countP, ← hsplit, ← host.routed_perm.length_eq, ← directives_route,
    List.length_map]

end Host

/-! ## Calls of the emitter -/

/-- What an emitter was asked for, and what it answered. -/
abbrev EmitterCall := BuilderPlan × Except PassError Stored

/-- The path that a call answered with. -/
def EmitterCall.path? (call : EmitterCall) : Option String := call.2.toOption.map Stored.path

def EmitterCall.failed (call : EmitterCall) : Bool := !call.2.isOk

/-- The call that was made in an attempt, if there was one. -/
def Attempt.call? : Attempt → Option EmitterCall
  | rejected .. => none
  | emitted _ plan stored => some (plan, .ok stored)
  | failed _ plan error => some (plan, .error error)

/-- What an attempt says about the directive it was made for. -/
def Attempt.result : Attempt → Except Diagnostic BuilderPlan
  | rejected _ problem => .error problem
  | emitted _ plan _ | failed _ plan _ => .ok plan

namespace Emitter

variable {σ : Type}

/-- The emitter with a record of its calls. -/
def recording (e : Emitter σ) : Emitter (σ × List EmitterCall) where
  emit plan := fun (state, calls) =>
    let (answer, state) := e.emit plan state
    (answer, (state, calls ++ [(plan, answer)]))

theorem attempt_recording (e : Emitter σ) (o : Outcome) (state : σ) (calls : List EmitterCall) :
    e.recording.attempt o (state, calls) =
      ((e.attempt o state).1, ((e.attempt o state).2, calls ++ (e.attempt o state).1.call?.toList)) := by
  unfold attempt
  cases hr : o.result with
  | error problem => simp [Attempt.call?]
  | ok plan =>
    have hemit : e.recording.emit plan (state, calls) =
        ((e.emit plan state).1, ((e.emit plan state).2, calls ++ [(plan, (e.emit plan state).1)])) := rfl
    simp only [hemit]
    rcases e.emit plan state with ⟨_ | _, next⟩
    · rfl
    · rfl

/-- Keeping a record changes nothing else. -/
theorem attempts_recording (e : Emitter σ) (outcomes : List Outcome) (state : σ) (calls : List EmitterCall) :
    e.recording.attempts outcomes (state, calls) =
      ((e.attempts outcomes state).1,
        ((e.attempts outcomes state).2, calls ++ (e.attempts outcomes state).1.filterMap Attempt.call?)) := by
  induction outcomes generalizing state calls with
  | nil => simp [attempts]
  | cons o rest ih =>
    simp only [attempts, attempt_recording, ih]
    cases hc : (e.attempt o state).1.call? with
    | none => rw [List.filterMap_cons_none hc, Option.toList_none, List.append_nil]
    | some call => rw [List.filterMap_cons_some hc, Option.toList_some, List.append_assoc, List.singleton_append]

/-- An attempt is made for its outcome and agrees with it. -/
theorem attempt_outcome (e : Emitter σ) (o : Outcome) (state : σ) :
    (e.attempt o state).1.outcome = o ∧ (e.attempt o state).1.result = o.result := by
  unfold attempt
  cases hr : o.result with
  | error problem => exact ⟨rfl, rfl⟩
  | ok plan =>
    simp only
    rcases e.emit plan state with ⟨_ | _, next⟩
    · exact ⟨rfl, rfl⟩
    · exact ⟨rfl, rfl⟩

theorem attempts_outcomes (e : Emitter σ) (outcomes : List Outcome) (state : σ) :
    (e.attempts outcomes state).1.map Attempt.outcome = outcomes ∧
      ∀ a ∈ (e.attempts outcomes state).1, a.result = a.outcome.result := by
  induction outcomes generalizing state with
  | nil => exact ⟨rfl, fun a ha => by cases ha⟩
  | cons o rest ih =>
    obtain ⟨hmap, hall⟩ := ih (e.attempt o state).2
    obtain ⟨ho, hr⟩ := e.attempt_outcome o state
    refine ⟨?_, fun a ha => ?_⟩
    · simp only [attempts, List.map_cons, ho, hmap]
    · rcases List.mem_cons.mp ha with rfl | ha
      · exact ho.symm ▸ hr
      · exact hall a ha

/-! ## Adding to a collection -/

/-- How far a pass has come: what it wrote and everything that was reported, also before it. -/
structure Progress (σ : Type) where
  written : List String
  diagnostics : List Diagnostic
  state : σ

/-- The next outcome, with what it reports added to the rest. -/
def advance (e : Emitter σ) (p : Progress σ) (o : Outcome) : Progress σ :=
  match o.result with
  | .error problem => { p with diagnostics := p.diagnostics ++ o.diagnostics ++ [problem] }
  | .ok plan =>
    match e.emit plan p.state with
    | (.ok stored, state) => ⟨p.written ++ [stored.path], p.diagnostics ++ o.diagnostics, state⟩
    | (.error error, state) =>
      ⟨p.written, p.diagnostics ++ o.diagnostics ++ [.error error.message plan.location], state⟩

theorem advance_eq (e : Emitter σ) (p : Progress σ) (o : Outcome) :
    e.advance p o = ⟨p.written ++ ((e.attempt o p.state).1.stored?.map Stored.path).toList,
      p.diagnostics ++ (e.attempt o p.state).1.diagnostics, (e.attempt o p.state).2⟩ := by
  unfold advance attempt
  cases hr : o.result with
  | error problem => simp [Attempt.diagnostics, Attempt.outcome, Attempt.problem?, Attempt.stored?]
  | ok plan =>
    simp only
    rcases e.emit plan p.state with ⟨_ | _, next⟩
    · simp [Attempt.diagnostics, Attempt.outcome, Attempt.problem?, Attempt.stored?]
    · simp [Attempt.diagnostics, Attempt.outcome, Attempt.problem?, Attempt.stored?]

/-- What is written and reported outcome by outcome is what is read off the attempts. -/
theorem foldl_advance (e : Emitter σ) (outcomes : List Outcome) (p : Progress σ) :
    outcomes.foldl e.advance p =
      ⟨p.written ++ (e.attempts outcomes p.state).1.filterMap fun a => a.stored?.map Stored.path,
        p.diagnostics ++ (e.attempts outcomes p.state).1.flatMap Attempt.diagnostics,
        (e.attempts outcomes p.state).2⟩ := by
  induction outcomes generalizing p with
  | nil => simp [attempts]
  | cons o rest ih =>
    rw [List.foldl_cons, ih, advance_eq]
    simp only [attempts, List.flatMap_cons, List.append_assoc]
    congr 2
    rw [List.filterMap_cons]
    cases (e.attempt o p.state).1.stored?.map Stored.path <;> rfl

end Emitter

/-! ## The account -/

section Account

variable {σ : Type}

/-- The calls that a pass over a host makes. -/
def Host.calls (host : Host) (e : Emitter σ) (state : σ) : List EmitterCall :=
  (host.generate e.recording (state, [])).state.2

/-- A pass accounts for every directive of a host. -/
structure AccountsForAll (host : Host) (e : Emitter σ) (state : σ) : Prop where
  /-- Every directive has its attempt; those for structs elsewhere come last. -/
  directives : (host.generate e state).attempts.map (·.outcome.directive) =
    host.directives.filter (!·.isExternal) ++ host.directives.filter Directive.isExternal
  outcomes : (host.generate e state).attempts.map Attempt.outcome = host.route
  /-- Every plan is given to the emitter once, in order, whatever it answered before. -/
  calls : (host.calls e state).map Prod.fst = host.plans
  /-- Watching the emitter makes no difference. -/
  recorded : host.generate e.recording (state, []) =
    ⟨(host.generate e state).attempts, (host.generate e state).state, host.calls e state⟩
  written : (host.generate e state).written = (host.calls e state).filterMap EmitterCall.path?
  /-- A refused directive is reported by one error. -/
  rejected : ∀ o problem, .rejected o problem ∈ (host.generate e state).attempts →
    o.result = .error problem ∧ problem.isError = true ∧ (Attempt.rejected o problem).diagnostics = [problem]
  /-- A plan that fails is reported by one error where it was asked for, after what its outcome reports. -/
  failed : ∀ o plan error, .failed o plan error ∈ (host.generate e state).attempts →
    o.result = .ok plan ∧ (plan, .error error) ∈ host.calls e state ∧
      (Attempt.failed o plan error).diagnostics = o.diagnostics ++ [.error error.message o.directive.location]
  /-- What was reported before stays in front. -/
  reported : ∀ before, host.route.foldl e.advance ⟨[], before, state⟩ =
    ⟨(host.generate e state).written, before ++ (host.generate e state).attempts.flatMap Attempt.diagnostics,
      (host.generate e state).state⟩
  count : (host.generate e state).written.length + host.route.countP (·.plan?.isNone) +
    (host.calls e state).countP EmitterCall.failed = host.directives.length

variable (host : Host) (e : Emitter σ) (state : σ)

theorem calls_eq : host.calls e state = (host.generate e state).attempts.filterMap Attempt.call? := by
  unfold Host.calls Host.generate
  rw [e.attempts_recording]
  rfl

theorem outcomes_generate : (host.generate e state).attempts.map Attempt.outcome = host.route :=
  (e.attempts_outcomes host.route state).1

theorem mem_route_of_mem_attempts {a : Attempt} (h : a ∈ (host.generate e state).attempts) :
    a.outcome ∈ host.route ∧ a.outcome.result = a.result :=
  ⟨outcomes_generate host e state ▸ List.mem_map_of_mem h, ((e.attempts_outcomes host.route state).2 a h).symm⟩

/-- Only attempts at plans call the emitter, each with its plan. -/
theorem plans_of_calls : (host.calls e state).map Prod.fst = host.plans := by
  have hcall : ∀ a ∈ (host.generate e state).attempts, a.call?.map Prod.fst = a.outcome.plan? := by
    intro a ha
    have hr := (mem_route_of_mem_attempts host e state ha).2
    unfold Outcome.plan?
    rw [hr]
    cases a <;> rfl
  rw [calls_eq, List.map_filterMap, Host.plans, ← outcomes_generate host e state, List.filterMap_map]
  exact List.filterMap_congr hcall

theorem written_of_calls : (host.generate e state).written = (host.calls e state).filterMap EmitterCall.path? := by
  rw [calls_eq, List.filterMap_filterMap, Generation.written]
  refine List.filterMap_congr fun a _ => ?_
  cases a <;> rfl

/-- Every call succeeds or fails. -/
theorem length_written : (host.generate e state).written.length + (host.calls e state).countP EmitterCall.failed =
    host.plans.length := by
  have hsome : ∀ call : EmitterCall, call.path?.isSome = !call.failed := by
    rintro ⟨plan, _ | _⟩ <;> rfl
  rw [written_of_calls, List.length_filterMap_eq_countP, ← plans_of_calls host e state, List.length_map,
    List.length_eq_countP_add_countP fun call : EmitterCall => call.path?.isSome]
  simp [hsome]

/-- No directive is lost: it is refused with one error, or its plan is given to the emitter once, and
either adds a path or one error. -/
theorem generate_accounts_for_every_directive : AccountsForAll host e state where
  directives := by
    have h := congrArg (List.map Outcome.directive) (outcomes_generate host e state)
    rw [List.map_map] at h
    exact h.trans host.directives_route
  outcomes := outcomes_generate host e state
  calls := plans_of_calls host e state
  recorded := by
    rw [calls_eq]
    unfold Host.generate
    rw [e.attempts_recording]
    rfl
  written := written_of_calls host e state
  rejected o problem h := by
    obtain ⟨ho, hr⟩ := mem_route_of_mem_attempts host e state h
    obtain ⟨hnone, herror⟩ := Outcome.refused_of_mem_route ho hr
    refine ⟨hr, herror, ?_⟩
    show o.diagnostics ++ [problem] = [problem]
    rw [show o.diagnostics = [] from hnone, List.nil_append]
  failed o plan error h := by
    obtain ⟨ho, hr⟩ := mem_route_of_mem_attempts host e state h
    refine ⟨hr, ?_, ?_⟩
    · rw [calls_eq]
      exact List.mem_filterMap.mpr ⟨_, h, rfl⟩
    · show o.diagnostics ++ [.error error.message plan.location] = _
      rw [Outcome.location_of_mem_route ho hr]
      rfl
  reported before := e.foldl_advance host.route ⟨[], before, state⟩
  count := by
    have hwritten := length_written host e state
    have hplans := host.length_plans
    omega

end Account

end BuilderSynthesis
