/-
  BuilderSynthesis.Proofs.Emission — what storing builders does to the file tree.

  Storing one plan either fails and leaves the tree alone, or puts the text of the plan at the place
  of its unit and touches nothing else (`store_cases`). Which of the two depends only on the
  directories of the tree (`refusal?`), and storing never changes those: so the same plans are
  stored by every pass over the same directories (`attempts_emitted`), and each place ends with the
  text of the last plan stored there (`attempts_get?`).
-/

import BuilderSynthesis.Pass.Generate
import BuilderSynthesis.Proofs.FileTree

namespace BuilderSynthesis

/-! ## What was emitted -/

/-- The plan of an attempt that stored its builder. -/
def Attempt.emitted? : Attempt → Option BuilderPlan
  | emitted _ plan _ => some plan
  | _ => none

/-- The plans whose builders were stored, in the order they were. -/
def Generation.emitted {σ : Type} (g : Generation σ) : List BuilderPlan := g.attempts.filterMap Attempt.emitted?

/-- The last of some plans that has a property. -/
def lastPlan? (plans : List BuilderPlan) (holds : BuilderPlan → Bool) : Option BuilderPlan :=
  (plans.filter holds).getLast?

theorem lastPlan?_cons (first : BuilderPlan) (rest : List BuilderPlan) (holds : BuilderPlan → Bool) :
    lastPlan? (first :: rest) holds = (lastPlan? rest holds).or (if holds first then some first else none) := by
  unfold lastPlan?
  rw [List.filter_cons]
  split
  · rw [List.getLast?_cons]
    cases (rest.filter holds).getLast? <;> rfl
  · rw [Option.or_none]

theorem lastPlan?_eq_none_iff {plans : List BuilderPlan} {holds : BuilderPlan → Bool} :
    lastPlan? plans holds = none ↔ ∀ plan ∈ plans, ¬ holds plan = true := by
  unfold lastPlan?
  rw [List.getLast?_eq_none_iff, List.filter_eq_nil_iff]

theorem mem_of_lastPlan? {plans : List BuilderPlan} {holds : BuilderPlan → Bool} {plan : BuilderPlan}
    (h : lastPlan? plans holds = some plan) : plan ∈ plans ∧ holds plan = true :=
  List.mem_filter.mp (List.mem_of_getLast? h)

/-- A plan that has the property is the last one, or another one comes after it. -/
theorem exists_lastPlan?_of_mem {plans : List BuilderPlan} {holds : BuilderPlan → Bool} {plan : BuilderPlan}
    (hm : plan ∈ plans) (h : holds plan = true) : ∃ last, lastPlan? plans holds = some last := by
  cases hl : lastPlan? plans holds with
  | none => exact absurd h (lastPlan?_eq_none_iff.mp hl plan hm)
  | some last => exact ⟨last, rfl⟩

theorem lastPlan?_congr {plans : List BuilderPlan} {p q : BuilderPlan → Bool} (h : ∀ plan ∈ plans, p plan = q plan) :
    lastPlan? plans p = lastPlan? plans q := by
  unfold lastPlan?
  rw [List.filter_congr h]

namespace BuilderDirectory

variable {d : BuilderDirectory} {tree next other : FileTree} {place : Place}

/-! ## One plan -/

/-- After the text is written at a place. Nothing else changes, and the place joins the others if it
is new. -/
structure Wrote (before : FileTree) (place : Place) (text : String) (after : FileTree) : Prop where
  get? : ∀ q, after.get? q = if q = place then some (.file (.text text)) else before.get? q
  places : after.places = if place ∈ before.places then before.places else before.places ++ [place]
  directories : FileTree.SameDirectories before after

/-- A text that is there already counts as written. -/
theorem wrote_of_get? {text : String} (h : tree.get? place = some (.file (.text text))) : Wrote tree place text tree where
  get? q := by
    split
    · rename_i hq
      rw [hq, h]
    · rfl
  places := by
    have hne : place ≠ [] := by
      rintro rfl
      cases h
    rw [if_pos (FileTree.mem_places_iff.mpr ⟨hne, _, h⟩)]
  directories := .refl tree

theorem wrote_of_put? {text : String} (h : tree.put? place (.file (.text text)) = some next) :
    Wrote tree place text next where
  get? := FileTree.get?_of_put? h
  places := FileTree.places_of_put? h
  directories := .of_put? h

/-- A place where a file lies is free to be written. -/
theorem isFree_of_file {content : Content} (h : tree.get? place = some (.file content)) : tree.isFree place = true := by
  have hne : place ≠ [] := by
    rintro rfl
    cases h
  rw [← List.dropLast_concat_getLast hne] at h
  obtain ⟨hn, hd⟩ := FileTree.named_of_get? h
  rw [tree.isFree_iff, ← FileTree.isDirectory_iff]
  refine ⟨?_, hd, ?_⟩
  · rw [List.getLast?_eq_some_getLast hne]
    exact hn
  · rw [← List.dropLast_concat_getLast hne, h]
    simp

/-- Why a plan cannot be stored: it does not render, or the path of its unit leads to no free place. -/
def refusal? (d : BuilderDirectory) (tree : FileTree) (plan : BuilderPlan) : Option PassError :=
  match plan.source with
  | .error e => some (.render plan.unit e.message)
  | .ok _ =>
    if (tree.locate (d.pathOf plan.unit)).any tree.isFree then none else some (.writeBuilder (d.pathOf plan.unit))

theorem refusal?_congr (h : FileTree.SameDirectories tree other) (plan : BuilderPlan) :
    d.refusal? tree plan = d.refusal? other plan := by
  have hfree : tree.isFree = other.isFree := funext h.isFree
  unfold refusal?
  rw [h.locate, hfree]

/-- A file at the path of a unit can be replaced. -/
theorem exists_isFree_of_read {path text : String} (h : tree.read path = .ok text) :
    ∃ place, tree.locate path = some place ∧ tree.get? place = some (.file (.text text)) := by
  unfold FileTree.read at h
  split at h
  · rename_i found hf
    cases h
    unfold FileTree.entry? at hf
    exact Option.bind_eq_some_iff.mp hf
  · cases h
  · cases h

theorem store_refused {plan : BuilderPlan} {error : PassError} (h : d.refusal? tree plan = some error) :
    d.store plan tree = (.error error, tree) := by
  unfold refusal? at h
  unfold store
  cases hs : plan.source with
  | error e =>
    rw [hs] at h
    cases h
    rfl
  | ok source =>
    simp only [hs] at h
    split at h
    · cases h
    · rename_i hfree
      cases h
      have hw : store.write tree (d.pathOf plan.unit) source =
          (.error (.writeBuilder (d.pathOf plan.unit)), tree) := by
        unfold store.write FileTree.write?
        cases hl : tree.locate (d.pathOf plan.unit) with
        | none => rfl
        | some place =>
          have hf : ¬ tree.isFree place = true := by simpa [hl] using hfree
          simp [FileTree.put?, hf]
      cases hr : tree.read (d.pathOf plan.unit) with
      | error _ => simpa only [hr] using hw
      | ok text =>
        obtain ⟨place, hl, hg⟩ := exists_isFree_of_read hr
        exact absurd (by rw [hl]; exact isFree_of_file hg) hfree

/-- A plan that is not refused is stored at the place of its unit. -/
theorem store_accepted {plan : BuilderPlan} (h : d.refusal? tree plan = none) :
    ∃ source place stored next, plan.source = .ok source ∧ tree.locate (d.pathOf plan.unit) = some place ∧
      stored.path = d.pathOf plan.unit ∧ Wrote tree place source next ∧ d.store plan tree = (.ok stored, next) := by
  unfold refusal? at h
  split at h
  · cases h
  · rename_i source hs
    split at h
    · rename_i hfree
      obtain ⟨place, hl, hf⟩ := (Option.any_eq_true _ _).mp hfree
      obtain ⟨next, hp⟩ := FileTree.exists_put? (.file (.text source)) hf
      have hw : store.write tree (d.pathOf plan.unit) source = (.ok ⟨d.pathOf plan.unit, true⟩, next) := by
        unfold store.write FileTree.write?
        rw [hl, Option.bind_some, hp]
      by_cases hr : tree.read (d.pathOf plan.unit) = .ok source
      · obtain ⟨place', hl', hg⟩ := exists_isFree_of_read hr
        cases hl.symm.trans hl'
        refine ⟨source, place, ⟨d.pathOf plan.unit, false⟩, tree, hs, hl, rfl, wrote_of_get? hg, ?_⟩
        simp [store, hs, hr]
      · refine ⟨source, place, ⟨d.pathOf plan.unit, true⟩, next, hs, hl, rfl, wrote_of_put? hp, ?_⟩
        unfold store
        rw [hs]
        simp only
        split
        · rename_i found hfound
          have hne : ¬ (found == source) = true := by
            rw [beq_iff_eq]
            rintro rfl
            exact hr hfound
          rw [if_neg hne]
          exact hw
        · exact hw
    · cases h

/-! ## One outcome -/

/-- What an attempt at an outcome was, and the tree after it. -/
inductive Attempted (d : BuilderDirectory) (before : FileTree) (o : Outcome) : Attempt → FileTree → Prop where
  | rejected {problem : Diagnostic} (result : o.result = .error problem) : Attempted d before o (.rejected o problem) before
  | failed {plan : BuilderPlan} {error : PassError} (result : o.result = .ok plan)
      (refused : d.refusal? before plan = some error) : Attempted d before o (.failed o plan error) before
  | emitted {plan : BuilderPlan} {source : String} {place : Place} {stored : Stored} {after : FileTree}
      (result : o.result = .ok plan) (accepted : d.refusal? before plan = none) (rendered : plan.source = .ok source)
      (located : before.locate (d.pathOf plan.unit) = some place) (path : stored.path = d.pathOf plan.unit)
      (wrote : Wrote before place source after) : Attempted d before o (.emitted o plan stored) after

theorem attempted (d : BuilderDirectory) (tree : FileTree) (o : Outcome) :
    Attempted d tree o (d.emitter.attempt o tree).1 (d.emitter.attempt o tree).2 := by
  unfold Emitter.attempt
  cases hr : o.result with
  | error problem => exact .rejected hr
  | ok plan =>
    cases hf : d.refusal? tree plan with
    | some error =>
      simp only [emitter, store_refused hf]
      exact .failed hr hf
    | none =>
      obtain ⟨source, place, stored, next, hs, hl, hp, hw, he⟩ := store_accepted hf
      simp only [emitter, he]
      exact .emitted hr hf hs hl hp hw

/-- What a pass reports about an outcome. -/
def reported (d : BuilderDirectory) (tree : FileTree) (o : Outcome) : List Diagnostic :=
  o.diagnostics ++ match o.result with
    | .error problem => [problem]
    | .ok plan => ((d.refusal? tree plan).map fun error => .error error.message plan.location).toList

theorem reported_congr (h : FileTree.SameDirectories tree other) (o : Outcome) :
    d.reported tree o = d.reported other o := by
  unfold reported
  cases o.result with
  | error problem => rfl
  | ok plan => simp only [refusal?_congr h plan]

/-- Places of the unit of a plan. -/
def storesAt (d : BuilderDirectory) (tree : FileTree) (place : Place) (plan : BuilderPlan) : Bool :=
  tree.locate (d.pathOf plan.unit) == some place

theorem storesAt_congr (h : FileTree.SameDirectories tree other) (place : Place) :
    d.storesAt tree place = d.storesAt other place := by
  funext plan
  unfold storesAt
  rw [h.locate]

/-! ## All outcomes -/

/-- What attempts at outcomes were, and the tree after all of them. -/
structure Emission (d : BuilderDirectory) (before : FileTree) (outcomes : List Outcome) (attempts : List Attempt)
    (after : FileTree) : Prop where
  directories : FileTree.SameDirectories before after
  emitted : attempts.filterMap Attempt.emitted? =
    (outcomes.filterMap Outcome.plan?).filter fun plan => (d.refusal? before plan).isNone
  written : (attempts.filterMap fun a => a.stored?.map Stored.path) =
    (attempts.filterMap Attempt.emitted?).map fun plan => d.pathOf plan.unit
  diagnostics : attempts.flatMap Attempt.diagnostics = outcomes.flatMap (d.reported before)
  /-- The last plan stored at a place has its text there. -/
  get? : ∀ place, after.get? place =
    match lastPlan? (attempts.filterMap Attempt.emitted?) (d.storesAt before place) with
    | some plan => plan.source.toOption.map fun source => .file (.text source)
    | none => before.get? place
  places : (∀ plan ∈ attempts.filterMap Attempt.emitted?, ∀ place,
    d.storesAt before place plan = true → place ∈ before.places) → after.places = before.places

namespace Emission

theorem nil (d : BuilderDirectory) (tree : FileTree) : Emission d tree [] [] tree where
  directories := .refl tree
  emitted := rfl
  written := rfl
  diagnostics := rfl
  get? _ := rfl
  places _ := rfl

variable {o : Outcome} {outcomes : List Outcome} {attempts : List Attempt}

/-- An outcome whose plan is not stored adds only what is reported about it. -/
theorem skip {a : Attempt} (he : a.emitted? = none) (hs : a.stored? = none) (hd : a.diagnostics = d.reported tree o)
    (hp : ∀ plan, o.plan? = some plan → (d.refusal? tree plan).isNone = false)
    (rest : Emission d tree outcomes attempts next) : Emission d tree (o :: outcomes) (a :: attempts) next where
  directories := rest.directories
  emitted := by
    rw [List.filterMap_cons_none he, rest.emitted]
    cases ho : o.plan? with
    | none => rw [List.filterMap_cons_none ho]
    | some plan =>
      have hr : ¬ (d.refusal? tree plan).isNone = true := by
        rw [hp plan ho]
        exact Bool.false_ne_true
      rw [List.filterMap_cons_some ho, List.filter_cons, if_neg hr]
  written := by
    rw [List.filterMap_cons_none he, List.filterMap_cons_none (by rw [hs]; rfl), rest.written]
  diagnostics := by
    rw [List.flatMap_cons, List.flatMap_cons, hd, rest.diagnostics]
  get? place := by
    rw [List.filterMap_cons_none he]
    exact rest.get? place
  places h := by
    rw [List.filterMap_cons_none he] at h
    exact rest.places h

/-- An outcome whose plan is stored adds its text, which a later plan at the same place replaces. -/
theorem store {plan : BuilderPlan} {source : String} {place : Place} {stored : Stored} {middle : FileTree}
    (result : o.result = .ok plan) (accepted : d.refusal? tree plan = none) (rendered : plan.source = .ok source)
    (located : tree.locate (d.pathOf plan.unit) = some place) (path : stored.path = d.pathOf plan.unit)
    (wrote : Wrote tree place source middle) (rest : Emission d middle outcomes attempts next) :
    Emission d tree (o :: outcomes) (.emitted o plan stored :: attempts) next := by
  have ho : o.plan? = some plan := by
    unfold Outcome.plan?
    rw [result]
    rfl
  have he : (Attempt.emitted o plan stored).emitted? = some plan := rfl
  have hat : ∀ q, d.storesAt tree q plan = true ↔ q = place := by
    intro q
    unfold storesAt
    rw [located, beq_iff_eq, Option.some.injEq]
    exact eq_comm
  refine ⟨wrote.directories.trans rest.directories, ?_, ?_, ?_, fun q => ?_, fun h => ?_⟩
  · have hr : (d.refusal? tree plan).isNone = true := by rw [accepted]; rfl
    have hrest : ∀ p : BuilderPlan, (d.refusal? middle p).isNone = (d.refusal? tree p).isNone :=
      fun p => by rw [refusal?_congr wrote.directories p]
    rw [List.filterMap_cons_some he, List.filterMap_cons_some ho, List.filter_cons, if_pos hr, rest.emitted]
    simp only [hrest]
  · have hs : ((Attempt.emitted o plan stored :: attempts).filterMap fun a => a.stored?.map Stored.path) =
        stored.path :: attempts.filterMap fun a => a.stored?.map Stored.path := rfl
    rw [List.filterMap_cons_some he, hs, rest.written, List.map_cons, path]
  · have hd : (Attempt.emitted o plan stored).diagnostics = d.reported tree o := by
      simp [Attempt.diagnostics, Attempt.outcome, Attempt.problem?, reported, result, accepted]
    have hrest : d.reported middle = d.reported tree := funext fun p => (reported_congr wrote.directories p).symm
    rw [List.flatMap_cons, List.flatMap_cons, hd, rest.diagnostics, hrest]
  · rw [rest.get? q, List.filterMap_cons_some he, lastPlan?_cons, storesAt_congr wrote.directories]
    cases lastPlan? (attempts.filterMap Attempt.emitted?) (d.storesAt middle q) with
    | some later => rfl
    | none =>
      rw [Option.none_or, wrote.get? q]
      by_cases hq : q = place
      · rw [← storesAt_congr wrote.directories, if_pos hq, if_pos ((hat q).mpr hq)]
        simp [rendered, Except.toOption]
      · rw [← storesAt_congr wrote.directories, if_neg hq, if_neg fun h => hq ((hat q).mp h)]
  · rw [List.filterMap_cons_some he] at h
    have hplace : place ∈ tree.places := h plan List.mem_cons_self place ((hat place).mpr rfl)
    have hm : middle.places = tree.places := by rw [wrote.places, if_pos hplace]
    rw [← hm]
    refine rest.places fun later hl q hq => ?_
    rw [hm]
    rw [← storesAt_congr wrote.directories] at hq
    exact h later (List.mem_cons_of_mem plan hl) q hq

theorem cons {a : Attempt} {middle : FileTree} (first : Attempted d tree o a middle)
    (rest : Emission d middle outcomes attempts next) : Emission d tree (o :: outcomes) (a :: attempts) next := by
  cases first with
  | rejected result =>
    refine skip rfl rfl ?_ (fun plan ho => ?_) rest
    · simp [Attempt.diagnostics, Attempt.outcome, Attempt.problem?, reported, result]
    · rw [Outcome.plan?, result] at ho
      cases ho
  | failed result refused =>
    refine skip rfl rfl ?_ (fun plan ho => ?_) rest
    · simp [Attempt.diagnostics, Attempt.outcome, Attempt.problem?, reported, result, refused]
    · rw [Outcome.plan?, result] at ho
      cases ho
      rw [refused]
      rfl
  | emitted result accepted rendered located path wrote =>
    exact store result accepted rendered located path wrote rest

end Emission

theorem emission (d : BuilderDirectory) (outcomes : List Outcome) (tree : FileTree) :
    Emission d tree outcomes (d.emitter.attempts outcomes tree).1 (d.emitter.attempts outcomes tree).2 := by
  induction outcomes generalizing tree with
  | nil => exact .nil d tree
  | cons o rest ih => exact .cons (attempted d tree o) (ih _)

end BuilderDirectory

end BuilderSynthesis
