/-
  BuilderSynthesis.Proofs.SampleBuilders — the runs of the builders of the sample crate.

  Their plans are evaluated once (`tree_isSample`), for the names of their fields and how they go with
  the struct. What their runs do follows from that (`sample_builders_run_as_planned`), for values of
  any kind.
-/

import BuilderSynthesis.Built.Sample
import BuilderSynthesis.Proofs.FinishedValues
import BuilderSynthesis.Proofs.Planning
import BuilderSynthesis.Proofs.Scanned

namespace BuilderSynthesis

variable {V T : Type}

/-! ## Evaluation -/

/-- The plans of a tree suit the structs that they build. -/
def SourceTree.plansSuit (tree : SourceTree) : Bool :=
  tree.host.plans.all fun plan => (tree.findType plan.target.path plan.module).any fun t => decide (plan.Suits t)

/-- One of the plans copies a required field `a` and an optional field `b`. -/
def SourceTree.plansPairs (tree : SourceTree) : Bool :=
  tree.host.plans.any fun plan => plan.unit == "PairBuilder" &&
    (tree.findType plan.target.path plan.module).any fun t => decide (plan.CopiesAll t) &&
      t.fields.map (fun d => (d.name, (Descriptor.canonical d.type).nullable)) == [("a", false), ("b", true)]

/-- What is evaluated of a tree. -/
def SourceTree.isSample (tree : SourceTree) : Bool := tree.plansSuit && tree.plansPairs

set_option maxRecDepth 100000 in
theorem Sample.tree_isSample : Sample.tree.isSample = true :=
  (congrArg SourceTree.isSample (SourceTree.ofSources_ofList
    [("account.rs", _), ("defaults.rs", _), ("inventory.rs", _), ("labeled.rs", _), ("markers.rs", _), ("pair.rs", _),
     ("recorder.rs", _), ("scores.rs", _)])).trans (by decide +kernel)

/-! ## The builders -/

theorem suits_of_mem_plans {plan : BuilderPlan} (h : plan ∈ Sample.plans) :
    ∃ t, Sample.tree.findType plan.target.path plan.module = some t ∧ plan.Suits t := by
  obtain ⟨hs, -⟩ := Bool.and_eq_true_iff.mp Sample.tree_isSample
  obtain ⟨t, ht, hd⟩ := (Option.any_eq_true ..).mp (List.all_eq_true.mp hs plan h)
  exact ⟨t, ht, of_decide_eq_true hd⟩

/-- Every builder of the crate follows its plan in every run. Its fields are in the order of their
declarations and required unless they are optional, and a struct that is copied as a whole is built
again. -/
theorem sample_builders_run_as_planned (m : Meaning V T) {plan : BuilderPlan} (h : plan ∈ Sample.plans) :
    RunsAsPlanned plan m ∧ (∀ f ∈ plan.fields, f.required = !f.descriptor.nullable) ∧
      ∃ t, Sample.tree.findType plan.target.path plan.module = some t ∧ plan.fieldNames = plan.declaredOrder t ∧
        (m.ReadsBack → plan.CopiesAll t → ∀ x, t.HasValue m x → plan.run m (.finished x) [] = .ok x) := by
  obtain ⟨t, ht, hs⟩ := suits_of_mem_plans h
  refine ⟨runs_as_planned m hs.1, fun f hf => Host.required_eq h hf, t, ht, hs.2.1, ?_⟩
  intro hm hc x hx
  exact BuilderPlan.run_finished hm hs hc hx

/-- A pair without its optional value is copied and built again. -/
theorem sample_builders_run_as_planned_for_pairs :
    ∃ plan ∈ Sample.plans, plan.unit = "PairBuilder" ∧ RunsAsPlanned plan Sample.meaning ∧
      plan.run Sample.meaning (.finished [("a", some (.text "x")), ("b", none)]) [] =
        .ok [("a", some (.text "x")), ("b", none)] := by
  obtain ⟨-, hp⟩ := Bool.and_eq_true_iff.mp Sample.tree_isSample
  obtain ⟨plan, hm, hpair⟩ := List.any_eq_true.mp hp
  obtain ⟨hu, t, ht, hcopies, hfields⟩ :
      plan.unit = "PairBuilder" ∧ ∃ t, Sample.tree.findType plan.target.path plan.module = some t ∧ plan.CopiesAll t ∧
        t.fields.map (fun d => (d.name, (Descriptor.canonical d.type).nullable)) = [("a", false), ("b", true)] := by
    simpa [Option.any_eq_true] using hpair
  obtain ⟨hruns, -, u, hut, -, hround⟩ := sample_builders_run_as_planned Sample.meaning hm
  obtain rfl : u = t := Option.some.inj (hut.symm.trans ht)
  refine ⟨plan, hm, hu, hruns, hround (fun values name => rfl) hcopies _ ⟨_, ?_, rfl, fun d hd hn => ?_⟩⟩
  · exact (congrArg (List.map Prod.fst) hfields).symm.trans (List.map_map ..)
  · have hmem : (d.name, (Descriptor.canonical d.type).nullable) ∈ [("a", false), ("b", true)] :=
      hfields ▸ List.mem_map_of_mem hd
    have ha : d.name = "a" := by simpa [hn] using hmem
    rw [ha]
    decide

end BuilderSynthesis
