/-
  BuilderSynthesis.Proofs.Convergence — the builder directory after a pass.

  Whatever lay in the builder directory before, a pass that ends well leaves exactly the builders it
  emitted there, each with the text of the last plan of its unit, and reports what it removed for
  that (`Converged`). A second pass over the same host finds nothing to change
  (`runOn_converges`).

  Emission and removal must agree on the files that stay. They do because a path is located by the
  directories of a tree alone, and a pass changes those only before it emits: so a plan is stored in
  the second pass where it was in the first (`Proofs.Emission`), and a path is kept just when its
  unit was emitted (`Proofs.StaleBuilders`).
-/

import BuilderSynthesis.Pass.Run
import BuilderSynthesis.Proofs.Emission
import BuilderSynthesis.Proofs.Planning
import BuilderSynthesis.Proofs.StaleBuilders

namespace BuilderSynthesis

open BuilderDirectory

/-- What a pass leaves behind in its builder directory, given the plans that it stored. -/
structure Converged (d : BuilderDirectory) (emitted : List BuilderPlan) (before : FileTree) (report : PassReport)
    (after : FileTree) : Prop where
  written : report.written = emitted.map fun plan => d.pathOf plan.unit
  /-- The source files in the directory are those written. -/
  sources : ∀ path, path ∈ d.sources after (after.locate d.dir) ↔ path ∈ report.written
  /-- Each has the text of the last stored plan of its unit. -/
  contents : ∀ unit plan, lastPlan? emitted (·.unit == unit) = some plan →
    ∃ source, plan.source = .ok source ∧ after.read (d.pathOf unit) = .ok source
  sorted : report.removed.Pairwise fun a b => FilePath.le a b = true
  distinct : report.removed.Nodup
  /-- What was removed are the source files that lay there before and were not written. -/
  removed : ∀ path, path ∈ report.removed ↔ path ∈ d.sources before (after.locate d.dir) ∧ path ∉ report.written
  /-- Everything but the source files in the directory is as before, or a new directory. -/
  untouched : ∀ q, (∀ place name, after.locate d.dir = some place → q = place ++ [name] →
      FilePath.isSource (FilePath.join d.dir name) = false) →
    after.get? q = before.get? q ∨ (before.get? q = none ∧ after.get? q = some .directory)

/-- The name of the file of a plan. -/
def BuilderPlan.fileName (plan : BuilderPlan) : String := plan.unit ++ ".rs"

theorem BuilderPlan.fileName_inj {a b : BuilderPlan} : a.fileName = b.fileName ↔ a.unit = b.unit := by
  constructor
  · intro h
    have := congrArg String.toList h
    simp only [fileName, String.toList_append] at this
    exact String.toList_inj.mp (List.append_cancel_right this)
  · intro h
    unfold fileName
    rw [h]

/-! ## One pass from a tree with a builder directory -/

section Pass

variable {d : BuilderDirectory} {place : Place} {before prepared stored after : FileTree}
  {outcomes : List Outcome} {attempts : List Attempt} {removed : List String}

/-- The units of plans, as names of files. -/
def SourceNames (plans : List BuilderPlan) : Prop := ∀ plan ∈ plans, '/' ∉ plan.unit.toList ∧ plan.unit ≠ ""

/-- The paths of the builders that some attempts stored. -/
def writtenPaths (d : BuilderDirectory) (attempts : List Attempt) : List String :=
  (attempts.filterMap Attempt.emitted?).map fun plan => d.pathOf plan.unit

/-- The file of a stored plan stays. -/
theorem get?_written (hs : d.Swept place (writtenPaths d attempts) stored removed after) {plan : BuilderPlan}
    (hm : plan ∈ attempts.filterMap Attempt.emitted?) :
    after.get? (place ++ [plan.fileName]) = stored.get? (place ++ [plan.fileName]) := by
  have hw : d.pathOf plan.unit ∈ writtenPaths d attempts := List.mem_map.mpr ⟨plan, hm, rfl⟩
  exact hs.get?_kept (hs.not_mem_removed hw)

variable (hat : d.OpensAt prepared place) (hn : SourceNames (outcomes.filterMap Outcome.plan?))
  (he : Emission d prepared outcomes attempts stored)

include hat hn he

/-- A stored plan has a text, and its path leads to the file of its unit in the directory. -/
theorem stored_at {plan : BuilderPlan} (hm : plan ∈ attempts.filterMap Attempt.emitted?) :
    FilePath.IsPart plan.fileName ∧ FilePath.isSource (d.pathOf plan.unit) = true ∧
      prepared.locate (d.pathOf plan.unit) = some (place ++ [plan.fileName]) ∧
      ∃ source, plan.source = .ok source := by
  rw [he.emitted] at hm
  obtain ⟨hp, hr⟩ := List.mem_filter.mp hm
  obtain ⟨source, q, _, _, hs, hl, -⟩ := store_accepted (Option.isNone_iff_eq_none.mp hr)
  have hpart : FilePath.IsPart plan.fileName := FilePath.isPart_source (hn plan hp).1
  have hl' := FileTree.locate_join hat.located hat.directory hpart
  change prepared.locate (d.pathOf plan.unit) = _ at hl'
  refine ⟨hpart, FilePath.isSource_join_source d.dir (hn plan hp).1 (hn plan hp).2, ?_, source, hs⟩
  rw [hl] at hl'
  split at hl'
  · rw [hl, hl']
  · cases hl'

/-- Where a name lies in the directory, the last stored plan of its unit has its text. -/
theorem get?_stored (name : String) : stored.get? (place ++ [name]) =
    match lastPlan? (attempts.filterMap Attempt.emitted?) (·.fileName == name) with
    | some plan => plan.source.toOption.map fun source => .file (.text source)
    | none => prepared.get? (place ++ [name]) := by
  have hsame : lastPlan? (attempts.filterMap Attempt.emitted?) (d.storesAt prepared (place ++ [name])) =
      lastPlan? (attempts.filterMap Attempt.emitted?) (·.fileName == name) := by
    refine lastPlan?_congr fun plan hm => ?_
    unfold storesAt
    rw [(stored_at hat hn he hm).2.2.1]
    simp
  have hget := he.get? (place ++ [name])
  rw [hsame] at hget
  exact hget

/-- Away from the files of units, storing changes nothing. -/
theorem get?_not_stored {q : Place} (hq : ∀ plan ∈ attempts.filterMap Attempt.emitted?, q ≠ place ++ [plan.fileName]) :
    stored.get? q = prepared.get? q := by
  have hnone : lastPlan? (attempts.filterMap Attempt.emitted?) (d.storesAt prepared q) = none := by
    rw [lastPlan?_eq_none_iff]
    intro plan hm
    unfold storesAt
    rw [(stored_at hat hn he hm).2.2.1, beq_iff_eq, Option.some.injEq]
    exact Ne.symm (hq plan hm)
  rw [he.get?, hnone]

theorem get?_not_written {name : String} (hw : FilePath.join d.dir name ∉ writtenPaths d attempts) :
    stored.get? (place ++ [name]) = prepared.get? (place ++ [name]) := by
  refine get?_not_stored hat hn he fun plan hm hq => hw ?_
  rw [List.append_cancel_left_eq, List.cons.injEq] at hq
  exact List.mem_map.mpr ⟨plan, hm, by rw [hq.1]; rfl⟩

/-- The last stored plan of a unit has its text in its file. -/
theorem get?_stored_unit {unit : String} {plan : BuilderPlan}
    (hl : lastPlan? (attempts.filterMap Attempt.emitted?) (·.unit == unit) = some plan) :
    plan.unit = unit ∧ ∃ source, plan.source = .ok source ∧
      stored.get? (place ++ [plan.fileName]) = some (.file (.text source)) := by
  obtain ⟨hm, hu⟩ := mem_of_lastPlan? hl
  rw [beq_iff_eq] at hu
  obtain ⟨source, hs⟩ := (stored_at hat hn he hm).2.2.2
  have hname : lastPlan? (attempts.filterMap Attempt.emitted?) (·.fileName == plan.fileName) = some plan := by
    rw [← hl]
    refine lastPlan?_congr fun p _ => ?_
    rw [Bool.eq_iff_iff, beq_iff_eq, beq_iff_eq, BuilderPlan.fileName_inj, hu]
  refine ⟨hu, source, hs, ?_⟩
  rw [get?_stored hat hn he, hname]
  simp [hs, Except.toOption]

/-- The file of every stored plan is there. -/
theorem exists_file_of_emitted {plan : BuilderPlan} (hm : plan ∈ attempts.filterMap Attempt.emitted?) :
    ∃ content, stored.get? (place ++ [plan.fileName]) = some (.file content) := by
  obtain ⟨last, hl⟩ : ∃ last, lastPlan? (attempts.filterMap Attempt.emitted?) (·.unit == plan.unit) = some last :=
    exists_lastPlan?_of_mem hm (beq_self_eq_true plan.unit)
  obtain ⟨hu, source, -, hg⟩ := get?_stored_unit hat hn he hl
  rw [BuilderPlan.fileName_inj.mpr hu] at hg
  exact ⟨.text source, hg⟩

theorem allNamed_written : d.AllNamed (writtenPaths d attempts) := by
  intro path hp
  obtain ⟨plan, hm, rfl⟩ := List.mem_map.mp hp
  exact ⟨plan.fileName, (stored_at hat hn he hm).1, rfl⟩

variable (hs : d.Swept place (writtenPaths d attempts) stored removed after)

include hs

theorem mem_sources_after (path : String) : path ∈ d.sources after (some place) ↔ path ∈ writtenPaths d attempts := by
  constructor
  · intro hp
    obtain ⟨name, ⟨e, hg⟩, rfl, hsrc⟩ := mem_sources_iff.mp hp
    have hpart := isPart_of_get? hg
    by_contra hw
    have hr : FilePath.join d.dir name ∉ removed := by
      intro hr
      rw [hs.gone name hr hpart] at hg
      cases hg
    rw [hs.get?_kept hr] at hg
    exact hr ((hs.mem_removed _).mpr ⟨mem_sources_iff.mpr ⟨name, ⟨e, hg⟩, rfl, hsrc⟩, hw⟩)
  · intro hw
    obtain ⟨plan, hm, rfl⟩ := List.mem_map.mp hw
    obtain ⟨content, hg⟩ := exists_file_of_emitted hat hn he hm
    rw [← get?_written hs hm] at hg
    exact mem_sources_iff.mpr ⟨plan.fileName, ⟨_, hg⟩, rfl, (stored_at hat hn he hm).2.1⟩

theorem mem_removed_iff (hgrown : FileTree.Grown before prepared) (path : String) :
    path ∈ removed ↔ path ∈ d.sources before (some place) ∧ path ∉ writtenPaths d attempts := by
  rw [hs.mem_removed]
  refine and_congr_left fun hw => ⟨fun hp => ?_, fun hp => ?_⟩
  · have hr := (hs.mem_removed path).mpr ⟨hp, hw⟩
    obtain ⟨name, ⟨e, hg⟩, rfl, hsrc⟩ := mem_sources_iff.mp hp
    obtain ⟨content, hf⟩ := hs.files name hr (isPart_of_get? hg)
    rw [get?_not_written hat hn he hw] at hf
    exact mem_sources_iff.mpr ⟨name, ⟨_, hgrown.file hf⟩, rfl, hsrc⟩
  · obtain ⟨name, ⟨e, hg⟩, rfl, hsrc⟩ := mem_sources_iff.mp hp
    have hg' := hgrown.keeps hg
    rw [← get?_not_written hat hn he hw] at hg'
    exact mem_sources_iff.mpr ⟨name, ⟨e, hg'⟩, rfl, hsrc⟩

theorem read_after {unit : String} {plan : BuilderPlan}
    (hl : lastPlan? (attempts.filterMap Attempt.emitted?) (·.unit == unit) = some plan) :
    ∃ source, plan.source = .ok source ∧ after.read (d.pathOf unit) = .ok source := by
  obtain ⟨rfl, source, hsource, hg⟩ := get?_stored_unit hat hn he hl
  have hm := (mem_of_lastPlan? hl).1
  rw [← get?_written hs hm] at hg
  refine ⟨source, hsource, ?_⟩
  have hlocate := (stored_at hat hn he hm).2.2.1
  rw [he.directories.locate, hs.directories.locate] at hlocate
  unfold FileTree.read FileTree.entry?
  rw [hlocate, Option.bind_some, hg]

theorem get?_untouched {q : Place} (hq : ∀ name, q = place ++ [name] →
    FilePath.isSource (FilePath.join d.dir name) = false) : after.get? q = prepared.get? q := by
  have hkept : after.get? q = stored.get? q := by
    refine hs.kept q fun name _ h hr => ?_
    obtain ⟨_, -, hp, hsrc⟩ := mem_sources_iff.mp ((hs.mem_removed _).mp hr).1
    rw [hq name h] at hsrc
    cases hsrc
  rw [hkept]
  refine get?_not_stored hat hn he fun plan hm h => ?_
  have hsrc := hq plan.fileName h
  rw [show FilePath.join d.dir plan.fileName = d.pathOf plan.unit from rfl, (stored_at hat hn he hm).2.1] at hsrc
  cases hsrc

/-- A pass from a tree with a builder directory converges, also as seen from the tree before the
directory was made. -/
theorem converged_of_swept (hgrown : FileTree.Grown before prepared) (diagnostics : List Diagnostic) :
    Converged d (attempts.filterMap Attempt.emitted?) before ⟨writtenPaths d attempts, removed, diagnostics⟩ after := by
  have hplace : after.locate d.dir = some place :=
    ((hat.congr he.directories).congr hs.directories).located
  refine ⟨rfl, fun path => ?_, fun unit plan hl => read_after hat hn he hs hl, hs.sorted, hs.distinct,
    fun path => ?_, fun q hq => ?_⟩
  · rw [hplace]
    exact mem_sources_after hat hn he hs path
  · rw [hplace]
    exact mem_removed_iff hat hn he hs hgrown path
  · rw [get?_untouched hat hn he hs fun name h => hq place name hplace h]
    exact hgrown q

/-- A second pass over the same outcomes stores the same plans again and so changes nothing. -/
theorem stored_again {attempts' : List Attempt} {stored' : FileTree}
    (he' : Emission d after outcomes attempts' stored') :
    stored' = after ∧ attempts'.filterMap Attempt.emitted? = attempts.filterMap Attempt.emitted? ∧
      attempts'.flatMap Attempt.diagnostics = attempts.flatMap Attempt.diagnostics := by
  have hdirs := he.directories.trans hs.directories
  have hemitted : attempts'.filterMap Attempt.emitted? = attempts.filterMap Attempt.emitted? := by
    rw [he.emitted, he'.emitted]
    refine List.filter_congr fun plan _ => ?_
    rw [refusal?_congr hdirs plan]
  have hdiagnostics : attempts'.flatMap Attempt.diagnostics = attempts.flatMap Attempt.diagnostics := by
    have hr : d.reported after = d.reported prepared := funext fun o => (reported_congr hdirs o).symm
    rw [he.diagnostics, he'.diagnostics, hr]
  have hat' : d.OpensAt after place := hat.congr hdirs
  refine ⟨FileTree.ext_get? ?_ fun q => ?_, hemitted, hdiagnostics⟩
  · refine he'.places fun plan hm q hq => ?_
    rw [hemitted] at hm
    unfold storesAt at hq
    rw [← hdirs.locate, (stored_at hat hn he hm).2.2.1, beq_iff_eq, Option.some.injEq] at hq
    obtain ⟨content, hg⟩ := exists_file_of_emitted hat hn he hm
    rw [← get?_written hs hm] at hg
    rw [← hq, FileTree.mem_places_iff]
    exact ⟨by simp, _, hg⟩
  · by_cases hq : ∃ plan ∈ attempts.filterMap Attempt.emitted?, q = place ++ [plan.fileName]
    · obtain ⟨plan, hm, rfl⟩ := hq
      obtain ⟨last, hl⟩ : ∃ last, lastPlan? (attempts.filterMap Attempt.emitted?) (·.unit == plan.unit) = some last :=
        exists_lastPlan?_of_mem hm (beq_self_eq_true plan.unit)
      obtain ⟨hu, source, hsource, hg⟩ := get?_stored_unit hat hn he hl
      obtain ⟨-, source', hsource', hg'⟩ := get?_stored_unit hat' hn he' (hemitted ▸ hl)
      cases hsource.symm.trans hsource'
      rw [BuilderPlan.fileName_inj.mpr hu] at hg hg'
      rw [hg', get?_written hs hm, hg]
    · refine get?_not_stored hat' hn he' fun plan hm h => hq ⟨plan, hemitted ▸ hm, h⟩

end Pass

/-! ## Whole passes -/

section Runs

variable {c : Config} {host : Host} {d : BuilderDirectory} {place : Place} {before files : FileTree}
  {report : PassReport}

theorem result_finished (c : Config) (written : List String) (diagnostics : List Diagnostic) (events : List Event)
    (conclusion : Nat → List Event) (removal : Removal) :
    (c.finished written diagnostics events conclusion removal).result =
      removal.result.map fun removed => ⟨written, removed, diagnostics⟩ := by
  unfold Config.finished
  cases removal.result <;> rfl

theorem files_finished (c : Config) (written : List String) (diagnostics : List Diagnostic) (events : List Event)
    (conclusion : Nat → List Event) (removal : Removal) :
    (c.finished written diagnostics events conclusion removal).files = removal.files := by
  unfold Config.finished
  cases removal.result <;> rfl

/-- The end of a pass that ends well is its sweep. -/
theorem exists_of_finished {written : List String} {diagnostics : List Diagnostic} {events : List Event}
    {conclusion : Nat → List Event} {removal : Removal}
    (h : (c.finished written diagnostics events conclusion removal).result = .ok report) :
    ∃ removed, removal.result = .ok removed ∧ report = ⟨written, removed, diagnostics⟩ := by
  rw [result_finished] at h
  cases hr : removal.result with
  | error e =>
    rw [hr] at h
    cases h
  | ok removed =>
    rw [hr] at h
    cases h
    exact ⟨removed, rfl, rfl⟩

/-- A sweep that finds nothing leaves the tree as it is. -/
theorem finished_again (c : Config) (written : List String) (diagnostics : List Diagnostic) (events : List Event)
    (conclusion : Nat → List Event) {removal : Removal} (h : removal = ⟨[], none, files⟩) :
    (c.finished written diagnostics events conclusion removal).result = .ok ⟨written, [], diagnostics⟩ ∧
      (c.finished written diagnostics events conclusion removal).files = files := by
  rw [result_finished, files_finished, h]
  have hsort : ([] : List String).mergeSort FilePath.le = [] := List.mergeSort_nil
  simp only [Removal.result, hsort, Except.map, and_self]

theorem emission_generate (host : Host) (d : BuilderDirectory) (files : FileTree) :
    Emission d files host.route (host.generate d.emitter files).attempts (host.generate d.emitter files).state :=
  emission d host.route files

theorem written_generate (host : Host) (d : BuilderDirectory) (files : FileTree) :
    (host.generate d.emitter files).written = writtenPaths d (host.generate d.emitter files).attempts :=
  (emission_generate host d files).written

theorem runInto_converges (hat : d.OpensAt files place) (hn : SourceNames host.plans)
    (hgrown : FileTree.Grown before files) (hok : (c.runInto host d files).result = .ok report) :
    let after := (c.runInto host d files).files
    Converged d (host.generate d.emitter files).emitted before report after ∧
      FileTree.SameDirectories files after ∧
      (c.runInto host d after).result = .ok { report with removed := [] } ∧ (c.runInto host d after).files = after := by
  intro after
  have he := emission_generate host d files
  obtain ⟨removed, hr, rfl⟩ := exists_of_finished hok
  have hafter : after = (d.removeStale (host.generate d.emitter files).written (host.generate d.emitter files).state).files :=
    files_finished ..
  rw [written_generate] at hr hafter
  have hs := removeStale_swept (hat.congr he.directories) (allNamed_written hat hn he) hr
  rw [← hafter] at hs
  have hdirs := he.directories.trans hs.directories
  have he' := emission_generate host d after
  obtain ⟨hstored, hemitted, hdiagnostics⟩ := stored_again hat hn he hs he'
  have hwritten : writtenPaths d (host.generate d.emitter after).attempts =
      writtenPaths d (host.generate d.emitter files).attempts := by
    unfold writtenPaths
    rw [hemitted]
  have hnothing : d.removeStale (host.generate d.emitter after).written (host.generate d.emitter after).state =
      ⟨[], none, after⟩ := by
    rw [written_generate, hwritten, hstored]
    exact removeStale_nothing (hat.congr hdirs) (allNamed_written hat hn he)
      fun path => (mem_sources_after hat hn he hs path).mp
  have hdiagnostics : (host.generate d.emitter after).diagnostics = (host.generate d.emitter files).diagnostics :=
    hdiagnostics
  obtain ⟨hresult, hfiles⟩ := finished_again c (host.generate d.emitter after).written
    (host.diagnostics ++ (host.generate d.emitter after).diagnostics)
    (Event.ofDiagnostics host.diagnostics ++ (host.generate d.emitter after).events)
    (Config.conclusion (host.generate d.emitter after).written.length d.dir) hnothing
  refine ⟨?_, hdirs, ?_, hfiles⟩
  · rw [written_generate]
    exact converged_of_swept hat hn he hs hgrown _
  · refine hresult.trans ?_
    rw [hdiagnostics, written_generate, written_generate, hwritten]

/-- A pass ends well where every source file in the directory is a file. -/
theorem exists_runInto_ok (c : Config) (hat : d.OpensAt files place) (hn : SourceNames host.plans)
    (hf : ∀ path ∈ d.sources files (some place), holdsFile files path = true) :
    ∃ report, (c.runInto host d files).result = .ok report := by
  have he := emission_generate host d files
  have hr : ∃ removed, (d.removeStale (host.generate d.emitter files).written
      (host.generate d.emitter files).state).result = .ok removed := by
    rw [written_generate]
    refine removeStale_ok (hat.congr he.directories) (allNamed_written hat hn he) fun path hp hw => ?_
    obtain ⟨name, ⟨e, hg⟩, rfl, hsrc⟩ := mem_sources_iff.mp hp
    have hsame := get?_not_written hat hn he hw
    have hp' : FilePath.join d.dir name ∈ d.sources files (some place) :=
      mem_sources_iff.mpr ⟨name, ⟨e, hsame.symm.trans hg⟩, rfl, hsrc⟩
    obtain ⟨q, content, hl, hq⟩ := holdsFile_iff.mp (hf _ hp')
    have hl' := FileTree.locate_join hat.located hat.directory (isPart_of_get? hg)
    rw [hl] at hl'
    split at hl'
    · cases hl'
      exact holdsFile_iff.mpr ⟨_, content, (he.directories.locate _).symm.trans hl, hsame.trans hq⟩
    · cases hl'
  obtain ⟨removed, hr⟩ := hr
  unfold Config.runInto
  rw [result_finished, hr]
  exact ⟨_, rfl⟩

/-! ## The directory of a pass -/

theorem existing?_eq_some {outDir : String} (h : existing? files outDir = some d) :
    d = ⟨FilePath.join outDir directoryName⟩ ∧ ∃ place, d.OpensAt files place := by
  unfold existing? at h
  simp only at h
  split at h
  · rename_i hd
    cases h
    unfold FileTree.hasDirectory FileTree.entry? at hd
    rw [beq_iff_eq, Option.bind_eq_some_iff] at hd
    obtain ⟨place, hl, hg⟩ := hd
    exact ⟨rfl, place, hl, FileTree.isDirectory_iff.mpr hg⟩
  · cases h

theorem hasDirectory_of_opensAt (h : d.OpensAt files place) : files.hasDirectory d.dir = true := by
  unfold FileTree.hasDirectory FileTree.entry?
  rw [h.located, Option.bind_some, FileTree.isDirectory_iff.mp h.directory]
  rfl

theorem existing?_of_opensAt {outDir : String} (hd : d.dir = FilePath.join outDir directoryName)
    (h : d.OpensAt files place) : existing? files outDir = some d := by
  have hdir := hasDirectory_of_opensAt h
  unfold existing?
  simp only [← hd, hdir, if_true]

theorem prepare_eq_ok {outDir : String} {prepared : FileTree} (h : prepare files outDir = (.ok d, prepared)) :
    d = ⟨FilePath.join outDir directoryName⟩ ∧ FileTree.Grown files prepared ∧ (∃ place, d.OpensAt prepared place) ∧
      ∀ other, FileTree.SameDirectories prepared other → prepare other outDir = (.ok d, other) := by
  have hdir : FilePath.join outDir directoryName ≠ "" := by
    intro he
    have hc := FilePath.components_join outDir (show FilePath.IsPart directoryName from ⟨by decide, by decide⟩)
    rw [he] at hc
    simp [show FilePath.components "" = [] by decide] at hc
  unfold prepare at h
  simp only at h
  generalize hc : files.createDirectories (FilePath.join outDir directoryName) = made at h
  obtain ⟨tree, created⟩ := made
  cases created with
  | false => cases h
  | true =>
    cases h
    have hg := FileTree.createDirectories_grown files (FilePath.join outDir directoryName)
    rw [hc] at hg
    obtain ⟨place, hl, hd⟩ := FileTree.locate_createDirectories hdir hc
    refine ⟨rfl, hg, ⟨place, hl, hd⟩, fun other hs => ?_⟩
    unfold prepare
    simp only [FileTree.createDirectories_again hc hs, if_true]

/-- Where the directory is not there, no source file is in it. -/
theorem sources_eq_nil (h : files.hasDirectory d.dir = false) : d.sources files (files.locate d.dir) = [] := by
  rw [List.eq_nil_iff_forall_not_mem]
  intro path hp
  cases hl : files.locate d.dir with
  | none =>
    rw [hl] at hp
    cases hp
  | some place =>
    rw [hl] at hp
    obtain ⟨name, ⟨e, hg⟩, -, -⟩ := mem_sources_iff.mp hp
    have hdir := hasDirectory_of_opensAt ⟨hl, (FileTree.named_of_get? hg).2⟩
    rw [h] at hdir
    cases hdir

/-! ## Without directives -/

theorem runEmpty_existing (host : Host) {outDir : String} (hout : c.outDir = some outDir)
    (he : existing? files outDir = some d) :
    ∃ events conclusion, c.runEmpty host files = c.finished [] (host.diagnostics ++ [Config.nothingToGenerate]) events
      conclusion (d.removeStale [] files) := by
  unfold Config.runEmpty
  rw [hout, Option.bind_some, he]
  exact ⟨_, _, rfl⟩

theorem runEmpty_missing (host : Host) {outDir : String} (hout : c.outDir = some outDir)
    (he : existing? files outDir = none) :
    ∃ events conclusion, c.runEmpty host files = c.finished [] (host.diagnostics ++ [Config.nothingToGenerate]) events
      conclusion ⟨[], none, files⟩ := by
  unfold Config.runEmpty
  rw [hout, Option.bind_some, he]
  exact ⟨_, _, rfl⟩

/-- Where the directory is not there, there is nothing to write or to remove. -/
theorem converged_of_missing (hdir : files.hasDirectory d.dir = false) (diagnostics : List Diagnostic) :
    Converged d [] files ⟨[], [], diagnostics⟩ files where
  written := rfl
  sources path := by rw [sources_eq_nil hdir]
  contents unit plan hl := by cases hl
  sorted := .nil
  distinct := .nil
  removed path := by
    rw [sources_eq_nil hdir]
    simp
  untouched q _ := Or.inl rfl

/-- Without builders to keep, a directory is swept once and for all. -/
theorem swept_of_nothing (hat : d.OpensAt files place) {removed : List String} (diagnostics : List Diagnostic)
    (hr : (d.removeStale [] files).result = .ok removed) :
    let after := (d.removeStale [] files).files
    Converged d [] files ⟨[], removed, diagnostics⟩ after ∧ d.OpensAt after place ∧
      d.removeStale [] after = ⟨[], none, after⟩ ∧ ∀ q, files.get? q = none → after.get? q = none := by
  intro after
  have hn : SourceNames (([] : List Outcome).filterMap Outcome.plan?) := by
    intro plan hm
    cases hm
  have he := Emission.nil d files
  have hs : d.Swept place (writtenPaths d []) files removed after := removeStale_swept hat (allNamed_written hat hn he) hr
  have hat' := hat.congr hs.directories
  exact ⟨converged_of_swept hat hn he hs (.refl files) diagnostics, hat',
    removeStale_nothing hat' (allNamed_written hat hn he) fun path => (mem_sources_after hat hn he hs path).mp,
    fun q => hs.get?_eq_none⟩

theorem runEmpty_converges {outDir : String} (hout : c.outDir = some outDir)
    (hok : (c.runEmpty host files).result = .ok report) :
    let d : BuilderDirectory := ⟨FilePath.join outDir directoryName⟩
    let after := (c.runEmpty host files).files
    Converged d [] files report after ∧ (c.runEmpty host after).result = .ok { report with removed := [] } ∧
      (c.runEmpty host after).files = after ∧ report.written = [] ∧
      (∀ q, files.get? q = none → after.get? q = none) ∧ (files.hasDirectory d.dir = false → after = files) := by
  intro d after
  cases hex : existing? files outDir with
  | none =>
    obtain ⟨events, conclusion, hrun⟩ := runEmpty_missing host hout hex
    have hafter : after = files := (congrArg Run.files hrun).trans (files_finished ..)
    have hdir : files.hasDirectory d.dir = false := by
      cases hd : files.hasDirectory d.dir with
      | false => rfl
      | true => simp [existing?, d, hd] at hex
    have hagain := finished_again c [] (host.diagnostics ++ [Config.nothingToGenerate]) events conclusion
      (Eq.refl (Removal.mk [] none files))
    rw [← hrun] at hagain
    cases hok.symm.trans hagain.1
    rw [hafter]
    exact ⟨converged_of_missing hdir _, hagain.1, hagain.2, rfl, fun _ h => h, fun _ => rfl⟩
  | some d' =>
    obtain ⟨rfl, place, hat⟩ := existing?_eq_some hex
    obtain ⟨events, conclusion, hrun⟩ := runEmpty_existing host hout hex
    have hafter : after = (d.removeStale [] files).files := (congrArg Run.files hrun).trans (files_finished ..)
    rw [hrun] at hok
    obtain ⟨removed, hr, rfl⟩ := exists_of_finished hok
    obtain ⟨hconverged, hat', hnothing, hnew⟩ := swept_of_nothing hat (host.diagnostics ++ [Config.nothingToGenerate]) hr
    rw [← hafter] at hconverged hat' hnothing hnew
    obtain ⟨events', conclusion', hrun'⟩ := runEmpty_existing host hout (existing?_of_opensAt (d := d) rfl hat')
    have hagain := finished_again c [] (host.diagnostics ++ [Config.nothingToGenerate]) events' conclusion' hnothing
    rw [← hrun'] at hagain
    refine ⟨hconverged, hagain.1, hagain.2, rfl, hnew, fun hd => ?_⟩
    rw [hasDirectory_of_opensAt hat] at hd
    cases hd

/-! ## The theorem -/

theorem route_of_no_directives (h : host.directives = []) : host.route = [] := by
  unfold Host.route Host.routed
  rw [h]
  rfl

theorem runOn_of_directives (hne : host.directives ≠ []) {outDir : String} (hout : c.outDir = some outDir)
    {prepared : FileTree} (hp : prepare files outDir = (.ok d, prepared)) :
    c.runOn host files = c.runInto host d prepared := by
  unfold Config.runOn
  rw [if_neg (by simpa using hne), hout]
  simp only [hp]

/-- A pass ends well if the directory can be made and every source file in it is a file. -/
theorem exists_runOn_ok (c : Config) (host : Host) (files : FileTree) {outDir : String} (hout : c.outDir = some outDir)
    (hne : host.directives ≠ []) (hunits : ∀ plan ∈ host.plans, '/' ∉ plan.unit.toList)
    (hprepared : (prepare files outDir).1 = .ok d)
    (hf : ∀ path ∈ d.sources (prepare files outDir).2 ((prepare files outDir).2.locate d.dir),
      holdsFile (prepare files outDir).2 path = true) :
    ∃ report, (c.runOn host files).result = .ok report := by
  have hp : prepare files outDir = (.ok d, (prepare files outDir).2) := by rw [← hprepared]
  obtain ⟨-, -, ⟨place, hat⟩, -⟩ := prepare_eq_ok hp
  rw [hat.located] at hf
  rw [runOn_of_directives hne hout hp]
  exact exists_runInto_ok c hat (fun plan hm => ⟨hunits plan hm, Host.unit_ne_empty hm⟩) hf

theorem runOn_converges (c : Config) (host : Host) (files : FileTree) {outDir : String} {report : PassReport}
    (hout : c.outDir = some outDir) (hok : (c.runOn host files).result = .ok report)
    (hunits : ∀ plan ∈ host.plans, '/' ∉ plan.unit.toList) :
    let d : BuilderDirectory := ⟨FilePath.join outDir directoryName⟩
    let after := (c.runOn host files).files
    Converged d (host.generate d.emitter (prepare files outDir).2).emitted files report after ∧
      ((c.runOn host after).result = .ok { report with removed := [] } ∧ (c.runOn host after).files = after) ∧
      (host.directives = [] → report.written = [] ∧ (∀ q, files.get? q = none → after.get? q = none) ∧
        (files.hasDirectory d.dir = false → after = files)) := by
  intro d after
  have hn : SourceNames host.plans := fun plan hm => ⟨hunits plan hm, Host.unit_ne_empty hm⟩
  by_cases hempty : host.directives = []
  · have hrun : ∀ tree, c.runOn host tree = c.runEmpty host tree := by
      intro tree
      unfold Config.runOn
      rw [hempty]
      rfl
    have hemitted : (host.generate d.emitter (prepare files outDir).2).emitted = [] := by
      unfold Host.generate
      rw [route_of_no_directives hempty]
      rfl
    have hafter : after = (c.runEmpty host files).files := congrArg Run.files (hrun files)
    rw [hrun] at hok
    obtain ⟨hconv, hresult, hfiles, hwritten, hnone, hmissing⟩ := runEmpty_converges hout hok
    rw [hemitted, hrun, hafter]
    exact ⟨hconv, ⟨hresult, hfiles⟩, fun _ => ⟨hwritten, hnone, hmissing⟩⟩
  · cases hp : prepare files outDir with
    | mk made prepared =>
    cases made with
    | error e =>
      unfold Config.runOn at hok
      rw [if_neg (by simpa using hempty), hout] at hok
      simp only [hp] at hok
      cases hok
    | ok d' =>
      obtain ⟨rfl, hgrown, ⟨place, hat⟩, hagain⟩ := prepare_eq_ok hp
      have hafter : after = (c.runInto host d prepared).files := congrArg Run.files (runOn_of_directives hempty hout hp)
      rw [runOn_of_directives hempty hout hp] at hok
      obtain ⟨hconv, hdirs, hresult, hfiles⟩ := runInto_converges hat hn hgrown hok
      rw [hafter, runOn_of_directives hempty hout (hagain _ hdirs)]
      exact ⟨hconv, ⟨hresult, hfiles⟩, fun h => absurd h hempty⟩

end Runs

/-! ### A pass in which two directives share a unit -/

/-- A struct of two modules that both ask for `PairBuilder`. -/
def pairs : Host :=
  let pair (segments : List String) : DeclaredType :=
    ⟨"Pair", ⟨0, segments⟩, .everywhere, none, none, .named, [], ⟨"src/lib.rs", 1, 1⟩⟩
  let entry (path : String) (type : DeclaredType) : HostEntry := ⟨path, type, [type.memberwise], []⟩
  .ofEntries
    [⟨.type "Pair", .crateRoot 0, ⟨"src/lib.rs", 1, 1⟩⟩,
     ⟨.external "other::Pair" none false .everywhere, .crateRoot 0, ⟨"src/lib.rs", 3, 1⟩⟩]
    [entry "Pair" (pair []), entry "other::Pair" (pair ["other"])]

/-- A builder of one of them that is out of date, one that nothing asks for, and a file that is no source. -/
def staleFiles : FileTree :=
  ((FileTree.empty.withFile "out/buildergen/PairBuilder.rs" (.text "old")).withFile
    "out/buildergen/Gone.rs" (.text "old")).withFile "out/buildergen/notes.txt" (.text "kept")

theorem runOn_converges_on_pairs :
    let c := Config.empty.withOutDir "out"
    let d : BuilderDirectory := ⟨"out/buildergen"⟩
    ∃ report, (c.runOn pairs staleFiles).result = .ok report ∧ pairs.plans.length = 2 ∧
      Converged d (pairs.generate d.emitter (prepare staleFiles "out").2).emitted staleFiles report
        (c.runOn pairs staleFiles).files := by
  intro c d
  have hunits : ∀ plan ∈ pairs.plans, '/' ∉ plan.unit.toList := by decide +kernel
  have hout : c.outDir = some "out" := rfl
  obtain ⟨report, hok⟩ := exists_runOn_ok (d := d) c pairs staleFiles hout (by decide +kernel) hunits
    (by decide +kernel) (by decide +kernel)
  exact ⟨report, hok, by decide +kernel, (runOn_converges c pairs staleFiles hout hok hunits).1⟩

end BuilderSynthesis
