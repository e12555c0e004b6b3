/-
  BuilderSynthesis.Proofs.PassFrame — what a pass may touch.

  However a pass ends, each place of the file tree is as before unless the pass had business there
  (`Changed`): it was missing on the way to the builder directory, or it is the file of a planned
  builder in that directory, or that of a source which lay there. Each stage has its own share of
  that: creating directories (`createAlong_touches`), storing builders (`get?_emission`), and
  removing what is stale, also when it stops midway (`changed_of_emission`).

  A pass that finds no dependency, no source root or no output directory changes nothing and prints
  nothing. The stages are put together in `run_touches`.
-/

import BuilderSynthesis.Proofs.Convergence

namespace BuilderSynthesis

/-- A name is that of a source wherever it lies. -/
theorem FilePath.isSource_join_eq (dir : String) {name : String} (hn : IsPart name) :
    isSource (join dir name) = isSource name := by
  have hself : join "" name = name := by
    unfold join
    split
    · rfl
    · exact String.empty_append
  rw [isSource_join dir hn, ← isSource_join "" hn, hself]

namespace FileTree

variable {tree next : FileTree} {place q : Place}

/-! ## Creating directories -/

/-- The places that a path leads over, each from the one before. -/
def waypoints : Place → List PathComponent → List Place
  | _, [] => []
  | place, component :: rest =>
    match step? place component with
    | none => []
    | some below => below :: waypoints below rest

theorem withDirectoryAt?_touches (h : tree.withDirectoryAt? place = some next) (q : Place) :
    next.get? q = tree.get? q ∨ tree.get? q = none ∧ next.get? q = some .directory ∧ q = place := by
  unfold withDirectoryAt? at h
  split at h
  · cases h
    exact .inl rfl
  · cases h
  · rename_i hn
    rw [get?_of_put? h]
    split
    · rename_i hq
      exact .inr ⟨hq ▸ hn, rfl, hq⟩
    · exact .inl rfl

/-- Directories are created on the way only, and where nothing is. -/
theorem createAlong_touches (tree : FileTree) (place : Place) (components : List PathComponent) (q : Place) :
    (tree.createAlong place components).1.get? q = tree.get? q ∨
      tree.get? q = none ∧ (tree.createAlong place components).1.get? q = some .directory ∧
        q ∈ waypoints place components := by
  induction components generalizing tree place with
  | nil => exact .inl rfl
  | cons component rest ih =>
    unfold createAlong
    split
    · exact .inl rfl
    · rename_i below hstep
      have hway : waypoints place (component :: rest) = below :: waypoints below rest := by rw [waypoints, hstep]
      rw [hway]
      split
      · rename_i made hm
        rcases ih made below with hrest | ⟨hmissing, hmade, hway⟩
        · rcases withDirectoryAt?_touches hm q with hfirst | ⟨hmissing, hdirectory, rfl⟩
          · exact .inl (hrest.trans hfirst)
          · exact .inr ⟨hmissing, hrest.trans hdirectory, List.mem_cons_self⟩
        · refine .inr ⟨?_, hmade, List.mem_cons_of_mem _ hway⟩
          rcases withDirectoryAt?_touches hm q with hfirst | ⟨hmissing', -, -⟩
          · exact hfirst ▸ hmissing
          · exact hmissing'
      · exact .inl rfl

end FileTree

namespace BuilderDirectory

variable {d : BuilderDirectory} {files tree next : FileTree} {place : Place}

/-! ## Removing -/

/-- Whether or not the removal went through, it cleared the files that it says it removed. -/
theorem removeAll_cleared_removed {paths removed : List String} {failed : Option String}
    (h : removeAll tree paths = (removed, failed, next)) : removed <+: paths ∧ Cleared tree removed next := by
  induction paths generalizing tree removed failed with
  | nil =>
    cases h
    exact ⟨List.prefix_rfl, .nil _⟩
  | cons path rest ih =>
    unfold removeAll at h
    split at h
    · cases h
      exact ⟨List.nil_prefix, .nil _⟩
    · rename_i middle hm
      generalize hr : removeAll middle rest = others at h
      obtain ⟨removed', failed', files⟩ := others
      cases h
      obtain ⟨hbegins, hcleared⟩ := ih hr
      exact ⟨List.cons_prefix_cons.mpr ⟨rfl, hbegins⟩, .cons hm hcleared⟩

/-- A removal of stale files clears files of the directory that are not to be kept, however it ends. -/
theorem exists_cleared_removeStale {keep : List String} (hat : d.OpensAt tree place) (hk : d.AllNamed keep) :
    ∃ removed, (∀ path ∈ removed, path ∈ d.sources tree (some place) ∧ path ∉ keep) ∧
      Cleared tree removed (d.removeStale keep tree).files := by
  rw [removeStale_eq hat]
  generalize hr : removeAll tree (d.stale tree place keep) = run
  obtain ⟨removed, failed, next⟩ := run
  obtain ⟨hbegins, hcleared⟩ := removeAll_cleared_removed hr
  exact ⟨removed, fun path hp => (mem_stale_iff hk).mp (hbegins.subset hp), hcleared⟩

/-! ## Changes -/

/-- What a pass did to a place that it changed, given the path of the builder directory and the plans. -/
inductive Changed (dir : String) (plans : List BuilderPlan) (before after : FileTree) (q : Place) : Prop where
  /-- It was missing on the way to the directory, and is a directory now. -/
  | created (missing : before.get? q = none) (directory : after.get? q = some .directory)
      (onTheWay : q ∈ FileTree.waypoints [] (FilePath.components dir))
  /-- It has the text of a plan, under the name of its unit in the directory. -/
  | written {place : Place} {plan : BuilderPlan} {source : String} (inside : after.locate dir = some place)
      (planned : plan ∈ plans) (rendered : plan.source = .ok source) (named : q = place ++ [plan.unit ++ ".rs"])
      (text : after.get? q = some (.file (.text source)))
  /-- It was a source file in the directory, and is gone. -/
  | removed {place : Place} {name : String} {content : Content} (inside : after.locate dir = some place)
      (named : q = place ++ [name]) (isSource : FilePath.isSource name = true)
      (file : before.get? q = some (.file content)) (gone : after.get? q = none)

variable {plans : List BuilderPlan} {before prepared stored after : FileTree} {q : Place}

/-- A change of the tree with the new directories is one of the tree before them. -/
theorem Changed.of_grown {dir : String} (hgrown : FileTree.Grown before prepared)
    (h : Changed dir plans prepared after q) : Changed dir plans before after q := by
  cases h with
  | created missing directory onTheWay =>
    refine .created ?_ directory onTheWay
    cases hbefore : before.get? q with
    | none => rfl
    | some e => exact (hgrown.keeps hbefore).symm.trans missing
  | written inside planned rendered named text => exact .written inside planned rendered named text
  | removed inside named isSource file gone => exact .removed inside named isSource (hgrown.file file) gone

theorem Changed.mono {dir : String} {more : List BuilderPlan} (hsub : plans ⊆ more)
    (h : Changed dir plans before after q) : Changed dir more before after q := by
  cases h with
  | created missing directory onTheWay => exact .created missing directory onTheWay
  | written inside planned rendered named text => exact .written inside (hsub planned) rendered named text
  | removed inside named isSource file gone => exact .removed inside named isSource file gone

section Stored

variable {outcomes : List Outcome} {attempts : List Attempt} (hat : d.OpensAt prepared place)
  (hn : SourceNames (outcomes.filterMap Outcome.plan?)) (he : Emission d prepared outcomes attempts stored)

include hat hn he

/-- Storing builders touches the files of planned units in the directory, which then have the text of
one of their plans. -/
theorem get?_emission (q : Place) : stored.get? q = prepared.get? q ∨
    ∃ plan ∈ attempts.filterMap Attempt.emitted?, ∃ source, plan.source = .ok source ∧
      q = place ++ [plan.fileName] ∧ stored.get? q = some (.file (.text source)) := by
  by_cases hq : ∃ plan ∈ attempts.filterMap Attempt.emitted?, q = place ++ [plan.fileName]
  · obtain ⟨plan, hm, rfl⟩ := hq
    cases hl : lastPlan? (attempts.filterMap Attempt.emitted?) (·.unit == plan.unit) with
    | none =>
      rw [lastPlan?_eq_none_iff] at hl
      exact absurd (beq_self_eq_true _) (hl plan hm)
    | some last =>
      obtain ⟨hu, source, hsource, hg⟩ := get?_stored_unit hat hn he hl
      rw [← BuilderPlan.fileName_inj.mpr hu]
      exact .inr ⟨last, (mem_of_lastPlan? hl).1, source, hsource, rfl, hg⟩
  · exact .inl (get?_not_stored hat hn he fun plan hm h => hq ⟨plan, hm, h⟩)

/-- Storing builders and then removing what is stale, however that ends. -/
theorem changed_of_emission (q : Place) :
    (d.removeStale (writtenPaths d attempts) stored).files.get? q = prepared.get? q ∨
      Changed d.dir (outcomes.filterMap Outcome.plan?) prepared
        (d.removeStale (writtenPaths d attempts) stored).files q := by
  have hat' := hat.congr he.directories
  obtain ⟨removed, hremoved, hcleared⟩ := exists_cleared_removeStale hat' (allNamed_written hat hn he)
  generalize (d.removeStale (writtenPaths d attempts) stored).files = after at hcleared
  have hinside : after.locate d.dir = some place := (hat'.congr hcleared.directories).located
  by_cases hq : ∃ path ∈ removed, stored.locate path = some q
  · obtain ⟨path, hm, hl⟩ := hq
    obtain ⟨hsources, hkept⟩ := hremoved path hm
    obtain ⟨name, ⟨e, hg⟩, rfl, hsource⟩ := mem_sources_iff.mp hsources
    have hpart := isPart_of_get? hg
    have hnamed : q = place ++ [name] := by
      rw [FileTree.locate_join hat'.located hat'.directory hpart] at hl
      split at hl
      · exact (Option.some.inj hl).symm
      · cases hl
    obtain ⟨q', content, hl', hfile⟩ := hcleared.files _ hm
    obtain rfl : q = q' := Option.some.inj (hl.symm.trans hl')
    rw [hnamed, get?_not_written hat hn he hkept, ← hnamed] at hfile
    rw [FilePath.isSource_join_eq d.dir hpart] at hsource
    exact .inr (.removed hinside hnamed hsource hfile (hcleared.gone _ hm q hl))
  · have hkept : after.get? q = stored.get? q := hcleared.kept q fun path hm hl => hq ⟨path, hm, hl⟩
    rw [hkept]
    rcases get?_emission hat hn he q with hsame | ⟨plan, hm, source, hsource, hnamed, htext⟩
    · exact .inl hsame
    · rw [he.emitted] at hm
      exact .inr (.written hinside (List.mem_filter.mp hm).1 hsource hnamed (hkept.trans htext))

end Stored

/-! ## The stages of a pass -/

variable {c : Config} {host : Host} {outDir : String}

/-- Whether or not the directory could be made, only what was missing on the way to it was. -/
theorem prepare_touches (files : FileTree) (outDir : String) (q : Place) :
    (prepare files outDir).2.get? q = files.get? q ∨
      files.get? q = none ∧ (prepare files outDir).2.get? q = some .directory ∧
        q ∈ FileTree.waypoints [] (FilePath.components (FilePath.join outDir directoryName)) := by
  have hfiles : (prepare files outDir).2 = (files.createDirectories (FilePath.join outDir directoryName)).1 := rfl
  rw [hfiles]
  unfold FileTree.createDirectories
  split
  · exact FileTree.createAlong_touches ..
  · exact .inl rfl

theorem runInto_touches (c : Config) (hat : d.OpensAt files place) (hn : SourceNames host.plans) (q : Place) :
    (c.runInto host d files).files.get? q = files.get? q ∨
      Changed d.dir host.plans files (c.runInto host d files).files q := by
  have he := emission_generate host d files
  have hrun : (c.runInto host d files).files =
      (d.removeStale (writtenPaths d (host.generate d.emitter files).attempts)
        (host.generate d.emitter files).state).files := by
    rw [← written_generate]
    exact files_finished ..
  rw [hrun]
  exact changed_of_emission hat hn he q

theorem runEmpty_touches (c : Config) (host : Host) (files : FileTree) (q : Place) :
    (c.runEmpty host files).files.get? q = files.get? q ∨ ∃ outDir, c.outDir = some outDir ∧
      Changed (FilePath.join outDir directoryName) host.plans files (c.runEmpty host files).files q := by
  unfold Config.runEmpty
  rw [files_finished]
  split
  · rename_i d hd
    obtain ⟨outDir, hout, hexisting⟩ := Option.bind_eq_some_iff.mp hd
    obtain ⟨rfl, place, hat⟩ := existing?_eq_some hexisting
    have hn : SourceNames (([] : List Outcome).filterMap Outcome.plan?) := nofun
    rcases changed_of_emission hat hn (.nil _ files) q with hsame | hchanged
    · exact .inl hsame
    · exact .inr ⟨outDir, hout, hchanged.mono (List.nil_subset _)⟩
  · exact .inl rfl

/-- A pass over a host changes what it has business with, and nothing else. -/
theorem runOn_touches (c : Config) (host : Host) (files : FileTree)
    (hunits : ∀ plan ∈ host.plans, '/' ∉ plan.unit.toList) (q : Place) :
    (c.runOn host files).files.get? q = files.get? q ∨ ∃ outDir, c.outDir = some outDir ∧
      Changed (FilePath.join outDir directoryName) host.plans files (c.runOn host files).files q := by
  unfold Config.runOn
  split
  · exact runEmpty_touches c host files q
  · split
    · exact .inl rfl
    · rename_i outDir hout
      have hprepared := prepare_touches files outDir q
      split
      · rename_i error prepared hp
        rw [hp] at hprepared
        refine hprepared.imp_right fun ⟨hmissing, hmade, hway⟩ => ?_
        exact ⟨outDir, hout, .created hmissing hmade hway⟩
      · rename_i d prepared hp
        rw [hp] at hprepared
        obtain ⟨rfl, hgrown, ⟨place, hat⟩, -⟩ := prepare_eq_ok hp
        have hn : SourceNames host.plans := fun plan hm => ⟨hunits plan hm, Host.unit_ne_empty hm⟩
        rcases runInto_touches c hat hn q with hsame | hchanged
        · rw [hsame]
          refine hprepared.imp_right fun ⟨hmissing, hmade, hway⟩ => ?_
          exact ⟨outDir, hout, .created hmissing (hsame.trans hmade) hway⟩
        · exact .inr ⟨outDir, hout, hchanged.of_grown hgrown⟩

/-! ## Errors of a pass -/

theorem error_of_finished {written : List String} {diagnostics : List Diagnostic} {events : List Event}
    {conclusion : Nat → List Event} {removal : Removal} {error : PassError}
    (h : (c.finished written diagnostics events conclusion removal).result = .error error) :
    ∃ path, error = .staleBuilders path := by
  rw [result_finished] at h
  unfold Removal.result at h
  split at h
  · rename_i path hpath
    exact ⟨path, (Except.error.inj h).symm⟩
  · cases h

theorem error_of_prepare {files prepared : FileTree} {error : PassError}
    (h : prepare files outDir = (.error error, prepared)) : ∃ path, error = .outputDirectory path := by
  have hresult := congrArg Prod.fst h
  unfold prepare at hresult
  simp only at hresult
  split at hresult
  · cases hresult
  · exact ⟨_, (Except.error.inj hresult).symm⟩

/-- A pass over a host that fails lacks an output directory, and then it has done nothing, or it failed at
that directory. -/
theorem error_of_runOn {files : FileTree} {error : PassError} (h : (c.runOn host files).result = .error error) :
    ((c.runOn host files).files = files ∧ (c.runOn host files).printed = []) ∨
      (∃ path, error = .outputDirectory path) ∨ ∃ path, error = .staleBuilders path := by
  unfold Config.runOn at h ⊢
  by_cases hempty : host.directives.isEmpty = true
  · rw [if_pos hempty] at h
    exact .inr (.inr (error_of_finished h))
  · rw [if_neg hempty] at h ⊢
    cases hout : c.outDir with
    | none => exact .inl ⟨rfl, rfl⟩
    | some outDir =>
      rw [hout] at h
      simp only at h
      split at h
      · rename_i found prepared hp
        obtain rfl := Except.error.inj h
        exact .inr (.inl (error_of_prepare hp))
      · exact .inr (.inr (error_of_finished h))

end BuilderDirectory

open BuilderDirectory

namespace Config

/-! ## Whole passes -/

/-- The plans of a pass, if it comes to planning. -/
def planned (c : Config) (files : FileTree) : List BuilderPlan :=
  let (dependencies, missing) := dependencyRoots files c.manifestDirectory c.dependencies
  match missing with
  | some _ => []
  | none =>
    let loaded := SourceTree.load files (c.roots ++ dependencies)
    match loaded.unreadable with
    | some _ => []
    | none => loaded.tree.host.plans

/-- A pass fails before it has looked at its sources, or goes over the host that they make. -/
theorem run_cases (c : Config) (files : FileTree) :
    (∃ error events, c.run files = .failed error files events) ∨
      ∃ host : Host, c.planned files = host.plans ∧ (c.run files).files = (c.runOn host files).files ∧
        (c.run files).result = (c.runOn host files).result ∧
        ((c.run files).result.isOk = false → (c.run files).printed = (c.runOn host files).printed) := by
  unfold run planned
  rcases dependencyRoots files c.manifestDirectory c.dependencies with ⟨dependencies, missing⟩
  cases missing with
  | some name => exact .inl ⟨_, _, rfl⟩
  | none =>
    simp only
    cases (SourceTree.load files (c.roots ++ dependencies)).unreadable with
    | some root => exact .inl ⟨_, _, rfl⟩
    | none =>
      refine .inr ⟨_, rfl, rfl, rfl, fun hfails => ?_⟩
      rw [if_neg (Bool.eq_false_iff.mp hfails), List.append_nil]

/-- However a pass ends, it changes nothing but what it has business with. One that lacks an output directory, a
source root or a dependency changes nothing and prints nothing. -/
theorem run_touches (c : Config) (files : FileTree) (hunits : ∀ plan ∈ c.planned files, '/' ∉ plan.unit.toList) :
    (∀ q, (c.run files).files.get? q = files.get? q ∨ ∃ outDir, c.outDir = some outDir ∧
      Changed (FilePath.join outDir directoryName) (c.planned files) files (c.run files).files q) ∧
    ∀ error, (c.run files).result = .error error →
      (error = .missingOutputDirectory ∨ (∃ path, error = .sourceRoot path) ∨ ∃ name, error = .dependency name) →
      (c.run files).files = files ∧ (c.run files).printed = [] := by
  rcases run_cases c files with ⟨error, events, hrun⟩ | ⟨host, hplans, hfiles, hresult, hprinted⟩
  · rw [hrun]
    exact ⟨fun q => .inl rfl, fun _ _ _ => ⟨rfl, rfl⟩⟩
  · rw [hplans] at hunits ⊢
    rw [hfiles]
    refine ⟨runOn_touches c host files hunits, fun error he hearly => ?_⟩
    rw [hprinted (by rw [he]; rfl)]
    rcases error_of_runOn (hresult ▸ he) with hnothing | ⟨path, rfl⟩ | ⟨path, rfl⟩
    · exact hnothing
    · rcases hearly with h | ⟨_, h⟩ | ⟨_, h⟩ <;> cases h
    · rcases hearly with h | ⟨_, h⟩ | ⟨_, h⟩ <;> cases h

/-! ### A pass over one struct -/

/-- A struct that asks for a builder, and a builder of an earlier pass. -/
def pairFiles : FileTree :=
  (FileTree.empty.withFile "src/lib.rs" (.text "#[derive(Builder)] struct Pair \x7b a: u8 \x7d")).withFile
    "out/buildergen/Gone.rs" (.text "old")

def pairConfig : Config := (empty.withOutDir "out").withSourceRoot "src"

set_option maxRecDepth 100000 in
theorem planned_pairs : (pairConfig.planned pairFiles).map BuilderPlan.unit = ["PairBuilder"] := by decide +kernel

theorem run_touches_on_pairs :
    (pairConfig.planned pairFiles).map BuilderPlan.unit = ["PairBuilder"] ∧
      ∀ q, (pairConfig.run pairFiles).files.get? q = pairFiles.get? q ∨
        Changed "out/buildergen" (pairConfig.planned pairFiles) pairFiles (pairConfig.run pairFiles).files q := by
  have hunits : ∀ plan ∈ pairConfig.planned pairFiles, '/' ∉ plan.unit.toList := by
    intro plan hplan
    have hunit : plan.unit ∈ ["PairBuilder"] := planned_pairs ▸ List.mem_map_of_mem hplan
    rw [List.mem_singleton.mp hunit]
    decide
  refine ⟨planned_pairs, fun q => ((run_touches pairConfig pairFiles hunits).1 q).imp_right ?_⟩
  rintro ⟨outDir, hout, hchanged⟩
  obtain rfl : "out" = outDir := Option.some.inj hout
  exact hchanged

end Config

end BuilderSynthesis
