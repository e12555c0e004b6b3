/-
  BuilderSynthesis.Proofs.SeparateFiles — files are scanned apart from one another.

  What is found in sources is what is found in each of them, one after the other
  (`findings_append`), so everything that is known of a tree is put together in the same way. A file
  that does not parse leaves its path and one error (`findings_of_unreadable`). Lookups and routing
  read declarations and directives only (`route_congr`), so they give the same with such a file and
  without it. Both are put together in `sources_are_scanned_apart`.
-/

import BuilderSynthesis.Proofs.Planning
import BuilderSynthesis.Proofs.Scanned

namespace BuilderSynthesis

namespace SourceTree

variable {tree other : SourceTree}

/-! ## Trees with the same declarations -/

/-- Two trees of the same roots declare the same and ask for the same builders. Their files and what was
reported in them may differ. -/
structure Agree (tree other : SourceTree) : Prop where
  roots : tree.roots = other.roots
  types : tree.types = other.types
  directives : tree.directives = other.directives
  blocks : tree.blocks = other.blocks

theorem Agree.findType (h : tree.Agree other) : tree.findType = other.findType := by
  funext path user
  unfold SourceTree.findType moduleMatches rootName?
  rw [h.types, h.roots]

theorem Agree.blocksOf (h : tree.Agree other) : tree.blocksOf = other.blocksOf := by
  funext t
  unfold SourceTree.blocksOf
  rw [h.blocks, h.types]

theorem Agree.constructors (h : tree.Agree other) : tree.constructors = other.constructors := by
  funext t
  unfold SourceTree.constructors
  rw [h.blocksOf]

theorem Agree.accessors (h : tree.Agree other) : tree.accessors = other.accessors := by
  funext t user
  unfold SourceTree.accessors
  rw [h.blocksOf]

/-- Routing does not look at what was reported. -/
theorem route_congr (h : tree.Agree other) : tree.host.route = other.host.route := by
  have hhost : tree.host = { other.host with diagnostics := tree.diagnostics } := by
    unfold host
    rw [h.directives, h.findType, h.constructors, h.accessors]
  rw [hhost]
  rfl

/-! ## Lists of sources -/

variable (first second : List (String × String))

theorem findings_append :
    (ofSources (first ++ second)).findings = (ofSources first).findings ++ (ofSources second).findings :=
  List.flatMap_append

/-- The error for a file that does not parse. -/
def unreadable (file : String) (problem : Syntax.Problem) : Diagnostic :=
  .error ("cannot parse source file: " ++ problem.message) (Scan.locate file problem.position)

variable {file text : String} {problem : Syntax.Problem}

theorem findings_of_unreadable (h : Syntax.readFile text = .error problem) :
    (ofSources [(file, text)]).findings = [.problem (unreadable file problem)] := by
  have hfile : Scan.fileFindings 0 "" file text = [.problem (unreadable file problem)] := by
    unfold Scan.fileFindings Scan.findingsIn
    rw [h]
    rfl
  exact (List.flatMap_singleton ..).trans hfile

/-- All that is found in sources among which a file does not parse. -/
theorem findings_around_unreadable (h : Syntax.readFile text = .error problem) :
    (ofSources (first ++ (file, text) :: second)).findings =
      (ofSources first).findings ++ .problem (unreadable file problem) :: (ofSources second).findings := by
  have hcons : (file, text) :: second = [(file, text)] ++ second := rfl
  rw [hcons, findings_append, findings_append, findings_of_unreadable h]
  rfl

/-- Whatever kind of finding is picked, a file that does not parse adds nothing to it but its error. -/
theorem filterMap_around_unreadable {α : Type} (pick : Finding → Option α) (h : Syntax.readFile text = .error problem)
    (hpick : pick (.problem (unreadable file problem)) = none) :
    (ofSources (first ++ (file, text) :: second)).findings.filterMap pick =
      (ofSources (first ++ second)).findings.filterMap pick := by
  rw [findings_around_unreadable first second h, findings_append, List.filterMap_append, List.filterMap_append,
    List.filterMap_cons_none hpick]

theorem agree_around_unreadable (h : Syntax.readFile text = .error problem) :
    (ofSources (first ++ (file, text) :: second)).Agree (ofSources (first ++ second)) where
  roots := rfl
  types := filterMap_around_unreadable first second Finding.declared? h rfl
  directives := filterMap_around_unreadable first second Finding.directive? h rfl
  blocks := filterMap_around_unreadable first second Finding.block? h rfl

theorem diagnostics_around_unreadable (h : Syntax.readFile text = .error problem) :
    (ofSources (first ++ (file, text) :: second)).diagnostics =
      (ofSources first).diagnostics ++ unreadable file problem :: (ofSources second).diagnostics := by
  unfold diagnostics
  rw [findings_around_unreadable first second h, List.filterMap_append]
  rfl

/-- Two lists of sources scanned together give what they give one after the other. A file that does not
parse adds its path and one error, which is in this file. Nothing that is declared or asked for changes
with it, and so neither do the outcomes. -/
theorem sources_are_scanned_apart (first second : List (String × String)) :
    ((ofSources (first ++ second)).types = (ofSources first).types ++ (ofSources second).types ∧
      (ofSources (first ++ second)).directives = (ofSources first).directives ++ (ofSources second).directives ∧
      (ofSources (first ++ second)).blocks = (ofSources first).blocks ++ (ofSources second).blocks ∧
      (ofSources (first ++ second)).files = (ofSources first).files ++ (ofSources second).files ∧
      (ofSources (first ++ second)).diagnostics = (ofSources first).diagnostics ++ (ofSources second).diagnostics) ∧
    ∀ file text problem, Syntax.readFile text = .error problem →
      let tree := ofSources (first ++ (file, text) :: second)
      (tree.files = (ofSources first).files ++ file :: (ofSources second).files ∧
        tree.diagnostics =
          (ofSources first).diagnostics ++ unreadable file problem :: (ofSources second).diagnostics ∧
        (unreadable file problem).isError = true) ∧
      tree.Agree (ofSources (first ++ second)) ∧ tree.host.route = (ofSources (first ++ second)).host.route := by
  have happend : ∀ {α : Type} (pick : Finding → Option α), (ofSources (first ++ second)).findings.filterMap pick =
      (ofSources first).findings.filterMap pick ++ (ofSources second).findings.filterMap pick := by
    intro α pick
    rw [findings_append, List.filterMap_append]
  refine ⟨⟨happend _, happend _, happend _, List.map_append, happend _⟩, fun file text problem h => ?_⟩
  have hagree : (ofSources (first ++ (file, text) :: second)).Agree (ofSources (first ++ second)) :=
    agree_around_unreadable first second h
  exact ⟨⟨List.map_append, diagnostics_around_unreadable first second h, rfl⟩, hagree, route_congr hagree⟩

/-- A struct without a name, which is no item. -/
def nameless : String := "struct ;"

theorem readFile_ofList (cs : List Char) : Syntax.readFile (String.ofList cs) = Syntax.readFileChars cs :=
  congrArg Syntax.readFileChars String.toList_ofList

theorem nameless_fails : (Syntax.readFile nameless).isOk = false :=
  (congrArg Except.isOk (readFile_ofList _)).trans (by decide +kernel)

theorem exists_problem_of_nameless : ∃ problem, Syntax.readFile nameless = .error problem := by
  have hfails := nameless_fails
  cases h : Syntax.readFile nameless with
  | error problem => exact ⟨problem, rfl⟩
  | ok items =>
    rw [h] at hfails
    cases hfails

theorem sources_are_scanned_apart_from_a_nameless_struct :
    ∃ problem, Syntax.readFile nameless = .error problem ∧
      (ofSources ([("a.rs", "struct A { x: u8 }")] ++ ("b.rs", nameless) :: [("c.rs", "struct C;")])).files =
        ["a.rs", "b.rs", "c.rs"] ∧
      (ofSources ([("a.rs", "struct A { x: u8 }")] ++ ("b.rs", nameless) :: [("c.rs", "struct C;")])).Agree
        (ofSources ([("a.rs", "struct A { x: u8 }")] ++ [("c.rs", "struct C;")])) := by
  obtain ⟨problem, h⟩ := exists_problem_of_nameless
  obtain ⟨⟨hfiles, -⟩, hagree, -⟩ :=
    (sources_are_scanned_apart [("a.rs", "struct A { x: u8 }")] [("c.rs", "struct C;")]).2 "b.rs" nameless problem h
  exact ⟨problem, h, hfiles, hagree⟩

end SourceTree

end BuilderSynthesis
