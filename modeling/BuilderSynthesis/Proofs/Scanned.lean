/-
  BuilderSynthesis.Proofs.Scanned — what holds of the findings of every scan.

  A directive for a struct is found together with the struct it stands on, in the same module and
  under its name, and the constructors of a block of functions are functions (`Coherent`). This is
  shown for one item by itself and carried through the modules of a file, the files of a tree and the
  roots of a scan (`coherent_of_isScanned`). Whatever is found, apart from reports on the scan itself, is
  found in the items of one file that has been read (`exists_file_of_mem`).
-/

import BuilderSynthesis.Proofs.Items
import BuilderSynthesis.Scan.Load

namespace BuilderSynthesis

open Syntax

/-! ## Findings -/

/-- A directive for a struct stands beside the struct, which has a name, and what a block of functions
gives as constructors are functions. -/
structure Coherent (findings : List Finding) : Prop where
  typed : ∀ {d : Directive} {name : String}, .directive d ∈ findings → d.kind = .type name →
    IsName name ∧ ∃ t, .declared t ∈ findings ∧ t.name = name ∧ t.module = d.module
  called : ∀ {b : FunctionBlock}, .block b ∈ findings → ∀ c ∈ b.constructors, ∃ function, c.kind = .function function

namespace Coherent

theorem nil : Coherent [] where
  typed h := by cases h
  called h := by cases h

theorem append {first second : List Finding} (hf : Coherent first) (hs : Coherent second) :
    Coherent (first ++ second) where
  typed hd hk := by
    rcases List.mem_append.mp hd with hd | hd
    · obtain ⟨hn, t, ht, hname⟩ := hf.typed hd hk
      exact ⟨hn, t, List.mem_append_left _ ht, hname⟩
    · obtain ⟨hn, t, ht, hname⟩ := hs.typed hd hk
      exact ⟨hn, t, List.mem_append_right _ ht, hname⟩
  called hb := by
    rcases List.mem_append.mp hb with hb | hb
    · exact hf.called hb
    · exact hs.called hb

theorem flatMap {α : Type} {findings : α → List Finding} {items : List α} (h : ∀ a ∈ items, Coherent (findings a)) :
    Coherent (items.flatMap findings) := by
  induction items with
  | nil => exact nil
  | cons a rest ih =>
    rw [List.flatMap_cons]
    exact (h a List.mem_cons_self).append (ih fun b hb => h b (List.mem_cons_of_mem _ hb))

/-- Nothing is found that has to go with something else. -/
theorem of_none {findings : List Finding} (hd : ∀ d, .directive d ∈ findings → ∀ name, d.kind ≠ .type name)
    (hb : ∀ b, .block b ∉ findings) : Coherent findings where
  typed h hk := absurd hk (hd _ h _)
  called h := absurd h (hb _)

end Coherent

namespace Scan

variable {file : String} {module : ModulePath}

/-! ## Directives -/

theorem kind_of_external {v : Visibility} {attr : Attribute} {kind : DirectiveKind} (h : external file v attr = .ok kind) :
    ∃ target suffix useConstructors, kind = .external target suffix useConstructors v := by
  unfold external at h
  split at h
  · cases h
  · cases h
  · cases h
    exact ⟨_, _, _, rfl⟩

/-- What an attribute for a type elsewhere comes to. -/
theorem externalFinding_cases (file : String) (module : ModulePath) (v : Visibility) (attr : Attribute) :
    (∃ target suffix useConstructors,
      externalFinding file module v attr = found file module attr (.external target suffix useConstructors v)) ∨
      ∃ problem, externalFinding file module v attr = .problem problem := by
  unfold externalFinding
  cases he : external file v attr with
  | error problem => exact Or.inr ⟨problem, rfl⟩
  | ok kind =>
    obtain ⟨target, suffix, useConstructors, rfl⟩ := kind_of_external he
    exact Or.inl ⟨target, suffix, useConstructors, rfl⟩

/-- A directive on an item is of the item's own kind or for a type elsewhere. -/
theorem directive_of_mem_itemDirectives {v : Visibility} {own : DirectiveKind} {attrs : List Attribute} {d : Directive}
    (h : .directive d ∈ itemDirectives file module v own attrs) :
    d.module = module ∧ (d.kind = own ∨ d.isExternal = true) := by
  obtain ⟨attr, -, ha⟩ := List.mem_filterMap.mp h
  split at ha
  · rcases externalFinding_cases file module v attr with ⟨target, suffix, use, he⟩ | ⟨problem, he⟩
    · rw [he] at ha
      cases ha
      exact ⟨rfl, Or.inr rfl⟩
    · rw [he] at ha
      cases ha
  · split at ha
    · cases ha
      exact ⟨rfl, Or.inl rfl⟩
    · cases ha

theorem itemDirectives_cases {v : Visibility} {own : DirectiveKind} {attrs : List Attribute} {finding : Finding}
    (h : finding ∈ itemDirectives file module v own attrs) :
    (∃ d, finding = .directive d) ∨ ∃ problem, finding = .problem problem := by
  obtain ⟨attr, -, ha⟩ := List.mem_filterMap.mp h
  split at ha
  · rcases externalFinding_cases file module v attr with ⟨target, suffix, use, he⟩ | ⟨problem, he⟩
    · exact Or.inl ⟨_, (Option.some.inj ha).symm.trans he⟩
    · exact Or.inr ⟨problem, (Option.some.inj ha).symm.trans he⟩
  · split at ha
    · exact Or.inl ⟨_, (Option.some.inj ha).symm⟩
    · cases ha

theorem block_not_mem_itemDirectives {v : Visibility} {own : DirectiveKind} {attrs : List Attribute} {b : FunctionBlock} :
    .block b ∉ itemDirectives file module v own attrs := by
  intro h
  rcases itemDirectives_cases h with ⟨_, he⟩ | ⟨_, he⟩
  · cases he
  · cases he

theorem declared_not_mem_itemDirectives {v : Visibility} {own : DirectiveKind} {attrs : List Attribute} {t : DeclaredType} :
    .declared t ∉ itemDirectives file module v own attrs := by
  intro h
  rcases itemDirectives_cases h with ⟨_, he⟩ | ⟨_, he⟩
  · cases he
  · cases he

/-- On an item that is no struct, no directive is for a struct. -/
theorem coherent_itemDirectives {v : Visibility} {item : String} {attrs : List Attribute} :
    Coherent (itemDirectives file module v (.misplaced item) attrs) := by
  refine .of_none (fun d hd name hk => ?_) fun b => block_not_mem_itemDirectives
  rcases (directive_of_mem_itemDirectives hd).2 with ho | ho
  · rw [ho] at hk
    cases hk
  · unfold Directive.isExternal at ho
    rw [hk] at ho
    cases ho

theorem coherent_structFindings {s : StructItem} (hname : IsName s.name) : Coherent (structFindings file module s) := by
  have hdeclared : ∃ t, .declared t ∈ structFindings file module s ∧ t.name = s.name ∧ t.module = module :=
    ⟨_, List.mem_append_right _ (List.mem_singleton.mpr rfl), rfl, rfl⟩
  have hdirectives : ∀ {f : Finding}, f ∈ structFindings file module s →
      f ∈ itemDirectives file module (visibilityOf s.visibility) (.type s.name) s.attributes ∨
        (∃ problem, f = .problem problem) ∨ ∃ t, f = .declared t := by
    intro f hf
    rcases List.mem_append.mp hf with hf | hf
    · rcases List.mem_append.mp hf with hf | hf
      · exact Or.inl hf
      · obtain ⟨problem, -, he⟩ := List.mem_map.mp hf
        exact Or.inr (Or.inl ⟨problem, he.symm⟩)
    · exact Or.inr (Or.inr ⟨_, List.mem_singleton.mp hf⟩)
  refine ⟨fun {d name} hd hk => ?_, fun {b} hb => ?_⟩
  · rcases hdirectives hd with hd | ⟨_, he⟩ | ⟨_, he⟩
    · obtain ⟨hm, ho | ho⟩ := directive_of_mem_itemDirectives hd
      · obtain rfl : s.name = name := DirectiveKind.type.inj (ho.symm.trans hk)
        rw [hm]
        exact ⟨hname, hdeclared⟩
      · unfold Directive.isExternal at ho
        rw [hk] at ho
        cases ho
    · cases he
    · cases he
  · rcases hdirectives hb with hb | ⟨_, he⟩ | ⟨_, he⟩
    · exact absurd hb block_not_mem_itemDirectives
    · cases he
    · cases he

/-! ## Functions -/

/-- Parameters that are not all plain bindings do not make a constructor. -/
theorem constructorParameters_error {inputs : List FunctionInput} {unfit : Candidate}
    (h : (constructorParameters file inputs).1 = .error unfit) (c : Constructor) : unfit ≠ .constructor c := by
  induction inputs generalizing unfit with
  | nil => cases h
  | cons input rest ih =>
    cases input with
    | receiver reference mutable tokens =>
      cases h
      exact Candidate.noConfusion
    | typed attributes pattern patternTokens type =>
      unfold constructorParameters at h
      split at h
      · simp only at h
        cases hr : (constructorParameters file rest).1 with
        | error e =>
          rw [hr] at h
          cases h
          exact ih hr
        | ok parameters =>
          rw [hr] at h
          cases h
      · cases h
        exact Candidate.noConfusion

/-- A constructor is the function it was read from, with the parameters of its signature. -/
theorem parameters_of_candidate {typeName : String} {f : FunctionItem} {c : Constructor}
    (h : (candidate file module typeName f).1 = .constructor c) :
    c.kind = .function f.signature.name ∧ (constructorParameters file f.signature.inputs).1 = .ok c.parameters := by
  unfold candidate at h
  simp only at h
  split at h
  · cases h
  · split at h
    · cases h
    · split at h
      · cases h
      · split at h
        · rename_i unfit problems hu
          exact absurd h (constructorParameters_error (congrArg Prod.fst hu) c)
        · rename_i parameters problems hp
          cases h
          exact ⟨rfl, congrArg Prod.fst hp⟩

theorem kind_of_candidate {typeName : String} {f : FunctionItem} {c : Constructor}
    (h : (candidate file module typeName f).1 = .constructor c) : c.kind = .function f.signature.name :=
  (parameters_of_candidate h).1

theorem functionFindings_kind {typeName : Option String} {f : FunctionItem} {c : Constructor}
    (h : (functionFindings file module typeName f).1 = .constructor c) : c.kind = .function f.signature.name := by
  unfold functionFindings at h
  cases typeName with
  | none => cases h
  | some type => exact kind_of_candidate h

theorem functionDirective_ne_type {typeName : Option String} {f : FunctionItem} {candidate : Candidate} {attr : Attribute}
    {name : String} : functionDirective typeName f candidate attr ≠ some (.type name) := by
  intro h
  unfold functionDirective at h
  simp only at h
  split at h
  · cases h
  · split at h
    · split at h <;> cases h
    · cases h

/-- What is found in a function: a problem, a directive on it, or that it cannot be called. -/
theorem functionFindings_cases {typeName : Option String} {f : FunctionItem} {finding : Finding}
    (h : finding ∈ (functionFindings file module typeName f).2) :
    (∃ problem, finding = .problem problem) ∨
      (∃ candidate attr kind, functionDirective typeName f candidate attr = some kind ∧
        finding = found file module attr kind) ∨ ∃ type name reason, finding = .skipped type name reason := by
  rcases List.mem_append.mp h with h | h
  · rcases List.mem_append.mp h with h | h
    · obtain ⟨problem, -, he⟩ := List.mem_map.mp h
      exact Or.inl ⟨problem, he.symm⟩
    · obtain ⟨attr, -, ha⟩ := List.mem_filterMap.mp h
      obtain ⟨kind, hk, he⟩ := Option.map_eq_some_iff.mp ha
      exact Or.inr (Or.inl ⟨_, attr, kind, hk, he.symm⟩)
  · split at h
    · exact Or.inr (Or.inr ⟨_, _, _, List.mem_singleton.mp h⟩)
    · cases h

theorem block_not_mem_functionFindings {typeName : Option String} {f : FunctionItem} {b : FunctionBlock} :
    .block b ∉ (functionFindings file module typeName f).2 := by
  intro hb
  rcases functionFindings_cases hb with ⟨_, he⟩ | ⟨candidate, attr, kind, -, he⟩ | ⟨_, _, _, he⟩
  · cases he
  · cases he
  · cases he

theorem coherent_functionFindings {typeName : Option String} {f : FunctionItem} :
    Coherent (functionFindings file module typeName f).2 := by
  refine .of_none (fun d hd name hk => ?_) fun b => block_not_mem_functionFindings
  rcases functionFindings_cases hd with ⟨_, he⟩ | ⟨candidate, attr, kind, hf, he⟩ | ⟨_, _, _, he⟩
  · cases he
  · cases he
    exact functionDirective_ne_type (hf.trans (congrArg some hk))
  · cases he

theorem coherent_blockFindings {typeName : Option String} {functions : List FunctionItem} :
    Coherent (blockFindings file module typeName functions) := by
  have hfindings : Coherent ((functions.map fun f => (f, functionFindings file module typeName f)).flatMap (·.2.2)) := by
    refine Coherent.flatMap fun read hr => ?_
    obtain ⟨f, -, rfl⟩ := List.mem_map.mp hr
    exact coherent_functionFindings
  unfold blockFindings
  cases typeName with
  | none => exact hfindings
  | some name =>
    refine hfindings.append ⟨fun hd => ?_, fun {b} hb c hc => ?_⟩
    · exact absurd (List.mem_singleton.mp hd) Finding.noConfusion
    · cases List.mem_singleton.mp hb
      obtain ⟨read, hr, hm⟩ := List.mem_filterMap.mp hc
      obtain ⟨f, -, rfl⟩ := List.mem_map.mp hr
      dsimp only at hm
      split at hm
      · rename_i made hmade
        cases hm
        exact ⟨_, functionFindings_kind hmade⟩
      · cases hm

/-! ## Items and files -/

theorem coherent_outerFindings {item : Item} (h : ∀ s, item = .struct s → IsName s.name) :
    Coherent (outerFindings file module item) := by
  cases item with
  | struct s => exact coherent_structFindings (h s rfl)
  | functions attributes ofTrait subject functions => exact coherent_itemDirectives.append coherent_blockFindings
  | module attributes v name content => exact coherent_itemDirectives
  | function f => exact coherent_itemDirectives
  | named kind attributes v name => exact coherent_itemDirectives
  | plain => exact Coherent.nil

theorem coherent_fileFindings (root : Nat) (dir file text : String) : Coherent (fileFindings root dir file text) := by
  unfold fileFindings findingsIn
  split
  · exact .of_none (fun d hd => by cases List.mem_singleton.mp hd) fun b hb => by cases List.mem_singleton.mp hb
  · rename_i items hread
    have hopened : Coherent [.opened file ⟨root, Discovery.moduleSegments dir file⟩] :=
      .of_none (fun d hd => by cases List.mem_singleton.mp hd) fun b hb => by cases List.mem_singleton.mp hb
    refine hopened.append ?_
    rw [itemsFindings_eq]
    refine Coherent.flatMap fun part hp => coherent_outerFindings fun s hs => ?_
    obtain ⟨item, hi, hin⟩ := Item.mem_partsOfAll_iff.mp hp
    have hproper := throughout_of_readFile hread item hi _ part hin
    rw [hs] at hproper
    exact isName_of_isIdentifier hproper.name.1

theorem coherent_loadFile (tree : FileTree) (root : Nat) (dir file : String) : Coherent (loadFile tree root dir file) := by
  unfold loadFile
  split
  · exact coherent_fileFindings root dir file _
  · exact .of_none (fun d hd => by cases List.mem_singleton.mp hd) fun b hb => by cases List.mem_singleton.mp hb

theorem coherent_loadRoots (tree : FileTree) (index : Nat) (roots : List SourceRoot) :
    Coherent (loadRoots tree index roots).2.1 := by
  induction roots generalizing index with
  | nil => exact Coherent.nil
  | cons root rest ih =>
    unfold loadRoots
    cases hr : loadRoot? tree index root with
    | none => exact Coherent.nil
    | some loaded =>
      obtain ⟨files, -, he⟩ := Option.map_eq_some_iff.mp hr
      refine Coherent.append ?_ (ih (index + 1))
      have hentered : Coherent [.entered files.length root.label] :=
        .of_none (fun d hd => by cases List.mem_singleton.mp hd) fun b hb => by cases List.mem_singleton.mp hb
      rw [← he]
      exact hentered.append (Coherent.flatMap fun file _ => coherent_loadFile tree index root.dir file)

end Scan

/-- The finding says how the scan went, and not what stands in a file. -/
def Finding.isReport : Finding → Bool
  | .entered .. | .opened .. | .problem _ => true
  | _ => false

namespace SourceTree

/-- The tree comes from sources in memory, or from the roots of a file tree. -/
def IsScanned (tree : SourceTree) : Prop :=
  (∃ sources, tree = ofSources sources) ∨ ∃ files roots, tree = (load files roots).tree

theorem isScanned_ofSources (sources : List (String × String)) : (ofSources sources).IsScanned := Or.inl ⟨sources, rfl⟩

/-- What is found in a scanned tree goes together. -/
theorem coherent_of_isScanned {tree : SourceTree} (h : tree.IsScanned) : Coherent tree.findings := by
  rcases h with ⟨sources, rfl⟩ | ⟨files, roots, rfl⟩
  · exact Coherent.flatMap fun (file, text) _ => Scan.coherent_fileFindings 0 "" file text
  · exact Scan.coherent_loadRoots files 0 roots

/-- The struct that a directive stands on is declared in the directive's module. -/
theorem exists_declared_of_type {tree : SourceTree} (h : tree.IsScanned) {d : Directive} {name : String}
    (hd : d ∈ tree.directives) (hk : d.kind = .type name) :
    IsName name ∧ ∃ t ∈ tree.types, t.name = name ∧ t.module = d.module := by
  obtain ⟨finding, hf, he⟩ := List.mem_filterMap.mp hd
  cases finding with
  | directive found =>
    cases he
    obtain ⟨hn, t, ht, hname⟩ := (coherent_of_isScanned h).typed hf hk
    exact ⟨hn, t, List.mem_filterMap.mpr ⟨_, ht, rfl⟩, hname⟩
  | _ => cases he

/-- A struct is constructed by functions, or by being written out. -/
theorem constructors_cases {tree : SourceTree} (h : tree.IsScanned) {t : DeclaredType} {c : Constructor}
    (hc : c ∈ tree.constructors t) : (∃ function, c.kind = .function function) ∨
      c = t.memberwise ∧ tree.constructors t = [t.memberwise] := by
  unfold constructors at hc ⊢
  simp only at hc ⊢
  split at hc
  · rename_i hm
    rw [if_pos hm]
    exact Or.inr ⟨List.mem_singleton.mp hc, rfl⟩
  · obtain ⟨b, hb, hcb⟩ := List.mem_flatMap.mp hc
    obtain ⟨finding, hf, he⟩ := List.mem_filterMap.mp (List.mem_filter.mp hb).1
    cases finding with
    | block found =>
      cases he
      exact Or.inl ((coherent_of_isScanned h).called hf c hcb)
    | _ => cases he

/-! ## Files -/

/-- A file with these items has been read for the tree, and what is found in it stands together among
the findings. -/
structure HasFile (tree : SourceTree) (file : String) (module : ModulePath) (items : List Item) : Prop where
  reads : ∃ cs, readFileChars cs = .ok items
  found : Scan.itemsFindings file module items <:+: tree.findings

theorem exists_items_of_mem {root : Nat} {dir file text : String} {f : Finding} (hf : f ∈ Scan.fileFindings root dir file text)
    (hr : f.isReport = false) : ∃ module items, (∃ cs, readFileChars cs = .ok items) ∧
      f ∈ Scan.itemsFindings file module items ∧
      Scan.itemsFindings file module items <:+: Scan.fileFindings root dir file text := by
  unfold Scan.fileFindings Scan.findingsIn at hf ⊢
  cases hread : readFile text with
  | error problem =>
    rw [hread] at hf
    rw [List.mem_singleton.mp hf] at hr
    cases hr
  | ok items =>
    rw [hread] at hf
    rcases List.mem_cons.mp hf with rfl | hf
    · cases hr
    · exact ⟨_, items, ⟨_, hread⟩, hf, (List.suffix_cons _ _).isInfix⟩

/-- What an item of a list becomes stands together in what the list becomes. -/
theorem infix_flatMap {α β : Type} {f : α → List β} {as : List α} {a : α} (h : a ∈ as) : f a <:+: as.flatMap f := by
  obtain ⟨before, after, rfl⟩ := List.append_of_mem h
  exact ⟨before.flatMap f, after.flatMap f, by simp⟩

theorem exists_text_of_mem_loadRoots {files : FileTree} {index : Nat} {roots : List SourceRoot} {f : Finding}
    (hf : f ∈ (Scan.loadRoots files index roots).2.1) (hr : f.isReport = false) :
    ∃ root dir file text, f ∈ Scan.fileFindings root dir file text ∧
      Scan.fileFindings root dir file text <:+: (Scan.loadRoots files index roots).2.1 := by
  induction roots generalizing index with
  | nil => cases hf
  | cons root rest ih =>
    unfold Scan.loadRoots at hf ⊢
    cases hl : Scan.loadRoot? files index root with
    | none =>
      rw [hl] at hf
      cases hf
    | some loaded =>
      rw [hl] at hf
      obtain ⟨names, -, rfl⟩ := Option.map_eq_some_iff.mp hl
      dsimp only at hf ⊢
      rcases List.mem_append.mp hf with hf | hf
      · rcases List.mem_cons.mp hf with rfl | hf
        · cases hr
        · obtain ⟨file, hfile, hin⟩ := List.mem_flatMap.mp hf
          have hloaded : Scan.loadFile files index root.dir file <:+:
              .entered names.length root.label :: names.flatMap (Scan.loadFile files index root.dir) ++
                (Scan.loadRoots files (index + 1) rest).2.1 :=
            (infix_flatMap hfile).trans ((List.suffix_cons _ _).isInfix.trans (List.prefix_append _ _).isInfix)
          unfold Scan.loadFile at hin hloaded
          split at hin
          · rename_i text htext
            rw [htext] at hloaded
            exact ⟨index, root.dir, file, text, hin, hloaded⟩
          · rw [List.mem_singleton.mp hin] at hr
            cases hr
      · obtain ⟨i, dir, file, text, hin, hinfix⟩ := ih hf
        exact ⟨i, dir, file, text, hin, hinfix.trans (List.suffix_append _ _).isInfix⟩

/-- What is found in a scanned tree, reports aside, is found in one of its files. -/
theorem exists_file_of_mem {tree : SourceTree} (h : tree.IsScanned) {f : Finding} (hf : f ∈ tree.findings)
    (hr : f.isReport = false) :
    ∃ file module items, tree.HasFile file module items ∧ f ∈ Scan.itemsFindings file module items := by
  have htext : ∃ root dir file text, f ∈ Scan.fileFindings root dir file text ∧
      Scan.fileFindings root dir file text <:+: tree.findings := by
    rcases h with ⟨sources, rfl⟩ | ⟨files, roots, rfl⟩
    · obtain ⟨⟨file, text⟩, hs, hin⟩ := List.mem_flatMap.mp hf
      have hinfix : _ <:+: (ofSources sources).findings := infix_flatMap hs
      exact ⟨0, "", file, text, hin, hinfix⟩
    · exact exists_text_of_mem_loadRoots hf hr
  obtain ⟨root, dir, file, text, hin, hinfix⟩ := htext
  obtain ⟨module, items, hreads, hin, hitems⟩ := exists_items_of_mem hin hr
  exact ⟨file, module, items, ⟨hreads, hitems.trans hinfix⟩, hin⟩

/-! ## Evaluation -/

/-- Sources are read character by character. It is in this form that they can be evaluated: taking a
long string apart is out of the kernel's reach. -/
theorem ofSources_ofList (texts : List (String × List Char)) :
    ofSources (texts.map fun (file, cs) => (file, String.ofList cs)) =
      ⟨[.of ""], texts.map (·.1),
        texts.flatMap fun (file, cs) => Scan.findingsIn 0 "" file (Syntax.readFileChars cs)⟩ := by
  unfold ofSources
  simp [List.flatMap_map, Scan.fileFindings, Syntax.readFile, String.toList_ofList]

end SourceTree

end BuilderSynthesis
