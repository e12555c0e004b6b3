/-
  BuilderSynthesis.Proofs.Inclusion — the builder that a directive takes in and the one a pass writes.

  The compiler calls a directive with its arguments and its item, and a scan finds the same directive
  in the sources (`DirectiveCall`). Both make a name of the struct's and the suffix. The compiler
  reads the two together as one identifier and takes in the file of that name; the pass checks that
  they read as one and then uses them as they stand.

  The two readers of the arguments run in step (`entriesFrom_same`), and both readers of a struct take
  the name in its tokens, so struct and suffix are always the same. The struct in the written file
  therefore has the name that is taken in, but the file itself has it only if the suffix holds no
  blank and no comment (`included_builder_is_written_iff`). With a blank behind the suffix the
  compiler looks for a file that no pass writes (`a_blank_behind_the_suffix_names_another_file`).
-/

import BuilderSynthesis.Expansion.Directives
import BuilderSynthesis.Pass.BuilderDirectory
import BuilderSynthesis.Proofs.Emission
import BuilderSynthesis.Proofs.Lookup
import BuilderSynthesis.Proofs.Planning
import BuilderSynthesis.Proofs.Structs

namespace BuilderSynthesis

open Syntax

/-! ## Both readers of the arguments -/

/-- What the compiler and a scan gather from the same entries: the compiler the last name of the
target, a scan all its names. -/
structure SameArguments (given : Expansion.Elsewhere) (found : Scan.ExternalArguments) : Prop where
  target : given.target = none ∧ found.target = none ∨
    ∃ path : PathExpr, path.Named ∧ given.target = path.last? ∧ found.target = some path.text
  suffix : given.suffix = found.suffix

section Entries

variable {g : Grammar} {given given' : Expansion.Elsewhere} {found found' : Scan.ExternalArguments} {s : Stream} {σ : Type}

theorem gives_entryPath (g : Grammar) : Parser.Gives (Read.entryValue (Read.path g false)) PathExpr.Named :=
  Parser.gives_bind fun _ => Read.gives_path g false

theorem entry_same {path : PathExpr} {position : Position} {after after' : Stream} (hs : Token.AllLexed s.rest)
    (h : SameArguments given found) (he : Expansion.elsewhereEntry g given path position s = .ok (given', after))
    (hx : Scan.externalEntry g found path position s = .ok (found', after')) :
    SameArguments given' found' ∧ after = after' := by
  unfold Expansion.elsewhereEntry at he
  unfold Scan.externalEntry at hx
  split at he
  · rename_i hname
    rw [if_pos hname] at hx
    obtain ⟨target, middle, ht, he⟩ := Parser.bind_eq_ok he
    obtain ⟨target', middle', ht', hx⟩ := Parser.bind_eq_ok hx
    cases ht.symm.trans ht'
    cases he
    cases hx
    exact ⟨⟨Or.inr ⟨target, gives_entryPath g hs ht, rfl, rfl⟩, h.suffix⟩, rfl⟩
  · rename_i hname
    rw [if_neg hname] at hx
    split at he
    · rename_i hsuffix
      rw [if_pos hsuffix] at hx
      obtain ⟨suffix, middle, ht, he⟩ := Parser.bind_eq_ok he
      obtain ⟨suffix', middle', ht', hx⟩ := Parser.bind_eq_ok hx
      cases ht.symm.trans ht'
      cases he
      cases hx
      exact ⟨⟨h.target, rfl⟩, rfl⟩
    · rename_i hsuffix
      rw [if_neg hsuffix] at hx
      split at he
      · rename_i huse
        rw [if_pos huse] at hx
        obtain ⟨_, middle, hd, he⟩ := Parser.bind_eq_ok he
        obtain ⟨value, ht⟩ := Parser.discard_eq_ok hd
        obtain ⟨value', middle', ht', hx⟩ := Parser.bind_eq_ok hx
        cases ht.symm.trans ht'
        cases he
        cases hx
        exact ⟨⟨h.target, h.suffix⟩, rfl⟩
      · cases he

/-- Where the entry after one begins, if there is another. -/
def nextEntry? (s : Stream) : Option Stream :=
  if s.rest.isEmpty then none
  else match Parser.mark "," s with
    | .error _ => none
    | .ok (_, s) => if s.rest.isEmpty then none else some s

theorem nextEntry?_suffix {s next : Stream} (h : nextEntry? s = some next) : next.rest <:+ s.rest := by
  unfold nextEntry? at h
  split at h
  · cases h
  · split at h
    · cases h
    · rename_i marked hm
      split at h
      · cases h
      · cases h
        exact (Parser.mark ",").shrinks hm

/-- What an entry gathers is handed to the entry after it. -/
theorem entriesFrom_eq_ok {entry : σ → PathExpr → Position → Parser σ} {n : Nat} {state state' : σ} {after : Stream}
    (h : Read.entriesFrom entry (n + 1) state s = (state', .ok after)) :
    ∃ path position middle next rest, Read.entryPath s = .ok ((path, position), middle) ∧
      entry state path position middle = .ok (next, rest) ∧
      match nextEntry? rest with
      | none => state' = next
      | some more => Read.entriesFrom entry n next more = (state', .ok after) := by
  unfold Read.entriesFrom at h
  split at h
  · cases h
  · rename_i path position middle hp
    split at h
    · cases h
    · rename_i next rest he
      refine ⟨path, position, middle, next, rest, hp, he, ?_⟩
      unfold nextEntry?
      split at h
      · rename_i hempty
        rw [if_pos hempty]
        cases h
        rfl
      · rename_i hempty
        rw [if_neg hempty]
        cases hm : Parser.mark "," rest with
        | error e =>
          simp only [hm] at h
          cases h
        | ok found =>
          obtain ⟨_, marked⟩ := found
          simp only [hm] at h
          split at h
          · rename_i hended
            simp only [hended, if_true]
            cases h
            rfl
          · rename_i hended
            simp only [hended]
            exact h

/-- Entry by entry, both readers take the same tokens. -/
theorem entriesFrom_same {n : Nat} {after after' : Stream} (hs : Token.AllLexed s.rest) (h : SameArguments given found)
    (he : Read.entriesFrom (Expansion.elsewhereEntry g) n given s = (given', .ok after))
    (hx : Read.entriesFrom (Scan.externalEntry g) n found s = (found', .ok after')) : SameArguments given' found' := by
  induction n generalizing s given found with
  | zero =>
    cases he
    cases hx
    exact h
  | succ n ih =>
    obtain ⟨path, position, middle, given₁, rest, hp, hentry, he⟩ := entriesFrom_eq_ok he
    obtain ⟨path', position', middle', found₁, rest', hp', hentry', hx⟩ := entriesFrom_eq_ok hx
    cases hp.symm.trans hp'
    have hmiddle := hs.of_suffix (Read.entryPath.shrinks hp)
    obtain ⟨hsame, rfl⟩ := entry_same hmiddle h hentry hentry'
    cases hnext : nextEntry? rest with
    | none =>
      rw [hnext] at he hx
      rw [show given' = given₁ from he, show found' = found₁ from hx]
      exact hsame
    | some more =>
      rw [hnext] at he hx
      have hrest := hmiddle.of_suffix ((Expansion.elsewhereEntry g given path position).shrinks hentry)
      exact ih (hrest.of_suffix (nextEntry?_suffix hnext)) hsame he hx

theorem entries_same {content : List Token} {closesAt : Position} (hs : Token.AllLexed content)
    (h : SameArguments given found)
    (he : Read.entries (Expansion.elsewhereEntry g) given content closesAt = (given', .ok ()))
    (hx : Read.entries (Scan.externalEntry g) found content closesAt = (found', .ok ())) :
    SameArguments given' found' := by
  unfold Read.entries at he hx
  split at he
  · rename_i hempty
    rw [if_pos hempty] at hx
    cases he
    cases hx
    exact h
  · rename_i hempty
    rw [if_neg hempty] at hx
    split at he
    · cases he
    · rename_i after hread
      split at he
      · cases he
      · cases he
        split at hx
        · cases hx
        · rename_i after' hread'
          split at hx
          · cases hx
          · cases hx
            exact entriesFrom_same hs h hread hread'

end Entries

/-! ## What is taken in -/

namespace Expansion

open Fragment

theorem inclusion_inj {unit unit' : String} (h : inclusion unit = inclusion unit') : unit = unit' := by
  unfold inclusion at h
  have hparens := List.append_inj_right (List.append_inj_left h rfl) rfl
  cases hparens
  rfl

theorem getLast?_inclusion (before : Code) (unit : String) :
    (before ++ inclusion unit).getLast? = some (.punct ';' false .start) := by
  unfold inclusion
  rw [← List.append_assoc, List.getLast?_append]
  rfl

/-- Code that ends in a bracket does not end in the inclusion of a builder. -/
theorem not_inclusion_suffix_of_group (before : Code) {unit : String} {delimiter : Delimiter} {content : Code} :
    ¬ inclusion unit <:+ before ++ [.enclosed delimiter content] := by
  rintro ⟨first, h⟩
  have hlast := congrArg List.getLast? h
  rw [getLast?_inclusion, List.getLast?_concat] at hlast
  cases hlast

theorem not_inclusion_suffix_compileError (before : Code) {unit message : String} :
    ¬ inclusion unit <:+ before ++ compileError message := by
  unfold compileError
  rw [← List.append_assoc]
  exact not_inclusion_suffix_of_group _

/-- What is taken in has the name that struct and suffix read as. -/
theorem inclusion_suffix_inclusionFor_iff (before : Code) {unit target suffix : String} :
    inclusion unit <:+ before ++ inclusionFor target suffix ↔ readIdentifier (target ++ suffix) = .ok unit := by
  unfold inclusionFor unitName
  cases hr : readIdentifier (target ++ suffix) with
  | error problem =>
    refine ⟨fun h => absurd h (not_inclusion_suffix_compileError before), fun h => ?_⟩
    cases h
  | ok found =>
    constructor
    · rintro ⟨first, hf⟩
      rw [inclusion_inj (List.append_inj_right' hf rfl)]
    · intro h
      cases h
      exact List.suffix_append _ _

/-- A builder that is taken in beside a struct has the struct's name and the usual suffix. -/
theorem readIdentifier_of_derived {item : List Token} {unit : String} (h : inclusion unit <:+ derived item) :
    ∃ name, structName? (afterAttributes item) = some name ∧
      readIdentifier (name ++ Request.defaultSuffix) = .ok unit := by
  unfold derived at h
  split at h
  · exact absurd h (not_inclusion_suffix_compileError [])
  · exact absurd h (not_inclusion_suffix_compileError [])
  · rename_i s written hr
    obtain ⟨after, hread, -⟩ := onTokens_eq_ok hr
    split at h
    · exact ⟨s.name, Read.structName?_of_deriveInput _ hread, (inclusion_suffix_inclusionFor_iff []).mp h⟩
    · exact absurd h (not_inclusion_suffix_compileError [])

theorem readIdentifier_of_onItem {item : List Token} {unit : String}
    (h : inclusion unit <:+ onItem item) :
    ∃ name, structName? (afterAttributes item) = some name ∧
      readIdentifier (name ++ Request.defaultSuffix) = .ok unit := by
  unfold onItem at h
  split at h
  · exact absurd h (not_inclusion_suffix_compileError [])
  · rename_i s written hr
    obtain ⟨after, hread, -⟩ := onTokens_eq_ok hr
    split at h
    · exact ⟨s.name, Read.structName?_of_item _ hread, (inclusion_suffix_inclusionFor_iff _).mp h⟩
    · exact absurd h (not_inclusion_suffix_compileError _)
  · exact absurd h (not_inclusion_suffix_of_group _)
  · exact absurd h (not_inclusion_suffix_compileError _)

theorem inclusion_suffix_elsewhere_iff {arguments item : List Token} {closesAt : Position} {unit : String} :
    inclusion unit <:+ elsewhere arguments closesAt item ↔
      ∃ target suffix, Read.entries (elsewhereEntry (grammarFor arguments)) ⟨none, none⟩ arguments closesAt =
          (⟨some target, suffix⟩, .ok ()) ∧
        readIdentifier (target ++ suffix.getD Request.defaultSuffix) = .ok unit := by
  unfold elsewhere
  constructor
  · intro h
    split at h
    · exact absurd h (not_inclusion_suffix_compileError _)
    · exact absurd h (not_inclusion_suffix_compileError _)
    · rename_i target suffix hr
      exact ⟨target, suffix, hr, (inclusion_suffix_inclusionFor_iff _).mp h⟩
  · rintro ⟨target, suffix, hr, hu⟩
    rw [hr]
    exact (inclusion_suffix_inclusionFor_iff _).mpr hu

end Expansion

/-! ## What is asked of a pass -/

namespace Scan

theorem external_eq_ok {file : String} {visibility : Visibility} {attr : Attribute} {kind : DirectiveKind}
    {content : List Token} {closesAt : Position} (hl : attr.form = .list content closesAt)
    (h : external file visibility attr = .ok kind) :
    ∃ target suffix useConstructors, kind = .external target suffix useConstructors visibility ∧
      Read.entries (externalEntry (grammarFor content)) ⟨none, none, false⟩ content closesAt =
        (⟨some target, suffix, useConstructors⟩, .ok ()) := by
  have hlisted : attr.listed = content := by
    unfold Attribute.listed
    rw [hl]
  unfold external Read.attributeEntries at h
  rw [hl, hlisted] at h
  simp only at h
  split at h
  · cases h
  · cases h
  · rename_i target suffix useConstructors hr
    cases h
    exact ⟨target, suffix, useConstructors, rfl, hr⟩

end Scan

namespace Directive

/-- The path of the struct that a builder is asked for. -/
def path? (d : Directive) : Option String :=
  match d.kind with
  | .type name => some name
  | .constructor typeName _ => some typeName
  | .external target _ _ _ => some target
  | .misplaced _ => none

/-- What is added to the name of the struct. -/
def suffix (d : Directive) : String :=
  match d.kind with
  | .external _ suffix _ _ => suffix.getD Request.defaultSuffix
  | _ => Request.defaultSuffix

/-- A builder is requested for the struct that is found under the path, with the suffix. -/
theorem requested_eq_ok {d : Directive} {host : Host} {request : Request} (h : d.requested host = .ok request) :
    ∃ path t, d.path? = some path ∧ host.findType path d.module = some t ∧ request.unit = t.name ++ d.suffix := by
  obtain ⟨t, ha⟩ := asks_of_requested h
  unfold path? suffix
  cases ha with
  | type hk hn =>
    rw [hk]
    exact ⟨_, t, rfl, namedStruct_eq_ok hn, rfl⟩
  | constructor hk hn =>
    rw [hk]
    exact ⟨_, t, rfl, namedStruct_eq_ok hn, rfl⟩
  | external hk hn =>
    rw [hk]
    exact ⟨_, t, rfl, namedStruct_eq_ok hn, rfl⟩

end Directive

/-! ## What is written -/

/-- The struct in the code of a builder has the name that its unit reads as. -/
theorem declares_of_code {plan : BuilderPlan} {code : List Token} {unit : String} (h : plan.code = .ok code)
    (hu : readIdentifier plan.unit = .ok unit) : [Token.word "struct", Token.word unit] <:+: code := by
  obtain ⟨p, hp, h⟩ := exists_of_bind h
  obtain ⟨constructed, -, h⟩ := exists_of_bind h
  obtain ⟨copying, -, h⟩ := exists_of_bind h
  have hunit : p.unit = unit := by
    obtain ⟨generics, -, hp⟩ := exists_of_bind hp
    obtain ⟨whereClause, -, hp⟩ := exists_of_bind hp
    obtain ⟨slots, -, hp⟩ := exists_of_bind hp
    obtain ⟨found, hf, hp⟩ := exists_of_bind hp
    obtain ⟨visibility, -, hp⟩ := exists_of_bind hp
    obtain ⟨target, -, hp⟩ := exists_of_bind hp
    cases hp
    unfold Pieces.readPart at hf
    rw [hu] at hf
    cases hf
    rfl
  cases h
  have hstruct : [Token.word "struct", Token.word unit] <:+: p.structCode plan := by
    unfold Pieces.structCode
    rw [hunit, List.append_assoc, List.append_assoc]
    exact ⟨_, _, rfl⟩
  refine hstruct.trans (List.IsPrefix.isInfix ?_)
  rw [List.append_assoc, List.append_assoc, List.append_assoc]
  exact List.prefix_append _ _

namespace BuilderDirectory

/-- A builder that has been stored can be read at the path of its unit. -/
theorem read_of_store {d : BuilderDirectory} {plan : BuilderPlan} {files next : FileTree} {stored : Stored}
    (h : d.store plan files = (.ok stored, next)) :
    stored.path = d.pathOf plan.unit ∧ ∃ code source, plan.code = .ok code ∧ plan.source = .ok source ∧
      next.read stored.path = .ok source := by
  cases hr : d.refusal? files plan with
  | some error =>
    rw [store_refused hr] at h
    cases h
  | none =>
    obtain ⟨source, place, found, after, hs, hl, hp, hw, he⟩ := store_accepted hr
    cases he.symm.trans h
    have hcode : ∃ code, plan.code = .ok code := by
      unfold BuilderPlan.source at hs
      cases hc : plan.code with
      | error e =>
        rw [hc] at hs
        cases hs
      | ok code => exact ⟨code, rfl⟩
    obtain ⟨code, hc⟩ := hcode
    refine ⟨hp, code, source, hc, hs, ?_⟩
    have hentry : next.entry? stored.path = some (.file (.text source)) := by
      unfold FileTree.entry?
      rw [hp, ← hw.directories.locate, hl, Option.bind_some, hw.get?, if_pos rfl]
    unfold FileTree.read
    rw [hentry]

/-- The plan of a directive is stored unless it is refused. -/
theorem exists_stored (host : Host) (asked : Directive) (d : BuilderDirectory) (files : FileTree)
    (h : (Outcome.ofDirective host asked).plan?.any (fun plan => (d.refusal? files plan).isNone) = true) :
    ∃ plan stored next, (Outcome.ofDirective host asked).result = .ok plan ∧ d.store plan files = (.ok stored, next) := by
  obtain ⟨plan, hp, hr⟩ := (Option.any_eq_true _ _).mp h
  obtain ⟨source, place, stored, next, -, -, -, -, hs⟩ := store_accepted (Option.isNone_iff_eq_none.mp hr)
  exact ⟨plan, stored, next, Outcome.result_of_plan? hp, hs⟩

end BuilderDirectory

/-! ## A directive of the sources and its call -/

/-- A scan reads a struct from tokens of a file, and the compiler hands on the tokens of that struct to
a directive. Attributes before the struct may be missing there. -/
inductive HandedOn (struct : StructItem) (item : List Token) : Prop where
  | of (g : Grammar) (stream after : Stream) (lexed : Token.AllLexed stream.rest)
      (read : Read.item g stream = .ok (.struct struct, after))
      (same : afterAttributes item <+: afterAttributes stream.rest)

/-- The directive that a scan finds in an attribute, and what the compiler calls for the same attribute:
which directive, with which arguments, which close where, and for which item. -/
inductive DirectiveCall : DirectiveForm → List Token → Position → List Token → Directive → Prop where
  | derive {struct : StructItem} {attr : Attribute} {arguments item : List Token} {closesAt : Position}
      {module : ModulePath} {file : String} (struct_ : HandedOn struct item) (lexed : Token.AllLexed item)
      (carried : attr ∈ struct.attributes) (derives : Scan.derivesBuilder attr = true) :
      DirectiveCall .derive arguments closesAt item ⟨.type struct.name, module, Scan.locate file attr.position⟩
  | builder {struct : StructItem} {attr : Attribute} {item : List Token} {closesAt : Position} {module : ModulePath}
      {file : String} (struct_ : HandedOn struct item) (lexed : Token.AllLexed item)
      (carried : attr ∈ struct.attributes) (named : Scan.isBuilder attr = true) :
      DirectiveCall .builder attr.listed closesAt item ⟨.type struct.name, module, Scan.locate file attr.position⟩
  | builderOf {attr : Attribute} {content item : List Token} {closesAt : Position} {module : ModulePath} {file : String}
      {visibility : Visibility} {kind : DirectiveKind} (named : Scan.isBuilderOf attr = true)
      (listed : attr.form = .list content closesAt) (lexed : Token.AllLexed content)
      (found : Scan.external file visibility attr = .ok kind) :
      DirectiveCall .builderOf content closesAt item ⟨kind, module, Scan.locate file attr.position⟩

section Call

variable {form : DirectiveForm} {arguments item : List Token} {closesAt : Position} {d : Directive} {unit : String}

theorem HandedOn.name {struct : StructItem} {name : String} (h : HandedOn struct item)
    (hn : structName? (afterAttributes item) = some name) : struct.name = name := by
  obtain ⟨g, stream, after, -, hread, more, hmore⟩ := h
  have hscan := Read.structName?_of_item g hread
  rw [← hmore, structName?_append more hn] at hscan
  exact (Option.some.inj hscan).symm

/-- A struct that a directive stands on is asked for by its name alone. -/
theorem HandedOn.path {struct : StructItem} (h : HandedOn struct item) (hs : Token.AllLexed item)
    (hx : ∃ name, structName? (afterAttributes item) = some name ∧
      readIdentifier (name ++ Request.defaultSuffix) = .ok unit) :
    ∃ (path : PathExpr) (name : String), path.Named ∧ some struct.name = some path.text ∧ path.last? = some name ∧
      readIdentifier (name ++ Request.defaultSuffix) = .ok unit := by
  obtain ⟨name, hn, hu⟩ := hx
  have hisName := isName_of_structName? (hs.of_suffix (afterAttributes_suffix item)) hn
  have hnamed : (PathExpr.mk false [.mk name .none]).Named :=
    ⟨List.cons_ne_nil _ _, fun other ho => List.mem_singleton.mp ho ▸ hisName⟩
  have htext : (PathExpr.mk false [.mk name .none]).text = name := by
    show "" ++ "::".intercalate [name] = name
    rw [String.intercalate_singleton, String.empty_append]
  refine ⟨_, name, hnamed, ?_, rfl, hu⟩
  rw [htext, h.name hn]

/-- Where a builder is taken in, both sides mean the same struct and the same suffix: the path that is
looked up ends in the name to which the compiler adds the suffix. -/
theorem DirectiveCall.path (h : DirectiveCall form arguments closesAt item d)
    (hx : Expansion.inclusion unit <:+ Expansion.expand form arguments closesAt item) :
    ∃ (path : PathExpr) (name : String), path.Named ∧ d.path? = some path.text ∧ path.last? = some name ∧
      readIdentifier (name ++ d.suffix) = .ok unit := by
  cases h with
  | derive hstruct hs hcarried hderives => exact hstruct.path hs (Expansion.readIdentifier_of_derived hx)
  | builder hstruct hs hcarried hnamed =>
    rw [Expansion.expand] at hx
    split at hx
    · exact hstruct.path hs (Expansion.readIdentifier_of_onItem hx)
    · exact absurd hx (Expansion.not_inclusion_suffix_compileError [])
  | builderOf hnamed hlisted hs hfound =>
    obtain ⟨target, suffix, hentries, hu⟩ := Expansion.inclusion_suffix_elsewhere_iff.mp hx
    obtain ⟨text, suffix', useConstructors, rfl, hentries'⟩ := Scan.external_eq_ok hlisted hfound
    have hsame := entries_same hs ⟨Or.inl ⟨rfl, rfl⟩, rfl⟩ hentries hentries'
    obtain ⟨rfl⟩ : suffix = suffix' := hsame.suffix
    rcases hsame.target with ⟨hnone, -⟩ | ⟨path, hpath, hlast, htext⟩
    · cases hnone
    · exact ⟨path, target, hpath, htext, hlast.symm, hu⟩

/-- The name that the compiler takes in is what the unit of the plan reads as. -/
theorem DirectiveCall.unit_eq (h : DirectiveCall form arguments closesAt item d)
    (hx : Expansion.inclusion unit <:+ Expansion.expand form arguments closesAt item) {tree : SourceTree}
    {plan : BuilderPlan} (hp : (Outcome.ofDirective tree.host d).result = .ok plan) :
    ∃ name, IsName name ∧ plan.unit = name ++ d.suffix ∧ readIdentifier plan.unit = .ok unit := by
  obtain ⟨path, name, hnamed, hpath, hlast, hu⟩ := h.path hx
  obtain ⟨request, planning, hr, hplan⟩ := Outcome.ofDirective_eq_ok hp
  obtain ⟨path', t, hpath', hfound, hunit⟩ := Directive.requested_eq_ok hr
  obtain rfl : path.text = path' := Option.some.inj (hpath.symm.trans hpath')
  have hname := SourceTree.name_of_findType hnamed hfound
  rw [hlast] at hname
  cases hname
  have hplanned : plan.unit = t.name ++ d.suffix := (Request.plan_eq_ok hplan).1.trans hunit
  refine ⟨t.name, hnamed.names _ (List.mem_of_getLast? hlast), hplanned, ?_⟩
  rw [hplanned]
  exact hu

end Call

/-! ## The theorem -/

theorem isAbsolute_of_isName {name : String} (h : IsName name) (rest : String) :
    FilePath.isAbsolute (name ++ rest) = false := by
  unfold FilePath.isAbsolute
  rw [beq_eq_false_iff_ne]
  intro hslash
  rw [head?_toList_append rest h.nonempty] at hslash
  have hc := List.all_eq_true.mp h.staysTogether '/' (List.mem_of_head? hslash)
  exact absurd hc (by decide)

/-- The builder that the compiler takes in under a name is declared under that name in the file that a
pass writes for the same directive. The file is the one that the compiler looks for exactly when the
suffix has nothing in it that separates tokens or starts a comment. -/
theorem included_builder_is_written_iff {tree : SourceTree} {d : Directive} {form : DirectiveForm}
    {arguments item : List Token} {closesAt : Position} {unit : String} {plan : BuilderPlan} {dir : BuilderDirectory}
    {files next : FileTree} {stored : Stored} (hcall : DirectiveCall form arguments closesAt item d)
    (hx : Expansion.inclusion unit <:+ Expansion.expand form arguments closesAt item)
    (hp : (Outcome.ofDirective tree.host d).result = .ok plan) (hs : dir.store plan files = (.ok stored, next)) :
    (∃ code source, plan.code = .ok code ∧ plan.source = .ok source ∧ next.read stored.path = .ok source ∧
        [Token.word "struct", Token.word unit] <:+: code) ∧
      (stored.path = dir.pathOf unit ↔ d.suffix.toList.all staysTogether = true) := by
  obtain ⟨name, hname, hunit, hread⟩ := hcall.unit_eq hx hp
  obtain ⟨hpath, code, source, hcode, hsource, hfile⟩ := BuilderDirectory.read_of_store hs
  refine ⟨⟨code, source, hcode, hsource, hfile, declares_of_code hcode hread⟩, ?_⟩
  have hhead : ∀ c ∈ plan.unit.toList.head?, isNameChar c = true := by
    intro c hc
    rw [hunit, head?_toList_append _ hname.nonempty] at hc
    exact hname.chars c (List.mem_of_head? hc)
  have hpaths : stored.path = dir.pathOf unit ↔ plan.unit = unit := by
    rw [hpath]
    constructor
    · intro h
      have habs : FilePath.isAbsolute (plan.unit ++ ".rs") = false := by
        rw [hunit, String.append_assoc]
        exact isAbsolute_of_isName hname _
      have hjoined := FilePath.eq_of_join_eq habs (isAbsolute_of_isName (isName_of_readIdentifier hread) ".rs") h
      exact (String.append_left_inj ".rs").mp hjoined
    · intro h
      rw [h]
  rw [hpaths, eq_identifier_iff hread hhead, hunit, String.toList_append, List.all_append, hname.staysTogether,
    Bool.true_and]

/-! ### A blank behind the suffix -/

/-- The arguments `target = Pair, suffix = "..."`. -/
def pairArguments (suffix : String) : List Token :=
  Token.word "target" :: Token.symbol "=" ++ Token.word "Pair" :: Token.symbol "," ++
    Token.word "suffix" :: Token.symbol "=" ++ [Token.text (Text.literal suffix)]

def pairAttribute (suffix : String) : Attribute where
  position := .start
  inner := false
  path := .mk false [.mk "builder_of" .none]
  pathAt := .start
  form := .list (pairArguments suffix) .start
  content := Token.word "builder_of" :: [.enclosed .parenthesis (pairArguments suffix)]

def pairDirective (suffix : String) : Directive :=
  ⟨.external "Pair" (some suffix) false .everywhere, .crateRoot 0, Scan.locate "src/lib.rs" .start⟩

/-- Sources that declare a struct without fields of its own. -/
def pairSources : SourceTree where
  roots := [.of ""]
  files := ["src/lib.rs"]
  findings := [.declared ⟨"Pair", .crateRoot 0, .everywhere, none, none, .named, [], ⟨"src/lib.rs", 1, 12⟩⟩]

def outFiles : FileTree := FileTree.empty.withFile "out/buildergen/notes.txt" (.text "kept")

theorem allLexed_pairArguments (suffix : String) : Token.AllLexed (pairArguments suffix) := by
  have htarget : IsName "target" := isName_ofList (List.cons_ne_nil _ _) rfl
  have hpair : IsName "Pair" := isName_ofList (List.cons_ne_nil _ _) rfl
  have hsuffix : IsName "suffix" := isName_ofList (List.cons_ne_nil _ _) rfl
  exact ⟨htarget, trivial, hpair, trivial, hsuffix, trivial, trivial, trivial⟩

/-- A marker in the crate root with these arguments. -/
theorem pairCall (suffix : String)
    (h : Scan.external "src/lib.rs" .everywhere (pairAttribute suffix) =
      .ok (.external "Pair" (some suffix) false .everywhere)) :
    DirectiveCall .builderOf (pairArguments suffix) .start [] (pairDirective suffix) := by
  exact @DirectiveCall.builderOf (pairAttribute suffix) (pairArguments suffix) [] .start (.crateRoot 0) "src/lib.rs"
    .everywhere _ rfl rfl (allLexed_pairArguments suffix) h

/-- The directory of the builders below the output directory. -/
def outDirectory : BuilderDirectory := ⟨"out/buildergen"⟩

theorem included_builder_is_written_for_pairs :
    ∃ plan stored next, (Outcome.ofDirective pairSources.host (pairDirective "Maker")).result = .ok plan ∧
      outDirectory.store plan outFiles = (.ok stored, next) ∧ stored.path = outDirectory.pathOf "PairMaker" := by
  obtain ⟨plan, stored, next, hp, hs⟩ := BuilderDirectory.exists_stored pairSources.host (pairDirective "Maker")
    outDirectory outFiles (by decide +kernel)
  have hcall := pairCall "Maker" (by decide +kernel)
  have hx : Expansion.inclusion "PairMaker" <:+ Expansion.expand .builderOf (pairArguments "Maker") .start [] :=
    ⟨[], rfl⟩
  exact ⟨plan, stored, next, hp, hs, (included_builder_is_written_iff hcall hx hp hs).2.mpr (by decide)⟩

/-- The compiler takes in `PairMaker.rs`, and the pass writes `PairMaker .rs`. -/
theorem a_blank_behind_the_suffix_names_another_file :
    ∃ plan stored next, DirectiveCall .builderOf (pairArguments "Maker ") .start [] (pairDirective "Maker ") ∧
      Expansion.expand .builderOf (pairArguments "Maker ") .start [] = Expansion.inclusion "PairMaker" ∧
      (Outcome.ofDirective pairSources.host (pairDirective "Maker ")).result = .ok plan ∧
      outDirectory.store plan outFiles = (.ok stored, next) ∧ stored.path ≠ outDirectory.pathOf "PairMaker" := by
  obtain ⟨plan, stored, next, hp, hs⟩ := BuilderDirectory.exists_stored pairSources.host (pairDirective "Maker ")
    outDirectory outFiles (by decide +kernel)
  refine ⟨plan, stored, next, pairCall "Maker " (by decide +kernel), rfl, hp, hs, ?_⟩
  have hunit : plan.unit = "PairMaker " := by
    have hall : (Outcome.ofDirective pairSources.host (pairDirective "Maker ")).plan?.all
      (fun plan => plan.unit == "PairMaker ") = true := by decide +kernel
    unfold Outcome.plan? at hall
    rw [hp] at hall
    exact beq_iff_eq.mp hall
  rw [(BuilderDirectory.read_of_store hs).1, hunit]
  decide +kernel

end BuilderSynthesis
