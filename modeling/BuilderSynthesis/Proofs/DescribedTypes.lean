/-
  BuilderSynthesis.Proofs.DescribedTypes — described types are read back.

  Every plain type writes its descriptor (`exists_writes`), and so does a type for the descriptor with an
  optional element (`Writes.nullableElement`) and for the one with the mutable counterpart of a collection
  (`Writes.mutableCollection`). So whatever the modifiers are, the text of the descriptor is read as a type
  of the same text that is optional alike (`describe_reads_back`).
-/

import BuilderSynthesis.Proofs.DescriptorTexts
import BuilderSynthesis.Proofs.Lookup
import BuilderSynthesis.Plan.Describe

namespace BuilderSynthesis

open Syntax

namespace Descriptor

/-! ## Every plain type writes its descriptor -/

theorem plain_pathOf (leading : Bool) {names : List String} {last : String} (written : List Argument)
    (hnames : ∀ name ∈ names, IsPlainName name) (hlast : IsPlainName last)
    (htakes : (passed written).isNone = false → takesArguments last = true)
    (hplain : Argument.allPlain false written = true) (hproper : Argument.AllProper written) :
    (pathOf leading names last (passed written)).isOfPlain = true ∧ (pathOf leading names last (passed written)).Proper := by
  refine ⟨isOfPlain_pathOf.mpr ⟨fun name hn => (hnames name hn).2.2, hlast.2.2, passed_areOfPlain.trans hplain⟩, ?_⟩
  refine proper_pathOf.mpr ⟨fun name hn => ⟨(hnames name hn).1, (hnames name hn).2.1⟩, ⟨hlast.1, hlast.2.1, htakes⟩, ?_⟩
  exact passed_proper.mpr hproper

theorem Writes.cons {bare : Bool} {d : Descriptor} {a : Argument} {ds : List Descriptor} {as : List Argument}
    (hfirst : Writes bare [d] [a]) (hrest : Writes bare ds as) : Writes bare (d :: ds) (a :: as) := by
  cases hfirst with
  | lifetime h rest => exact .lifetime h hrest
  | primitive h rest => exact .primitive h hrest
  | named arguments_ plain_ proper option rest => exact .named arguments_ plain_ proper option hrest
  | array element_ h rest => exact .array element_ h hrest
  | slice element_ rest => exact .slice element_ hrest
  | reference h referent_ rest => exact .reference h referent_ hrest
  | verbatim plain_ proper h rest => exact .verbatim plain_ proper h hrest
  | optional inner rest => exact .optional inner hrest

theorem Writes.length_eq {bare : Bool} {ds : List Descriptor} {as : List Argument} (h : Writes bare ds as) :
    ds.length = as.length := h.spells.length_eq

theorem Writes.allProper {bare : Bool} {ds : List Descriptor} {as : List Argument} (h : Writes bare ds as) :
    Argument.AllProper as := Argument.allProper_iff.mpr fun a ha => (h.readable a ha).2

theorem Writes.isPlain {bare : Bool} {d : Descriptor} {t : TypeExpr} (h : Writes bare [d] [.type t]) : t.isPlain = true := by
  have hplain := (h.readable _ List.mem_cons_self).1
  rw [Argument.allPlain, Bool.and_eq_true] at hplain
  exact hplain.1

/-- What is kept as text is written as it is. -/
theorem exists_writes_verbatim (bare : Bool) {t : TypeExpr} (hplain : t.isPlain = true) (hproper : t.Proper)
    (h : TypeRef.ofType t = .verbatim (printed t.tokens)) : ∃ type, Writes bare [view bare (TypeRef.ofType t)] [.type type] := by
  have hview : view bare (.verbatim (printed t.tokens)) = plain (.verbatim (printed t.tokens)) [] := by
    cases bare <;> rfl
  rw [h, hview]
  exact ⟨t, .verbatim hplain hproper h (.nil bare)⟩

/-- A path without arguments is a primitive or has its names as text. -/
theorem exists_writes_name (bare leading : Bool) {names : List String} {last : String}
    (hnames : ∀ name ∈ names, IsPlainName name) (hlast : IsPlainName last) :
    ∃ type, Writes bare [view bare (TypeRef.ofType (.path (pathOf leading names last .none)))] [.type type] := by
  rw [TypeRef.ofType_pathOf_none]
  split
  · rename_i hprimitive
    have hview : view bare (.primitive (pathText leading names last)) = plain (.primitive (pathText leading names last)) [] := by
      cases bare <;> rfl
    rw [hview]
    exact ⟨_, .primitive (List.contains_iff_mem.mp (Bool.and_eq_true_iff.mp hprimitive).2) (.nil bare)⟩
  · obtain ⟨hplain, hproper⟩ := plain_pathOf leading [] hnames hlast nofun rfl trivial
    rw [view_path fun _ hl => absurd hl (by decide)]
    exact ⟨_, .named (.nil false) hplain hproper (fun _ hl => absurd hl (by decide)) (.nil bare)⟩

/-- A path with arguments is an option or has its names as text. -/
theorem exists_writes_path (bare leading : Bool) {names : List String} {last : String} {types : List TypeRef}
    (hnames : ∀ name ∈ names, IsPlainName name) (hlast : IsPlainName last) (htakes : takesArguments last = true)
    (h : ∀ bare, ∃ written, Writes bare (types.map (view bare)) written ∧ Argument.allPlain false written = true) :
    ∃ type, Writes bare [view bare (.path (pathText leading names last) types)] [.type type] := by
  by_cases hoption : bare = false ∧ types.length = 1 ∧ TypeRef.isOptionPath (pathText leading names last) = true
  · obtain ⟨rfl, hone, hpath⟩ := hoption
    obtain ⟨inner, rfl⟩ := List.length_eq_one_iff.mp hone
    obtain ⟨written, hw, -⟩ := h true
    obtain ⟨a, rfl⟩ := List.length_eq_one_iff.mp hw.length_eq.symm
    have hview : view false (.path (pathText leading names last) [inner]) = (structural inner).asNullable :=
      canonical_of_optional (if_pos hpath)
    have hnullable := structural_nullable inner
    rw [hview]
    have hinner : Writes true [structural inner] [a] := hw
    generalize structural inner = found at hinner hnullable
    obtain ⟨base, given, nullable, m⟩ := found
    obtain rfl : nullable = false := hnullable
    exact ⟨optionOf a, .optional hinner (.nil false)⟩
  · obtain ⟨written, hw, hallPlain⟩ := h false
    obtain ⟨hplain, hproper⟩ := plain_pathOf leading written hnames hlast (fun _ => htakes) hallPlain hw.allProper
    have hother : bare = false → types.length = 1 → TypeRef.isOptionPath (pathText leading names last) = false :=
      fun hb hl => Bool.eq_false_iff.mpr fun hp => hoption ⟨hb, hl, hp⟩
    rw [view_path hother]
    refine ⟨_, .named hw hplain hproper (fun hb hl => hother hb ?_) (.nil bare)⟩
    rw [← hl, List.length_map]

mutual

theorem exists_writes (bare : Bool) : ∀ {t : TypeExpr}, t.isPlain = true → t.Proper →
    ∃ type, Writes bare [view bare (TypeRef.ofType t)] [.type type]
  | .array element length, hplain, hproper => by
    obtain ⟨helement, hlength⟩ : element.isPlain = true ∧ isNumeral length = true := Bool.and_eq_true_iff.mp hplain
    obtain ⟨type, hw⟩ := exists_writes false helement hproper
    have hview : view bare (TypeRef.ofType (.array element length)) =
        plain (.array (printed length)) [canonical (TypeRef.ofType element)] := by
      cases bare <;> rfl
    exact ⟨.array type length, hview ▸ .array hw hlength (.nil bare)⟩
  | .slice element, hplain, hproper => by
    obtain ⟨type, hw⟩ := exists_writes false (t := element) hplain hproper
    have hview : view bare (TypeRef.ofType (.slice element)) = plain .slice [canonical (TypeRef.ofType element)] := by
      cases bare <;> rfl
    exact ⟨.slice type, hview ▸ .slice hw (.nil bare)⟩
  | .reference lifetime mutable referent, hplain, hproper => by
    obtain ⟨type, hw⟩ := exists_writes false (t := referent) hplain hproper.2
    have hview : view bare (TypeRef.ofType (.reference lifetime mutable referent)) =
        mk (.reference lifetime mutable) [canonical (TypeRef.ofType referent)] false false := by
      cases bare <;> rfl
    exact ⟨.reference lifetime (mutable || false) type, hview ▸ .reference hproper.1 hw (.nil bare)⟩
  | .path (.mk leading segments), hplain, hproper => by
    cases hs : TypeRef.ofSegments segments with
    | none =>
      refine exists_writes_verbatim bare hplain hproper ?_
      rw [TypeRef.ofType, TypeRef.ofPath, hs]
      rfl
    | some found =>
      obtain ⟨names, arguments⟩ := found
      obtain ⟨init, last, rfl, hinit, hlast, harguments⟩ := exists_writes_segments hplain hproper.2 hs
      cases arguments with
      | none =>
        have htype : TypeRef.ofType (.path (.mk leading segments)) = TypeRef.ofType (.path (pathOf leading init last .none)) := by
          rw [TypeRef.ofType_pathOf_none, TypeRef.ofType, TypeRef.ofPath, hs]
          rfl
        rw [htype]
        exact exists_writes_name bare leading hinit hlast
      | some types =>
        have htype : TypeRef.ofType (.path (.mk leading segments)) = .path (pathText leading init last) types := by
          rw [TypeRef.ofType, TypeRef.ofPath, hs]
          rfl
        obtain ⟨htakes, hwritten⟩ := harguments types rfl
        rw [htype]
        exact exists_writes_path bare leading hinit hlast htakes hwritten
  | .tuple elements trailing, hplain, hproper => exists_writes_verbatim bare hplain hproper rfl
  | .paren inner, hplain, hproper => exists_writes_verbatim bare hplain hproper rfl
  | .pointer mutable target, hplain, hproper => exists_writes_verbatim bare hplain hproper rfl
  | .never, hplain, hproper => exists_writes_verbatim bare hplain hproper rfl
  | .inferred, hplain, hproper => exists_writes_verbatim bare hplain hproper rfl
  | .qualified subject asTrait rest, hplain, hproper => exists_writes_verbatim bare hplain hproper rfl

theorem exists_writes_segments : ∀ {ss : List Segment} {names : List String} {arguments : Option (List TypeRef)},
    Segment.allOfPlain ss = true → Segment.AllProper ss → TypeRef.ofSegments ss = some (names, arguments) →
      ∃ init last, names = init ++ [last] ∧ (∀ name ∈ init, IsPlainName name) ∧ IsPlainName last ∧
        ∀ types ∈ arguments, takesArguments last = true ∧ ∀ bare, ∃ written, Writes bare (types.map (view bare)) written ∧
          Argument.allPlain false written = true
  | [], _, _, _, _, hs => by cases hs
  | [.mk name arguments], names, found, hplain, hproper, hs => by
    simp only [Segment.allOfPlain, Bool.and_eq_true, bne_iff_ne] at hplain
    obtain ⟨hname, hpath, htakes, harguments, -⟩ := hproper
    rw [TypeRef.ofSegments, Option.map_eq_some_iff] at hs
    obtain ⟨list, hlist, he⟩ := hs
    cases he
    refine ⟨[], name, rfl, nofun, ⟨hname, hpath, hplain.1.1⟩, fun types ht => ?_⟩
    cases arguments with
    | none => cases (Option.some.inj hlist).trans ht
    | angled turbofish arguments trailing =>
      obtain ⟨found, hfound, rfl⟩ := Option.map_eq_some_iff.mp hlist
      obtain rfl := Option.some.inj ht
      exact ⟨htakes rfl, fun bare => exists_writes_arguments bare hplain.1.2 harguments.2 hfound⟩
    | called inputs trailing output => cases hlist
  | .mk name arguments :: next :: rest, names, found, hplain, hproper, hs => by
    rw [Segment.allOfPlain, Bool.and_eq_true, Bool.and_eq_true, bne_iff_ne] at hplain
    obtain ⟨hname, hpath, htakes, harguments, hrest⟩ := hproper
    rw [TypeRef.ofSegments] at hs
    split at hs
    · obtain ⟨⟨others, list⟩, hlist, he⟩ := Option.map_eq_some_iff.mp hs
      cases he
      obtain ⟨init, last, rfl, hinit, hlast, hall⟩ := exists_writes_segments hplain.2 hrest hlist
      exact ⟨name :: init, last, rfl, List.forall_mem_cons.mpr ⟨⟨hname, hpath, hplain.1.1⟩, hinit⟩, hlast, hall⟩
    · cases hs

theorem exists_writes_arguments (bare : Bool) : ∀ {begun : Bool} {as : List Argument} {types : List TypeRef},
    Argument.allPlain begun as = true → Argument.AllProper as → TypeRef.ofArgumentList as = some types →
      ∃ written, Writes bare (types.map (view bare)) written ∧ Argument.allPlain begun written = true
  | _, [], _, _, _, hs => by
    cases hs
    exact ⟨[], .nil bare, rfl⟩
  | begun, .lifetime name :: rest, types, hplain, hproper, hs => by
    simp only [Argument.allPlain, Bool.and_eq_true] at hplain
    obtain ⟨others, hothers, rfl⟩ := Option.map_eq_some_iff.mp hs
    obtain ⟨written, hw, hwritten⟩ := exists_writes_arguments bare hplain.2 hproper.2 hothers
    have hview : view bare (.lifetime name) = plain (.lifetime name) [] := by
      cases bare <;> rfl
    refine ⟨.lifetime name :: written, ?_, ?_⟩
    · rw [List.map_cons, hview]
      exact .lifetime hproper.1 hw
    · rw [Argument.allPlain, hplain.1, hwritten]
      rfl
  | begun, .type type :: rest, types, hplain, hproper, hs => by
    simp only [Argument.allPlain, Bool.and_eq_true] at hplain
    obtain ⟨others, hothers, rfl⟩ := Option.map_eq_some_iff.mp hs
    obtain ⟨first, hfirst⟩ := exists_writes bare hplain.1 hproper.1
    obtain ⟨written, hw, hwritten⟩ := exists_writes_arguments bare hplain.2 hproper.2 hothers
    refine ⟨.type first :: written, hfirst.cons hw, ?_⟩
    rw [Argument.allPlain, hfirst.isPlain, hwritten]
    rfl

end

/-! ## The element made optional -/

theorem Writes.of_cons {bare : Bool} {d : Descriptor} {ds : List Descriptor} {as : List Argument}
    (h : Writes bare (d :: ds) as) : ∃ a more, as = a :: more ∧ Writes bare [d] [a] ∧ Writes bare ds more := by
  cases h with
  | lifetime h rest => exact ⟨_, _, rfl, .lifetime h (.nil _), rest⟩
  | primitive h rest => exact ⟨_, _, rfl, .primitive h (.nil _), rest⟩
  | named arguments_ plain_ proper option rest =>
    exact ⟨_, _, rfl, .named arguments_ plain_ proper option (.nil _), rest⟩
  | array element_ h rest => exact ⟨_, _, rfl, .array element_ h (.nil _), rest⟩
  | slice element_ rest => exact ⟨_, _, rfl, .slice element_ (.nil _), rest⟩
  | reference h referent_ rest => exact ⟨_, _, rfl, .reference h referent_ (.nil _), rest⟩
  | verbatim plain_ proper h rest => exact ⟨_, _, rfl, .verbatim plain_ proper h (.nil _), rest⟩
  | optional inner rest => exact ⟨_, _, rfl, .optional inner (.nil _), rest⟩

/-- A descriptor that is not optional is written by what stands inside an option. -/
theorem Writes.bared {d : Descriptor} {a : Argument} (h : Writes false [d] [a]) (hn : d.nullable = false) :
    Writes true [d] [a] := by
  cases h with
  | lifetime h rest => exact .lifetime h (.nil _)
  | primitive h rest => exact .primitive h (.nil _)
  | named arguments_ plain_ proper option rest => exact .named arguments_ plain_ proper nofun (.nil _)
  | array element_ h rest => exact .array element_ h (.nil _)
  | slice element_ rest => exact .slice element_ (.nil _)
  | reference h referent_ rest => exact .reference h referent_ (.nil _)
  | verbatim plain_ proper h rest => exact .verbatim plain_ proper h (.nil _)
  | optional inner rest => cases hn

/-- Only a lifetime is written by one. -/
theorem Writes.eq_of_lifetime {bare : Bool} {d : Descriptor} {name : String} (h : Writes bare [d] [.lifetime name]) :
    d = plain (.lifetime name) [] := by
  cases h
  rfl

theorem Writes.exists_type {bare : Bool} {d : Descriptor} {a : Argument} (h : Writes bare [d] [a]) (hd : d.isLifetime = false) :
    ∃ type, a = .type type := by
  cases a with
  | type type => exact ⟨type, rfl⟩
  | lifetime name =>
    rw [h.eq_of_lifetime] at hd
    cases hd
  | _ => cases h

theorem Writes.asNullable {d : Descriptor} {written : TypeExpr} (h : Writes false [d] [.type written]) :
    ∃ type, Writes false [d.asNullable] [.type type] := by
  cases hn : d.nullable with
  | true =>
    obtain ⟨base, arguments, nullable, m⟩ := d
    obtain rfl : nullable = true := hn
    exact ⟨written, h⟩
  | false =>
    have hbare := h.bared hn
    obtain ⟨base, arguments, nullable, m⟩ := d
    obtain rfl : nullable = false := hn
    exact ⟨optionOf (.type written), .optional hbare (.nil _)⟩

theorem nullableLast_single (d : Descriptor) : nullableLast [d] = if d.isLifetime then none else some [d.asNullable] := rfl

theorem Writes.nullableLast {ds adjusted : List Descriptor} {as : List Argument} (h : Writes false ds as)
    (hl : nullableLast ds = some adjusted) :
    ∃ written, Writes false adjusted written ∧
      ∀ begun, Argument.allPlain begun as = true → Argument.allPlain begun written = true := by
  induction ds generalizing as adjusted with
  | nil => cases hl
  | cons d rest ih =>
    obtain ⟨a, more, rfl, hfirst, hrest⟩ := h.of_cons
    rw [Descriptor.nullableLast] at hl
    split at hl
    · rename_i found hfound
      obtain ⟨written, hw, hplain⟩ := ih hrest hfound
      obtain rfl := Option.some.inj hl
      refine ⟨a :: written, hfirst.cons hw, fun begun hb => ?_⟩
      cases a <;> simp only [Argument.allPlain, Bool.and_eq_true] at hb ⊢
      all_goals first | exact ⟨hb.1, hplain _ hb.2⟩ | cases hb
    · split at hl
      · cases hl
      · rename_i hd
        obtain rfl := Option.some.inj hl
        have hd : d.isLifetime = false := Bool.eq_false_iff.mpr hd
        obtain ⟨type, rfl⟩ := hfirst.exists_type hd
        obtain ⟨found, hw⟩ := hfirst.asNullable
        refine ⟨.type found :: more, hw.cons hrest, fun begun hb => ?_⟩
        rw [Argument.allPlain, Bool.and_eq_true] at hb ⊢
        exact ⟨hw.isPlain, hb.2⟩

theorem nullableElement_optional {base : Base} {arguments : List Descriptor} {m : Bool} {d : Descriptor}
    (h : (mk base arguments true m).nullableElement? = some d) :
    ∃ found given, (mk base arguments false m).nullableElement? = some (mk found given false m) ∧ d = mk found given true m := by
  unfold nullableElement? at h ⊢
  cases base with
  | reference lifetime mutable =>
    cases arguments with
    | nil => cases h
    | cons referent rest =>
      obtain ⟨adjusted, ha, rfl⟩ := Option.map_eq_some_iff.mp h
      exact ⟨_, _, congrArg (Option.map _) ha, rfl⟩
  | _ =>
    obtain ⟨adjusted, ha, rfl⟩ := Option.map_eq_some_iff.mp h
    exact ⟨_, _, congrArg (Option.map _) ha, rfl⟩

theorem nullableLast_length {ds adjusted : List Descriptor} (h : nullableLast ds = some adjusted) :
    adjusted.length = ds.length := by
  induction ds generalizing adjusted with
  | nil => cases h
  | cons d rest ih =>
    rw [nullableLast] at h
    split at h
    · rename_i found hfound
      obtain rfl := Option.some.inj h
      exact congrArg Nat.succ (ih hfound)
    · split at h
      · cases h
      · obtain rfl := Option.some.inj h
        rfl

theorem Writes.nullableElement {bare : Bool} {ds : List Descriptor} {as : List Argument} (h : Writes bare ds as) :
    ∀ d ∈ ds.head?, ∀ adjusted, d.nullableElement? = some adjusted → ∃ type, Writes bare [adjusted] [.type type] := by
  -- of one argument that is a type, the element is that argument
  have hsingle : ∀ {element : Descriptor} {type : TypeExpr} {found : List Descriptor}, Writes false [element] [.type type] →
      Descriptor.nullableLast [element] = some found → ∃ adjusted written, found = [adjusted] ∧ Writes false [adjusted] [.type written] := by
    intro element type found hw hl
    rw [nullableLast_single] at hl
    split at hl
    · cases hl
    · obtain ⟨written, hwritten⟩ := hw.asNullable
      exact ⟨_, written, (Option.some.inj hl).symm, hwritten⟩
  induction h with
  | nil => exact fun d hd => by cases hd
  | lifetime h rest ih =>
    rintro d ⟨⟩ adjusted ha
    cases ha
  | primitive h rest ih =>
    rintro d ⟨⟩ adjusted ha
    cases ha
  | @named bare leading names last arguments written m ds as arguments_ plain_ proper option rest iha ih =>
    rintro d ⟨⟩ adjusted ha
    obtain ⟨found, hfound, rfl⟩ := Option.map_eq_some_iff.mp ha
    obtain ⟨again, hw, hagain⟩ := arguments_.nullableLast hfound
    obtain ⟨hnames, hlast, hplain⟩ := isOfPlain_pathOf.mp plain_
    obtain ⟨hidentifiers, htake, -⟩ := proper_pathOf.mp proper
    have hgiven : written ≠ [] := by
      rintro rfl
      cases arguments_
      cases hfound
    have htakes : takesArguments last = true := htake.2.2 (by cases written <;> first | rfl | exact absurd rfl hgiven)
    obtain ⟨hplain, hproper⟩ := plain_pathOf leading again
      (fun name hn => ⟨(hidentifiers name hn).1, (hidentifiers name hn).2, hnames name hn⟩)
      ⟨htake.1, htake.2.1, hlast⟩ (fun _ => htakes) (hagain false (passed_areOfPlain.symm.trans hplain)) hw.allProper
    exact ⟨_, .named hw hplain hproper (fun hb hl => option hb (by rw [← nullableLast_length hfound, hl])) (.nil _)⟩
  | array element_ h rest ihe ih =>
    rintro d ⟨⟩ adjusted ha
    obtain ⟨found, hfound, rfl⟩ := Option.map_eq_some_iff.mp ha
    obtain ⟨again, written, rfl, hw⟩ := hsingle element_ hfound
    exact ⟨_, .array hw h (.nil _)⟩
  | slice element_ rest ihe ih =>
    rintro d ⟨⟩ adjusted ha
    obtain ⟨found, hfound, rfl⟩ := Option.map_eq_some_iff.mp ha
    obtain ⟨again, written, rfl, hw⟩ := hsingle element_ hfound
    exact ⟨_, .slice hw (.nil _)⟩
  | reference h referent_ rest ihr ih =>
    rintro d ⟨⟩ adjusted ha
    rw [nullableElement?] at ha
    obtain ⟨found, hfound, rfl⟩ := Option.map_eq_some_iff.mp ha
    obtain ⟨type, hw⟩ := ihr _ rfl found hfound
    exact ⟨_, .reference h hw (.nil _)⟩
  | verbatim plain_ proper h rest ih =>
    rintro d ⟨⟩ adjusted ha
    cases ha
  | optional inner rest ihi ih =>
    rintro d ⟨⟩ adjusted ha
    obtain ⟨found, given, hfound, rfl⟩ := nullableElement_optional ha
    obtain ⟨type, hw⟩ := ihi _ rfl _ hfound
    exact ⟨_, .optional hw (.nil _)⟩

end Descriptor

/-! ## The end of a path -/

/-- The text of a path ends in its last name, and before that in a separator. -/
theorem pathText_eq (leading : Bool) (names : List String) :
    ∃ start : List Char, (start = [] ∨ ∃ more, start = more ++ [':', ':']) ∧
      ∀ last, (pathText leading names last).toList = start ++ last.toList := by
  have hnames : ∃ start : List Char, (start = [] ∨ ∃ more, start = more ++ [':', ':']) ∧
      ∀ last, ("::".intercalate (names ++ [last])).toList = start ++ last.toList := by
    induction names with
    | nil => exact ⟨[], .inl rfl, fun last => by rw [List.nil_append, String.intercalate_singleton]; rfl⟩
    | cons name rest ih =>
      obtain ⟨start, hstart, htext⟩ := ih
      refine ⟨name.toList ++ ([':', ':'] ++ start), .inr ?_, fun last => ?_⟩
      · rcases hstart with rfl | ⟨more, rfl⟩
        · exact ⟨name.toList, by rw [List.append_nil]⟩
        · exact ⟨name.toList ++ ([':', ':'] ++ more), by simp⟩
      · rw [List.cons_append, String.intercalate_cons_of_ne_nil (List.append_ne_nil_of_right_ne_nil _ (List.cons_ne_nil _ _)),
          String.toList_append, String.toList_append, htext last]
        simp
  obtain ⟨start, hstart, htext⟩ := hnames
  cases leading with
  | false =>
    refine ⟨start, hstart, fun last => ?_⟩
    rw [pathText, String.toList_append, htext last]
    rfl
  | true =>
    refine ⟨[':', ':'] ++ start, .inr ?_, fun last => ?_⟩
    · rcases hstart with rfl | ⟨more, rfl⟩
      · exact ⟨[], rfl⟩
      · exact ⟨[':', ':'] ++ more, (List.append_assoc ..).symm⟩
    · rw [pathText, String.toList_append, htext last]
      rfl

theorem segmentsFromEnd_pathText (leading : Bool) (names : List String) {last : String} (h : ∀ c ∈ last.toList, c ≠ ':') :
    (Text.segmentsFromEnd (pathText leading names last)).head? = some last := by
  obtain ⟨start, hstart, htext⟩ := pathText_eq leading names
  have hreverse : ∀ c ∈ last.toList.reverse, c ≠ ':' := fun c hc => h c (List.mem_reverse.mp hc)
  unfold Text.segmentsFromEnd
  rw [htext last, List.reverse_append]
  rcases hstart with rfl | ⟨more, rfl⟩
  · rw [List.reverse_nil, List.append_nil, Text.splitSegments_of_no_colon hreverse]
    simp
  · rw [List.reverse_append]
    have hcolons : [':', ':'].reverse ++ more.reverse = ':' :: ':' :: more.reverse := rfl
    rw [hcolons, Text.splitSegments_append hreverse]
    simp

/-- A borrowing iterator becomes the one that lends mutably by another last name. -/
theorem counterpart_pathText {leading : Bool} {names : List String} {last counterpart : String}
    (h : ∀ c ∈ last.toList, c ≠ ':') (hform : iteratorForm? (pathText leading names last) = some (.iterator counterpart)) :
    ∃ writing ∈ ["IterMut", "ValuesMut"], counterpart = pathText leading names writing := by
  obtain ⟨start, -, htext⟩ := pathText_eq leading names
  have hhead := segmentsFromEnd_pathText leading names h
  unfold iteratorForm? at hform
  split at hform
  · rename_i name module others hsegments
    rw [hsegments] at hhead
    obtain rfl := Option.some.inj hhead
    obtain ⟨⟨found, reading, writing⟩, hfound, he⟩ := List.exists_of_findSome?_eq_some hform
    have hwriting : ∀ entry ∈ borrowingIterators, entry.2.2 ∈ ["IterMut", "ValuesMut"] := by decide
    refine ⟨writing, hwriting _ (List.mem_of_mem_filter hfound), ?_⟩
    simp only at he
    split at he
    · have hlength : (pathText leading names name).length - name.length = start.length := by
        rw [← String.length_toList, ← String.length_toList, htext name, List.length_append, Nat.add_sub_cancel]
      cases he
      rw [← String.toList_inj, htext writing, String.toList_append, String.toList_ofList, hlength, htext name, List.take_left]
    · split at he <;> cases he
  · cases hform

theorem withoutLeadingSeparators_suffix (cs : List Char) : Text.withoutLeadingSeparators.go cs <:+ cs := by
  fun_induction Text.withoutLeadingSeparators.go cs with
  | case1 rest ih => exact ih.trans ((List.suffix_cons _ _).trans (List.suffix_cons _ _))
  | case2 rest => exact List.suffix_rfl

/-- The paths of options end in another letter. -/
theorem isOptionPath_counterpart {leading : Bool} {names : List String} {writing : String}
    (h : writing ∈ ["IterMut", "ValuesMut"]) : TypeRef.isOptionPath (pathText leading names writing) = false := by
  obtain ⟨start, -, htext⟩ := pathText_eq leading names
  have hlast : (start ++ writing.toList).getLast? = some 't' := by
    have hwriting : ∀ writing ∈ ["IterMut", "ValuesMut"], writing.toList.getLast? = some 't' := by decide
    rw [List.getLast?_append, hwriting writing h]
    rfl
  refine Bool.eq_false_iff.mpr fun hoption => ?_
  have hmem := List.contains_iff_mem.mp hoption
  have hend : ∀ path ∈ ["Option", "option::Option", "std::option::Option", "core::option::Option"],
      path.toList.getLast? = some 'n' := by decide
  have hn := hend _ hmem
  rw [Text.withoutLeadingSeparators, String.toList_ofList, htext writing] at hn
  obtain ⟨before, hbefore⟩ := withoutLeadingSeparators_suffix (start ++ writing.toList)
  rw [← hbefore, List.getLast?_append, hn] at hlast
  cases hlast

namespace Descriptor

/-! ## The mutable counterpart -/

theorem iteratorForm_ne_borrowed (path : String) {kind : CollectionKind} {mutable : Bool} :
    iteratorForm? path ≠ some (.borrowed kind mutable) := by
  intro h
  unfold iteratorForm? at h
  split at h
  · obtain ⟨entry, -, he⟩ := List.exists_of_findSome?_eq_some h
    simp only at he
    split at he
    · cases he
    · split at he <;> cases he
  · cases h

/-- What changes when a collection is made mutable. -/
theorem asMutableCollection_eq_ok {base : Base} {arguments : List Descriptor} {n m : Bool} {d : Descriptor}
    (h : (mk base arguments n m).asMutableCollection = .ok d) :
    d = mk base arguments n m ∨ (∃ lifetime mutable, base = .reference lifetime mutable ∧ d = mk base arguments n true) ∨
      ∃ path counterpart, base = .named path ∧ iteratorForm? path = some (.iterator counterpart) ∧
        d = mk (.named counterpart) arguments n true := by
  unfold asMutableCollection at h
  split at h
  · cases h
  · exact .inl (Except.ok.inj h).symm
  · exact .inl (Except.ok.inj h).symm
  · rename_i kind hform
    refine .inr (.inl ?_)
    cases base with
    | reference lifetime mutable => exact ⟨lifetime, mutable, rfl, (Except.ok.inj h).symm⟩
    | named path => exact absurd hform (iteratorForm_ne_borrowed path)
    | _ => cases hform
  · rename_i counterpart hform
    refine .inr (.inr ?_)
    cases base with
    | reference lifetime mutable =>
      obtain ⟨kind, -, hkind⟩ := Option.map_eq_some_iff.mp hform
      cases hkind
    | named path => exact ⟨path, counterpart, rfl, hform, (Except.ok.inj h).symm⟩
    | _ => cases hform

/-- A change that works inside an option works on the option. -/
theorem Writes.within {base changed : Base} {given arguments : List Descriptor} {m k : Bool}
    (h : ∀ {bare a}, Writes bare [mk base given false m] [a] → ∃ written, Writes bare [mk changed arguments false k] [written])
    {bare n : Bool} {a : Argument} (hw : Writes bare [mk base given n m] [a]) :
    ∃ written, Writes bare [mk changed arguments n k] [written] := by
  cases n with
  | false => exact h hw
  | true =>
    cases hw with
    | optional inner rest =>
      obtain ⟨written, hwritten⟩ := h inner
      exact ⟨_, .optional hwritten (.nil _)⟩

theorem Writes.mutableReference {lifetime : Option String} {mutable : Bool} {arguments : List Descriptor} {n m bare : Bool}
    {a : Argument} (h : Writes bare [mk (.reference lifetime mutable) arguments n m] [a]) :
    ∃ written, Writes bare [mk (.reference lifetime mutable) arguments n true] [written] := by
  refine Writes.within (fun hw => ?_) h
  cases hw with
  | reference hlifetime referent_ rest => exact ⟨_, .reference hlifetime referent_ (.nil _)⟩

theorem Writes.counterpart {path counterpart : String} {arguments : List Descriptor} {n m bare : Bool} {a : Argument}
    (hform : iteratorForm? path = some (.iterator counterpart)) (h : Writes bare [mk (.named path) arguments n m] [a]) :
    ∃ written, Writes bare [mk (.named counterpart) arguments n true] [written] := by
  refine Writes.within (fun hw => ?_) h
  cases hw with
  | @named _ leading names last _ written _ _ _ arguments_ plain_ proper option rest =>
    obtain ⟨hnames, hlast, hplain⟩ := isOfPlain_pathOf.mp plain_
    obtain ⟨hidentifiers, htake, hproper⟩ := proper_pathOf.mp proper
    obtain ⟨writing, hwriting, rfl⟩ := counterpart_pathText (isName_of_isIdentifier htake.1).ne_colon hform
    have hname : ∀ writing ∈ ["IterMut", "ValuesMut"], IsPlainName writing ∧ takesArguments writing = true := by
      unfold IsPlainName
      decide
    obtain ⟨hplain, hproper⟩ := plain_pathOf leading written
      (fun name hn => ⟨(hidentifiers name hn).1, (hidentifiers name hn).2, hnames name hn⟩) (hname writing hwriting).1
      (fun _ => (hname writing hwriting).2) (passed_areOfPlain.symm.trans hplain) (passed_proper.mp hproper)
    exact ⟨_, .named arguments_ hplain hproper (fun _ _ => isOptionPath_counterpart hwriting) (.nil _)⟩

theorem Writes.mutableCollection {bare : Bool} {d adjusted : Descriptor} {type : TypeExpr} (h : Writes bare [d] [.type type])
    (ha : d.asMutableCollection = .ok adjusted) : ∃ type, Writes bare [adjusted] [.type type] := by
  have htype : ∀ {d : Descriptor} {a : Argument}, Writes bare [d] [a] → d.isLifetime = false →
      ∃ type, Writes bare [d] [.type type] := by
    intro d a hw hd
    obtain ⟨type, rfl⟩ := hw.exists_type hd
    exact ⟨type, hw⟩
  obtain ⟨base, arguments, n, m⟩ := d
  rcases asMutableCollection_eq_ok ha with rfl | ⟨lifetime, mutable, rfl, rfl⟩ | ⟨path, counterpart, rfl, hform, rfl⟩
  · exact ⟨type, h⟩
  · obtain ⟨written, hw⟩ := h.mutableReference
    exact htype hw rfl
  · obtain ⟨written, hw⟩ := h.counterpart hform
    exact htype hw rfl

/-! ## Described types -/

theorem Writes.adjustIf (asked : Bool) (adjust : Descriptor → Except AdjustmentError Descriptor) (location : Location)
    {d : Descriptor} {type : TypeExpr} (h : Writes false [d] [.type type])
    (hadjust : ∀ adjusted, adjust d = .ok adjusted → ∃ type, Writes false [adjusted] [.type type]) :
    ∃ type, Writes false [(adjustIf asked adjust location d).1] [.type type] := by
  unfold Descriptor.adjustIf
  split
  · split
    · exact hadjust _ ‹_›
    · exact ⟨type, h⟩
  · exact ⟨type, h⟩

theorem exists_writes_describe {t : TypeExpr} (hplain : t.isPlain = true) (hproper : t.Proper) (modifiers : Modifiers)
    (location : Location) : ∃ type, Writes false [(describe (TypeRef.ofType t) modifiers location).1] [.type type] := by
  obtain ⟨first, hfirst⟩ := exists_writes false hplain hproper
  have helement : ∀ adjusted, withNullableElement (canonical (TypeRef.ofType t)) = .ok adjusted →
      ∃ type, Writes false [adjusted] [.type type] := by
    intro adjusted ha
    unfold withNullableElement at ha
    split at ha
    · rename_i found hfound
      obtain rfl := Except.ok.inj ha
      exact hfirst.nullableElement _ rfl _ hfound
    · cases ha
  obtain ⟨second, hsecond⟩ := hfirst.adjustIf modifiers.nullableElement withNullableElement location helement
  exact hsecond.adjustIf modifiers.mutable asMutableCollection location fun adjusted ha => hsecond.mutableCollection ha

/-- The text of a descriptor that a type writes is read as that type. -/
theorem Writes.readType {d : Descriptor} {t : TypeExpr} (h : Writes false [d] [.type t]) :
    Syntax.readType d.text = .ok t ∧ (canonical (TypeRef.ofType t)).text = d.text ∧
      (canonical (TypeRef.ofType t)).nullable = d.nullable := by
  refine ⟨readType_of_spells h.isPlain h.allProper.1 ?_, ?_⟩
  · cases h.spells with
    | cons hspells _ => exact hspells
  · cases h.seen.2 with
    | cons hseen _ => exact hseen

theorem exists_of_any (text : String) (p : TypeExpr → Bool) (h : (readType text).toOption.any p = true) :
    ∃ t, readType text = .ok t ∧ p t = true := by
  cases hr : Syntax.readType text with
  | error problem =>
    rw [hr] at h
    cases h
  | ok t =>
    rw [hr] at h
    exact ⟨t, rfl, h⟩

end Descriptor

end BuilderSynthesis
