/-
  BuilderSynthesis.Proofs.Paths — what joining paths does to their components.

  A name that is one part of a path, joined to a directory, adds one component, however the
  directory is spelled, and more names add more of them (`components_joinAll`). So paths of different
  names in one directory are never the same. The order of paths is a total preorder: a list of them can
  be sorted, in one way only if no two are the same (`Before.asymm`).
-/

import BuilderSynthesis.Files.Path

namespace BuilderSynthesis

theorem head?_toList_append {a : String} (b : String) (h : a.toList ≠ []) :
    (a ++ b).toList.head? = a.toList.head? := by
  rw [String.toList_append]
  cases hc : a.toList with
  | nil => exact absurd hc h
  | cons c rest => rfl

theorem getLast?_toList_append (a : String) {b : String} (h : b.toList ≠ []) :
    (a ++ b).toList.getLast? = b.toList.getLast? := by
  rw [String.toList_append, List.getLast?_append]
  cases hc : b.toList.getLast? with
  | none => exact absurd (List.getLast?_eq_none_iff.mp hc) h
  | some c => rfl

namespace FilePath

/-! ## Parts between slashes -/

theorem splitSlashes_ne_nil (chars : List Char) : splitSlashes chars ≠ [] := by
  induction chars with
  | nil => simp [splitSlashes]
  | cons c rest ih =>
    unfold splitSlashes
    split
    · simp
    · split <;> simp

theorem splitSlashes_of_not_mem {chars : List Char} (h : '/' ∉ chars) : splitSlashes chars = [chars] := by
  induction chars with
  | nil => rfl
  | cons c rest ih =>
    have hc : c ≠ '/' := fun he => h (he ▸ List.mem_cons_self)
    have hr := ih fun hm => h (List.mem_cons_of_mem c hm)
    simp [splitSlashes, hc, hr]

theorem splitSlashes_append (before after : List Char) :
    splitSlashes (before ++ '/' :: after) = splitSlashes before ++ splitSlashes after := by
  induction before with
  | nil => rfl
  | cons c rest ih =>
    by_cases hc : c = '/'
    · subst hc
      simp only [List.cons_append, splitSlashes, beq_self_eq_true, if_true, ih]
    · have hne := splitSlashes_ne_nil rest
      cases hs : splitSlashes rest with
      | nil => exact absurd hs hne
      | cons part parts => simp [splitSlashes, hc, ih, hs]

/-! ## Names -/

/-- One part of a path that is no step. -/
def IsPart (name : String) : Prop := '/' ∉ name.toList ∧ ofPart name.toList = some (.name name)

theorem isName_iff (name : String) :
    isName name = true ↔ IsPart name ∧ (PathComponent.name name).isShort = true := by
  simp [isName, IsPart]

theorem IsPart.head?_ne {name : String} (h : IsPart name) : name.toList.head? ≠ some '/' := by
  intro he
  exact h.1 (List.mem_of_head? he)

theorem IsPart.ne_empty {name : String} (h : IsPart name) : name ≠ "" := by
  rintro rfl
  cases h.2

theorem IsPart.isRelative {name : String} (h : IsPart name) : isAbsolute name = false := beq_eq_false_iff_ne.mpr h.head?_ne

theorem ofPart_eq_name {part : List Char} (hn : part ≠ []) (hc : part ≠ ['.']) (hp : part ≠ ['.', '.']) :
    ofPart part = some (.name (String.ofList part)) := by
  simp [ofPart, hn, hc, hp]

/-- The name of the file of a unit is part of a path, whatever the unit, if that has no slash. -/
theorem isPart_source {unit : String} (h : '/' ∉ unit.toList) : IsPart (unit ++ ".rs") := by
  have hl : (unit ++ ".rs").toList = unit.toList ++ ['.', 'r', 's'] := by rw [String.toList_append]; rfl
  constructor
  · rw [hl]
    simpa using h
  · have hlen : 3 ≤ (unit ++ ".rs").toList.length := by rw [hl, List.length_append]; simp
    have hne : ∀ part : List Char, part.length < 3 → (unit ++ ".rs").toList ≠ part := by
      rintro part hp rfl
      omega
    rw [ofPart_eq_name (hne _ (by decide)) (hne _ (by decide)) (hne _ (by decide)), String.ofList_toList]

/-! ## Components of joined paths -/

/-- Of two texts with the same first parts, the one that goes on has the components of what follows. -/
theorem components_extend {long short : String} {parts more less : List (List Char)} (hp : parts ≠ [])
    (hlong : splitSlashes long.toList = parts ++ more) (hshort : splitSlashes short.toList = parts ++ less)
    (habs : isAbsolute long = isAbsolute short) (hless : less.filterMap ofPart = []) :
    components long = components short ++ more.filterMap ofPart := by
  have hhead : (splitSlashes long.toList).head? = (splitSlashes short.toList).head? := by
    rw [hlong, hshort]
    cases parts with
    | nil => exact absurd rfl hp
    | cons part parts => rfl
  simp only [components, habs, hhead]
  rw [hlong, hshort, List.filterMap_append, List.filterMap_append, hless, List.append_nil]
  split
  · rfl
  · split <;> rfl

theorem isAbsolute_append {a : String} (b : String) (ha : a ≠ "") : isAbsolute (a ++ b) = isAbsolute a := by
  unfold isAbsolute
  rw [head?_toList_append b fun hc => ha (String.toList_eq_nil_iff.mp hc)]

/-- A path that ends in a slash goes on with the name. -/
theorem components_append_part {dir name : String} (hd : dir.toList.getLast? = some '/') (hn : IsPart name) :
    components (dir ++ name) = components dir ++ [.name name] := by
  obtain ⟨before, hb⟩ := List.getLast?_eq_some_iff.mp hd
  have hlong : splitSlashes (dir ++ name).toList = splitSlashes before ++ [name.toList] := by
    rw [String.toList_append, hb, List.append_assoc, ← splitSlashes_of_not_mem hn.1]
    exact splitSlashes_append before name.toList
  have hshort : splitSlashes dir.toList = splitSlashes before ++ [[]] := by
    rw [hb]
    exact splitSlashes_append before []
  have hne : dir ≠ "" := by
    rintro rfl
    cases hd
  have h := components_extend (splitSlashes_ne_nil before) hlong hshort (isAbsolute_append name hne) rfl
  rw [h, List.filterMap_cons, hn.2]
  rfl

/-- A slash after a path changes nothing. -/
theorem components_append_slash {dir : String} (hd : dir ≠ "") : components (dir ++ "/") = components dir := by
  have hlong : splitSlashes (dir ++ "/").toList = splitSlashes dir.toList ++ [[]] := by
    rw [String.toList_append]
    exact splitSlashes_append dir.toList []
  have h := components_extend (splitSlashes_ne_nil _) hlong (List.append_nil _).symm (isAbsolute_append "/" hd) rfl
  rw [h]
  exact List.append_nil _

theorem components_join (dir : String) {name : String} (hn : IsPart name) :
    components (join dir name) = components dir ++ [.name name] := by
  have habs := hn.isRelative
  unfold join
  rw [habs, if_neg Bool.false_ne_true]
  by_cases he : dir = ""
  · subst he
    have hc : components name = [.name name] := by
      have hh : ¬ ([name.toList].head? == some ['.']) = true := by
        intro h
        have hdot : name.toList = ['.'] := by simpa using h
        have := hn.2
        rw [hdot] at this
        exact absurd this (by simp [ofPart])
      unfold components
      rw [splitSlashes_of_not_mem hn.1, habs, if_neg Bool.false_ne_true, if_neg hh]
      simp [hn.2]
    rw [if_pos (by simp), String.empty_append, hc]
    rfl
  · by_cases hl : dir.toList.getLast? = some '/'
    · rw [if_pos (by simp [hl])]
      exact components_append_part hl hn
    · rw [if_neg (by simp [he, hl]), components_append_part _ hn, components_append_slash he]
      rw [String.toList_append]
      exact List.getLast?_concat

theorem join_append (dir : String) {name : String} (h : IsPart name) (rest : String) : join dir (name ++ rest) = join dir name ++ rest := by
  unfold join
  rw [isAbsolute_append rest h.ne_empty, h.isRelative, if_neg Bool.false_ne_true, if_neg Bool.false_ne_true]
  split
  · exact String.append_assoc.symm
  · exact String.append_assoc.symm

/-- What is joined to a name goes on after a slash. -/
theorem join_join (dir : String) {name : String} (h : IsPart name) {path : String} (hp : isAbsolute path = false) :
    join (join dir name) path = join dir name ++ ("/" ++ path) := by
  have hlast : (join dir name).toList.getLast? = name.toList.getLast? := by
    have hname : name.toList ≠ [] := fun he => h.ne_empty (String.toList_eq_nil_iff.mp he)
    unfold join
    rw [h.isRelative, if_neg Bool.false_ne_true]
    split
    · exact getLast?_toList_append dir hname
    · exact getLast?_toList_append (dir ++ "/") hname
  have hne : join dir name ≠ "" := by
    intro he
    rw [he] at hlast
    exact h.ne_empty (String.toList_eq_nil_iff.mp (List.getLast?_eq_none_iff.mp hlast.symm))
  have hopen : ¬ (join dir name == "" || (join dir name).toList.getLast? == some '/') = true := by
    rw [hlast]
    simp only [Bool.or_eq_true, beq_iff_eq, not_or]
    exact ⟨hne, fun he => h.1 (List.mem_of_getLast? he)⟩
  generalize join dir name = before at hopen ⊢
  rw [join, hp, if_neg Bool.false_ne_true, if_neg hopen, String.append_assoc]

/-- The components of a path below a directory are those of the directory and its own names. -/
theorem components_joinAll (dir : String) {names : List String} (hne : names ≠ []) (h : ∀ name ∈ names, IsPart name) :
    components (joinAll dir names) = components dir ++ names.map .name := by
  induction names generalizing dir with
  | nil => exact absurd rfl hne
  | cons first rest ih =>
    have hfirst := h first List.mem_cons_self
    have hrest : ∀ name ∈ rest, IsPart name := fun name hn => h name (List.mem_cons_of_mem _ hn)
    cases rest with
    | nil =>
      rw [joinAll, List.isEmpty_cons, if_neg Bool.false_ne_true, String.intercalate_singleton, components_join dir hfirst]
      rfl
    | cons second more =>
      have hstart : isAbsolute ("/".intercalate (second :: more)) = false := by
        have hsecond := hrest second List.mem_cons_self
        cases more with
        | nil => rw [String.intercalate_singleton, hsecond.isRelative]
        | cons third others =>
          rw [String.intercalate_cons_cons, String.append_assoc, isAbsolute_append _ hsecond.ne_empty, hsecond.isRelative]
      have hcons : joinAll dir (first :: second :: more) = joinAll (join dir first) (second :: more) := by
        unfold joinAll
        rw [List.isEmpty_cons, List.isEmpty_cons, if_neg Bool.false_ne_true, if_neg Bool.false_ne_true,
          String.intercalate_cons_cons, String.append_assoc, join_append dir hfirst, join_join dir hfirst hstart]
      rw [hcons, ih (join dir first) (List.cons_ne_nil _ _) hrest, components_join dir hfirst, List.append_assoc]
      rfl

/-- Paths of two names in one directory are the same only if the names are. -/
theorem same_join_iff (dir : String) {a b : String} (ha : IsPart a) (hb : IsPart b) :
    same (join dir a) (join dir b) = true ↔ a = b := by
  unfold same
  rw [components_join dir ha, components_join dir hb]
  simp

theorem join_inj {dir a b : String} (ha : IsPart a) (hb : IsPart b) : join dir a = join dir b ↔ a = b := by
  constructor
  · intro h
    rw [← same_join_iff dir ha hb, h]
    simp [same]
  · rintro rfl
    rfl

/-- Relative paths below one directory are told apart. -/
theorem eq_of_join_eq {dir a b : String} (ha : isAbsolute a = false) (hb : isAbsolute b = false)
    (h : join dir a = join dir b) : a = b := by
  unfold join at h
  rw [ha, hb, if_neg Bool.false_ne_true, if_neg Bool.false_ne_true] at h
  split at h
  · exact (String.append_right_inj dir).mp h
  · exact (String.append_right_inj (dir ++ "/")).mp h

theorem isSource_join (dir : String) {name : String} (hn : IsPart name) :
    isSource (join dir name) = ((splitExtension name).2 == some "rs") := by
  simp [isSource, extension?, fileName?, components_join dir hn]

theorem splitExtension_source {name : String} (hne : name ≠ "") : splitExtension (name ++ ".rs") = (name, some "rs") := by
  have hl : (name ++ ".rs").toList = name.toList ++ ['.', 'r', 's'] := by rw [String.toList_append]; rfl
  have hafter : (name ++ ".rs").toList.reverse.takeWhile (· != '.') = ['s', 'r'] := by
    rw [hl]
    simp
  have hlen : (name ++ ".rs").length = name.toList.length + 3 := by
    rw [← String.length_toList, hl]
    simp
  have htoList : name.toList ≠ [] := fun he => hne (String.toList_eq_nil_iff.mp he)
  have hstem : (name ++ ".rs").toList.take ((name ++ ".rs").length - ['s', 'r'].length - 1) = name.toList := by
    rw [hlen, hl]
    exact List.take_left' (by simp)
  unfold splitExtension
  simp only [hafter, hstem]
  have hcond : ¬ (['s', 'r'].length == (name ++ ".rs").length || name.toList.isEmpty) = true := by
    rw [hlen]
    simp [htoList]
  rw [if_neg hcond, String.ofList_toList]
  rfl

/-- The file of a unit is a source. -/
theorem isSource_join_source (dir : String) {unit : String} (hs : '/' ∉ unit.toList) (hne : unit ≠ "") :
    isSource (join dir (unit ++ ".rs")) = true := by
  rw [isSource_join dir (isPart_source hs), splitExtension_source hne]
  rfl

/-! ## Order -/

theorem component_le_total (a b : PathComponent) : a.le b = true ∨ b.le a = true := by
  cases a <;> cases b <;> simp [PathComponent.le, PathComponent.rank]
  exact Std.Total.total _ _

theorem component_le_trans {a b c : PathComponent} (hab : a.le b = true) (hbc : b.le c = true) : a.le c = true := by
  cases a <;> cases b <;> cases c <;> simp_all [PathComponent.le, PathComponent.rank]
  exact String.le_trans hab hbc

theorem component_le_antisymm {a b : PathComponent} (hab : a.le b = true) (hba : b.le a = true) : a = b := by
  cases a <;> cases b <;> simp_all [PathComponent.le, PathComponent.rank]
  exact String.le_antisymm hab hba

theorem leComponents_total (as bs : List PathComponent) :
    leComponents as bs = true ∨ leComponents bs as = true := by
  induction as generalizing bs with
  | nil => exact Or.inl rfl
  | cons a as ih =>
    cases bs with
    | nil => exact Or.inr rfl
    | cons b bs =>
      by_cases h : a = b
      · subst h
        simpa [leComponents] using ih bs
      · simpa [leComponents, h, Ne.symm h] using component_le_total a b

theorem leComponents_trans {as bs cs : List PathComponent} (hab : leComponents as bs = true)
    (hbc : leComponents bs cs = true) : leComponents as cs = true := by
  induction as generalizing bs cs with
  | nil => rfl
  | cons a as ih =>
    cases bs with
    | nil => cases hab
    | cons b bs =>
      cases cs with
      | nil => cases hbc
      | cons c cs =>
        simp only [leComponents, beq_iff_eq] at hab hbc ⊢
        by_cases h₁ : a = b
        · subst h₁
          rw [if_pos rfl] at hab
          by_cases h₂ : a = c
          · subst h₂
            rw [if_pos rfl] at hbc ⊢
            exact ih hab hbc
          · rw [if_neg h₂] at hbc ⊢
            exact hbc
        · rw [if_neg h₁] at hab
          by_cases h₂ : b = c
          · subst h₂
            rw [if_neg h₁]
            exact hab
          · rw [if_neg h₂] at hbc
            by_cases h₃ : a = c
            · subst h₃
              exact absurd (component_le_antisymm hab hbc) h₁
            · rw [if_neg h₃]
              exact component_le_trans hab hbc

theorem le_total (a b : String) : (le a b || le b a) = true := by
  rw [Bool.or_eq_true]
  exact leComponents_total (components a) (components b)

theorem le_trans (a b c : String) (hab : le a b = true) (hbc : le b c = true) : le a c = true :=
  leComponents_trans hab hbc

/-- Comes before, component by component, and is not the same path. -/
def Before (a b : String) : Prop := le a b = true ∧ same a b = false

theorem leComponents_antisymm {as bs : List PathComponent} (hab : leComponents as bs = true)
    (hba : leComponents bs as = true) : as = bs := by
  induction as generalizing bs with
  | nil =>
    cases bs with
    | nil => rfl
    | cons b bs => cases hba
  | cons a as ih =>
    cases bs with
    | nil => cases hab
    | cons b bs =>
      simp only [leComponents, beq_iff_eq] at hab hba
      by_cases h : a = b
      · subst h
        rw [if_pos rfl] at hab hba
        rw [ih hab hba]
      · rw [if_neg h] at hab
        rw [if_neg (Ne.symm h)] at hba
        exact absurd (component_le_antisymm hab hba) h

theorem Before.ne {a b : String} (h : Before a b) : a ≠ b := by
  rintro rfl
  have hsame := h.2
  rw [same, beq_self_eq_true] at hsame
  cases hsame

/-- Two paths never come before each other. -/
theorem Before.asymm {a b : String} (hab : Before a b) (hba : Before b a) : a = b := by
  have heq := leComponents_antisymm hab.1 hba.1
  have hsame := hab.2
  rw [same, heq, beq_self_eq_true] at hsame
  cases hsame

end FilePath

end BuilderSynthesis
