/-
  BuilderSynthesis.Proofs.Structs — which name a reader takes for that of a struct.

  Attributes and a visibility come first, then the word `struct` and the name (`structName?`). An
  item that is read as a struct has that name (`structName?_of_item`), and so has a struct for which
  something is derived (`structName?_of_deriveInput`), whatever grammar its parts are read with. The
  name can therefore be found in the tokens alone, and two readers of one struct agree on it.
-/

import BuilderSynthesis.Proofs.Reading

namespace BuilderSynthesis.Syntax

/-! ## The name in the tokens -/

/-- Without the attributes at the front. -/
def afterAttributes : List Token → List Token
  | .punct '#' _ _ :: .group .bracket _ _ _ :: rest => afterAttributes rest
  | ts => ts

/-- The tree restricts a visibility before it. -/
def restricts : Token → Bool
  | .group .parenthesis [.ident name _] _ _ => name == "crate" || name == "self" || name == "super" || name == "in"
  | .group .parenthesis (.ident "in" _ :: _) _ _ => true
  | _ => false

def afterRestriction : List Token → List Token
  | t :: rest => if restricts t then rest else t :: rest
  | [] => []

/-- Without the visibility at the front. -/
def afterVisibility : List Token → List Token
  | .ident "pub" _ :: rest => afterRestriction rest
  | ts => ts

/-- The name after the word `struct`. -/
def namedAfterStruct? : List Token → Option String
  | .ident "struct" _ :: .ident name _ :: _ => some name
  | _ => none

/-- The name of the struct that tokens without attributes declare. -/
def structName? (core : List Token) : Option String := namedAfterStruct? (afterVisibility core)

theorem afterAttributes_suffix (ts : List Token) : afterAttributes ts <:+ ts := by
  induction ts using afterAttributes.induct with
  | case1 joint pos content opensAt closesAt rest ih =>
    rw [afterAttributes]
    exact ih.trans (List.suffix_append [_, _] _)
  | case2 ts hts =>
    exact (afterAttributes.eq_2 ts hts).symm ▸ List.suffix_refl ts

theorem afterVisibility_suffix (ts : List Token) : afterVisibility ts <:+ ts := by
  have hrestriction : ∀ rest : List Token, afterRestriction rest <:+ rest := by
    intro rest
    cases rest with
    | nil => exact List.suffix_refl _
    | cons t more =>
      rw [afterRestriction]
      split
      · exact List.suffix_cons _ _
      · exact List.suffix_refl _
  unfold afterVisibility
  split
  · exact (hrestriction _).trans (List.suffix_cons _ _)
  · exact List.suffix_refl _

theorem namedAfterStruct?_eq_some {ts : List Token} {name : String} (h : namedAfterStruct? ts = some name) :
    ∃ pos namePos rest, ts = .ident "struct" pos :: .ident name namePos :: rest := by
  unfold namedAfterStruct? at h
  split at h
  · cases h
    exact ⟨_, _, _, rfl⟩
  · cases h

theorem isName_of_structName? {core : List Token} {name : String} (hs : Token.AllLexed core)
    (h : structName? core = some name) : IsName name := by
  obtain ⟨pos, namePos, rest, hr⟩ := namedAfterStruct?_eq_some h
  have hlexed := hs.of_suffix (afterVisibility_suffix core)
  rw [hr] at hlexed
  exact hlexed.2.1

/-- Tokens that follow do not change the name. -/
theorem structName?_append {core : List Token} {name : String} (more : List Token) (h : structName? core = some name) :
    structName? (core ++ more) = some name := by
  obtain ⟨pos, namePos, rest, hr⟩ := namedAfterStruct?_eq_some h
  have hvisible : afterVisibility (core ++ more) = afterVisibility core ++ more := by
    match core, hr with
    | [t], hr =>
      have hlength := congrArg List.length hr
      have hshort := (afterVisibility_suffix [t]).length_le
      simp only [List.length_cons, List.length_nil] at hlength hshort
      omega
    | t :: u :: others, hr =>
      by_cases ht : ∃ pos, t = .ident "pub" pos
      · obtain ⟨pubPos, rfl⟩ := ht
        show afterRestriction (u :: (others ++ more)) = afterRestriction (u :: others) ++ more
        rw [afterRestriction, afterRestriction]
        split <;> rfl
      · have hself : ∀ tail, afterVisibility (t :: tail) = t :: tail := by
          intro tail
          unfold afterVisibility
          split
          · rename_i heq
            cases heq
            exact absurd ⟨_, rfl⟩ ht
          · rfl
        rw [List.cons_append, hself, hself]
        rfl
  unfold structName?
  rw [hvisible, hr]
  rfl

namespace Parser

variable {α β : Type}

/-! ## What single readers take -/

theorem mark_eq_ok {operator : String} {s after : Stream} (h : mark operator s = .ok ((), after)) :
    (afterMarks operator.toList s.rest).isSome = true ∧ after.rest = s.rest.drop operator.toList.length ∧
      after.written = (Token.symbol operator).reverse ++ s.written := by
  unfold mark inspect at h
  simp only at h
  split at h
  · rename_i rest hm
    obtain ⟨_, middle, hs, hw⟩ := bind_eq_ok h
    cases hs
    cases hw
    exact ⟨by rw [hm]; rfl, rfl, rfl⟩
  · obtain ⟨position, middle, -, hf⟩ := bind_eq_ok h
    cases hf

theorem word_eq_ok {name : String} {s after : Stream} (h : word name s = .ok ((), after)) :
    ∃ pos, s.rest = .ident name pos :: after.rest ∧ after.written = Token.word name :: s.written := by
  unfold word inspect at h
  simp only at h
  split at h
  · rename_i found pos rest hr
    split at h
    · rename_i hf
      obtain ⟨_, middle, hs, hw⟩ := bind_eq_ok h
      cases hs
      cases hw
      exact ⟨pos, by rw [hr, beq_iff_eq.mp hf]; rfl, rfl⟩
    · exact absurd h fail_ne_ok
  · exact absurd h fail_ne_ok

theorem rest_of_inside {delimiter : Delimiter} {p : Parser α} {s after : Stream} {a : α}
    (h : inside delimiter p s = .ok (a, after)) :
    ∃ content opensAt closesAt, s.rest = .group delimiter content opensAt closesAt :: after.rest := by
  obtain ⟨content, opensAt, closesAt, rest, inner, hr, -, rfl⟩ := inside_eq_ok h
  exact ⟨content, opensAt, closesAt, hr⟩

theorem sees_eq_ok {e : Expected} {s after : Stream} {stands : Bool} (h : sees e s = .ok (stands, after)) :
    stands = e.stands s.rest ∧ after = s := by
  cases h
  exact ⟨rfl, rfl⟩

/-- A turn reads an item that is seen and goes on, or ends where nothing is seen. -/
theorem turns_whileStep_eq_ok {e : Expected} {p : Parser α} {n : Nat} {before read : List α} {s after : Stream}
    (h : turns (whileStep (sees e) p) (n + 1) before s = .ok (read, after)) :
    (∃ a next, p s = .ok (a, next) ∧ turns (whileStep (sees e) p) n (a :: before) next = .ok (read, after)) ∨
      e.stands s.rest = false ∧ read = before.reverse ∧ after = s := by
  obtain ⟨turn, middle, hturn, hnext⟩ := bind_eq_ok h
  obtain ⟨stands, _, hsees, hturn⟩ := bind_eq_ok hturn
  obtain ⟨rfl, rfl⟩ := sees_eq_ok hsees
  split at hturn
  · obtain ⟨a, next, ha, hagain⟩ := bind_eq_ok hturn
    cases hagain
    exact Or.inl ⟨a, _, ha, hnext⟩
  · rename_i hstands
    cases hturn
    cases hnext
    exact Or.inr ⟨Bool.eq_false_iff.mpr hstands, rfl, rfl⟩

/-- Reading on while something is seen takes everything that is stripped from the front. -/
theorem rest_of_whileSeen {e : Expected} {p : Parser α} {strip : List Token → List Token} {s after : Stream}
    {read : List α}
    (hp : ∀ {s a after}, p s = .ok (a, after) → strip after.rest = strip s.rest)
    (hend : ∀ ts, e.stands ts = false → strip ts = ts) (h : whileSeen (sees e) p s = .ok (read, after)) :
    after.rest = strip s.rest := by
  replace h : turns (whileStep (sees e) p) (s.rest.length + 1) [] s = .ok (read, after) := h
  generalize s.rest.length + 1 = turns at h
  generalize ([] : List α) = before at h
  induction turns generalizing s before with
  | zero => exact absurd h fail_ne_ok
  | succ n ih =>
    rcases turns_whileStep_eq_ok h with ⟨a, next, ha, hnext⟩ | ⟨hstands, -, rfl⟩
    · rw [← hp ha]
      exact ih _ hnext
    · exact (hend _ hstands).symm

theorem discard_eq_ok {p : Parser α} {s after : Stream} {u : Unit} (h : discard p s = .ok (u, after)) :
    ∃ a, p s = .ok (a, after) := by
  obtain ⟨a, middle, hp, hu⟩ := bind_eq_ok h
  cases hu
  exact ⟨a, hp⟩

end Parser

namespace Read

open BuilderSynthesis.Syntax.Parser

variable (g : Grammar) {s after : Stream}

/-! ## Attributes -/

theorem rest_of_singleAttribute {attr : Attribute} (h : singleAttribute g false s = .ok (attr, after)) :
    afterAttributes after.rest = afterAttributes s.rest := by
  obtain ⟨position, _, hhere, h⟩ := bind_eq_ok h
  cases hhere
  obtain ⟨_, marked, hmark, h⟩ := bind_eq_ok h
  obtain ⟨hm, hrest, -⟩ := mark_eq_ok hmark
  obtain ⟨joint, pos, rest, hr⟩ := exists_punct_of_afterMarks hm
  obtain ⟨content, opensAt, closesAt, hg⟩ := rest_of_inside h
  rw [hr] at hrest
  rw [hr, ← show marked.rest = rest from hrest, hg]
  rfl

theorem afterAttributes_eq_self {ts : List Token} (h : (Expected.mark "#").stands ts = false) :
    afterAttributes ts = ts := by
  unfold afterAttributes
  split
  · rename_i joint pos content opensAt closesAt rest
    have hstands : (Expected.mark "#").stands
      (.punct '#' joint pos :: .group .bracket content opensAt closesAt :: rest) = true := rfl
    rw [hstands] at h
    cases h
  · rfl

theorem rest_of_outerAttributes {attrs : List Attribute} (h : outerAttributes g s = .ok (attrs, after)) :
    after.rest = afterAttributes s.rest :=
  rest_of_whileSeen (rest_of_singleAttribute g) (fun _ => afterAttributes_eq_self) h

/-! ## Visibility -/

theorem group_of_restriction {α : Type} {p : Parser α} {restricted : Bool}
    (h : (do discard (inside .parenthesis p); pure true) s = .ok (restricted, after)) :
    ∃ content opensAt closesAt, s.rest = .group .parenthesis content opensAt closesAt :: after.rest := by
  obtain ⟨_, last, hd, hp⟩ := bind_eq_ok h
  obtain ⟨a, hd⟩ := discard_eq_ok hd
  cases hp
  exact rest_of_inside hd

theorem rest_of_restriction {restricted : Bool} (h : restriction s = .ok (restricted, after)) :
    after.rest = afterRestriction s.rest := by
  obtain ⟨rest, _, hremaining, h⟩ := bind_eq_ok h
  cases hremaining
  split at h
  · rename_i name namePos opensAt closesAt rest hs
    have hrestricts : restricts (.group .parenthesis [.ident name namePos] opensAt closesAt) =
      (name == "crate" || name == "self" || name == "super" || name == "in") := rfl
    rw [hs, afterRestriction, hrestricts]
    split at h
    · rename_i hname
      obtain ⟨content, opens, closes, hg⟩ := group_of_restriction h
      cases hs.symm.trans hg
      rw [if_pos (by rw [hname, Bool.true_or])]
    · rename_i hname
      split at h
      · rename_i hin
        obtain ⟨content, opens, closes, hg⟩ := group_of_restriction h
        cases hs.symm.trans hg
        rw [if_pos (by rw [hin, Bool.or_true])]
      · rename_i hin
        cases h
        rw [if_neg (by simp only [Bool.or_eq_true, not_or] at hname ⊢; exact ⟨hname, hin⟩), hs]
  · rename_i namePos others opensAt closesAt rest hsingle hs
    obtain ⟨content, opens, closes, hg⟩ := group_of_restriction h
    cases hs.symm.trans hg
    rw [hs, afterRestriction, if_pos]
    cases others with
    | nil => rfl
    | cons t more => rfl
  · rename_i hsingle hin
    cases h
    cases hs : s.rest with
    | nil => rfl
    | cons t rest =>
      rw [afterRestriction, if_neg]
      intro hrestricts
      unfold restricts at hrestricts
      split at hrestricts
      · exact hsingle _ _ _ _ _ hs
      · exact hin _ _ _ _ _ hs
      · cases hrestricts

theorem rest_of_visibility {v : VisibilityExpr} (h : visibility s = .ok (v, after)) :
    after.rest = afterVisibility s.rest := by
  obtain ⟨stands, _, hsees, h⟩ := bind_eq_ok h
  cases hsees
  split at h
  · rename_i hpub
    cases h
    unfold afterVisibility
    split
    all_goals simp_all [Expected.stands]
  · rename_i hpub
    obtain ⟨⟨restricted, tokens⟩, middle, hcaptured, h⟩ := bind_eq_ok h
    obtain ⟨inner, hinner, rfl⟩ := captured_eq_ok hcaptured
    obtain ⟨_, next, hw, hp⟩ := bind_eq_ok h
    cases hw
    cases hp
    obtain ⟨_, worded, hword, hinner⟩ := bind_eq_ok hinner
    obtain ⟨pos, hr, -⟩ := word_eq_ok hword
    have hrest := rest_of_restriction hinner
    rw [show s.rest = .ident "pub" pos :: worded.rest from hr, afterVisibility]
    exact hrest

/-! ## Items -/

theorem namedAfterStruct?_of_structItem {attrs : List Attribute} {v : VisibilityExpr} {item : StructItem}
    (h : structItem g attrs v s = .ok (item, after)) : namedAfterStruct? s.rest = some item.name := by
  obtain ⟨_, worded, hword, h⟩ := bind_eq_ok h
  obtain ⟨pos, hs, -⟩ := word_eq_ok hword
  obtain ⟨nameAt, _, hhere, h⟩ := bind_eq_ok h
  cases hhere
  obtain ⟨name, named, hname, h⟩ := bind_eq_ok h
  obtain ⟨namePos, hn, -⟩ := identifier_eq_ok hname
  obtain ⟨generics, _, -, h⟩ := bind_eq_ok h
  obtain ⟨⟨clause, fields⟩, _, -, h⟩ := bind_eq_ok h
  cases h
  rw [hs, hn]
  rfl

/-- What is read is no struct, and a function of it has no word `default` before it. -/
def Ordinary : Item → Prop
  | .struct _ => False
  | .function f => f.isDefault = false
  | _ => True

section

variable {valid : String → Prop}

theorem gives_functionsItem (attrs : List Attribute) (visible : Bool) :
    GivesOf valid (functionsItem g attrs visible) fun read => Ordinary read.1 := by
  refine gives_bind fun _ => gives_bind fun _ => gives_bind fun _ => gives_bind fun opens => ?_
  refine gives_optional fun _ => gives_bind fun isConst => gives_bind fun position => ?_
  refine gives_bind fun mark => gives_bind fun brace => ?_
  refine gives_optional fun _ => gives_bind fun first => gives_bind fun ofTrait => gives_bind fun ⟨subject, ordinary⟩ => ?_
  refine gives_bind fun _ => (gives_bind fun inner => gives_bind fun items => gives_pure ?_).inside
  dsimp only
  split <;> trivial

theorem gives_moduleItem (attrs : List Attribute) (v : VisibilityExpr) : GivesOf valid (moduleItem g attrs v) Ordinary := by
  refine gives_bind fun _ => gives_bind fun _ => gives_bind fun name => gives_bind fun ended => ?_
  refine gives_ite (gives_pure trivial) (gives_bind fun braced => ?_)
  exact gives_ite (gives_bind fun inner => gives_bind fun items => gives_pure trivial).inside gives_failNoneOf

theorem gives_traitOrAlias (attrs : List Attribute) (v : VisibilityExpr) : GivesOf valid (traitOrAlias g attrs v) Ordinary := by
  have hbody : ∀ name : String, GivesOf valid (do pure (.named .trait (← traitBody g attrs) v name)) Ordinary :=
    fun name => gives_bind fun inner => gives_pure trivial
  refine gives_bind fun isUnsafe => gives_bind fun isAuto => gives_bind fun _ => gives_bind fun name => ?_
  refine gives_bind fun _ => gives_ite (hbody name) (gives_bind fun bodied => gives_ite (hbody name) ?_)
  refine gives_bind fun renamed => gives_ite ?_ gives_failNoneOf
  exact gives_bind fun _ => gives_bind fun _ => gives_bind fun _ => gives_pure trivial

theorem gives_unsafeItem (attrs : List Attribute) (v : VisibilityExpr) (start : Position) :
    GivesOf valid (unsafeItem g attrs v start) fun read => Ordinary read.1 := by
  refine gives_bind fun _ => gives_bind fun _ => gives_bind fun _ => ?_
  refine gives_ite ((gives_traitOrAlias g attrs v).bind fun item hi => gives_pure hi) (gives_bind fun ofImpl => ?_)
  refine gives_ite (gives_functionsItem g attrs _) (gives_bind fun ofExtern => ?_)
  refine gives_ite (gives_bind fun _ => gives_bind fun _ => gives_pure trivial) ?_
  refine gives_bind fun ofModule => gives_ite ?_ (gives_bind fun _ => gives_failNoneOf)
  exact (gives_moduleItem g attrs v).bind fun item hi => gives_pure hi

end

/-- Nothing is taken from the stream. -/
def Looks {α : Type} (p : Parser α) : Prop := ∀ ⦃s : Stream⦄ ⦃a : α⦄ ⦃after : Stream⦄, p s = .ok (a, after) → after = s

theorem looks_inspect {α : Type} {value : Stream → α} : Looks (inspect fun s => pure (value s)) := by
  intro s a after h
  cases h
  rfl

theorem looks_ahead {α : Type} {p : Parser α} : Looks (ahead p) := by
  intro s a after h
  unfold ahead inspect at h
  simp only at h
  split at h
  · cases h
    rfl
  · cases h

/-- A struct has the name that the tokens declare, and a function has no word `default` before it. -/
def AgreesWith (ts : List Token) : Item → Prop
  | .struct item => namedAfterStruct? ts = some item.name
  | .function f => f.isDefault = false
  | _ => True

theorem agreesWith_of_ordinary {ts : List Token} {item : Item} (h : Ordinary item) : AgreesWith ts item := by
  cases item with
  | struct item => exact h.elim
  | _ => exact h

/-- What is read agrees with the tokens. -/
def NamesStructs (p : Parser (Item × Bool)) : Prop :=
  ∀ ⦃s : Stream⦄ ⦃read : Item × Bool⦄ ⦃after : Stream⦄, p s = .ok (read, after) → AgreesWith s.rest read.1

theorem namesStructs_of_gives {p : Parser (Item × Bool)} (h : GivesOf (fun _ => True) p fun read => Ordinary read.1) : NamesStructs p :=
  fun _ _ _ hp => agreesWith_of_ordinary (h (Token.allHold_of_forall (fun _ => trivial) _) hp)

theorem namesStructs_bind {α : Type} {p : Parser α} {f : α → Parser (Item × Bool)} (hp : Looks p)
    (hf : ∀ a, NamesStructs (f a)) : NamesStructs (p >>= f) := by
  intro s read after h
  obtain ⟨a, middle, ha, hread⟩ := bind_eq_ok h
  cases hp ha
  exact hf a hread

theorem namesStructs_ite {test : Bool} {p q : Parser (Item × Bool)} (hp : NamesStructs p) (hq : NamesStructs q) :
    NamesStructs (if test then p else q) := by
  cases test
  · exact hq
  · exact hp

theorem namesStructs_structItem (attrs : List Attribute) (v : VisibilityExpr) :
    NamesStructs (do pure (.struct (← structItem g attrs v), true)) := by
  intro s read after h
  obtain ⟨found, middle, hfound, hp⟩ := bind_eq_ok h
  cases hp
  exact namedAfterStruct?_of_structItem g hfound

/-- An item without modifiers, unless it is incomplete. -/
theorem gives_named {valid : String → Prop} {kind : ItemKind} {attrs : List Attribute} {v : VisibilityExpr} {name : String}
    {complete : Bool} : GivesOf valid (pure (if complete then .named kind attrs v name else .plain, complete)) fun read => Ordinary read.1 := by
  refine gives_pure ?_
  cases complete <;> trivial

theorem namesStructs_itemBody (attrs : List Attribute) (v : VisibilityExpr) (start : Position) :
    NamesStructs (itemBody g attrs v start) := by
  refine namesStructs_bind looks_ahead fun signed => namesStructs_ite (namesStructs_of_gives ?_) ?_
  · refine gives_bind fun signature => gives_bind fun ended => gives_ite (gives_pure trivial) ?_
    have hfunction : GivesOf (fun _ => True) (functionAfter g attrs v false signature) (·.isDefault = false) :=
      gives_bind fun body => gives_pure rfl
    exact hfunction.bind fun function hf => gives_pure hf
  refine namesStructs_bind looks_inspect fun ofExtern => namesStructs_ite (namesStructs_of_gives ?_) ?_
  · exact gives_bind fun _ => gives_pure trivial
  refine namesStructs_bind looks_inspect fun ofUse => namesStructs_ite (namesStructs_of_gives ?_) ?_
  · exact gives_bind fun canonical => gives_pure trivial
  refine namesStructs_bind looks_inspect fun ofStatic => namesStructs_ite (namesStructs_of_gives ?_) ?_
  · exact gives_bind fun ⟨name, complete⟩ => gives_named
  refine namesStructs_bind looks_inspect fun ofConst => namesStructs_ite (namesStructs_of_gives ?_) ?_
  · exact gives_bind fun constant => gives_named
  refine namesStructs_bind looks_inspect fun ofUnsafe => namesStructs_ite (namesStructs_of_gives ?_) ?_
  · exact gives_unsafeItem g attrs v start
  refine namesStructs_bind looks_inspect fun ofModule => namesStructs_ite (namesStructs_of_gives ?_) ?_
  · exact (gives_moduleItem g attrs v).bind fun item hi => gives_pure hi
  refine namesStructs_bind looks_inspect fun ofType => namesStructs_ite (namesStructs_of_gives ?_) ?_
  · exact gives_bind fun type => gives_named
  refine namesStructs_bind looks_inspect fun ofStruct => namesStructs_ite (namesStructs_structItem g attrs v) ?_
  refine namesStructs_of_gives (gives_bind fun ofEnum => gives_ite ?_ ?_)
  · exact gives_bind fun name => gives_pure trivial
  refine gives_bind fun ofUnion => gives_bind fun named => gives_ite ?_ ?_
  · exact gives_bind fun name => gives_pure trivial
  refine gives_bind fun ofTrait => gives_bind fun auto => gives_bind fun autoTrait => gives_ite ?_ ?_
  · exact (gives_traitOrAlias g attrs v).bind fun item hi => gives_pure hi
  refine gives_bind fun ofImpl => gives_bind fun default => gives_ite (gives_functionsItem g attrs _) ?_
  refine gives_bind fun ofMacro => gives_ite (gives_bind fun _ => gives_pure trivial) ?_
  refine gives_bind fun invoked => gives_ite ?_ gives_failNoneOf
  exact gives_bind fun _ => gives_pure trivial

/-! ## Structs by themselves -/

theorem orAsItStands_eq_ok {α : Type} {p : Parser (α × Bool)} {a : α} (h : orAsItStands p s = .ok (a, after)) :
    ∃ canonical inner, p { s with written := [] } = .ok ((a, canonical), inner) := by
  obtain ⟨⟨⟨⟨found, canonical⟩, tokens⟩, source⟩, middle, hsource, h⟩ := bind_eq_ok h
  obtain ⟨_, last, hw, hp⟩ := bind_eq_ok h
  cases hp
  unfold sourceOf at hsource
  simp only at hsource
  split at hsource
  · rename_i read inner hc
    cases hsource
    obtain ⟨final, hf, -⟩ := captured_eq_ok hc
    exact ⟨canonical, final, hf⟩
  · cases hsource

/-- What is read as an item agrees with its tokens. -/
theorem agreesWith_of_item {item : Item} (h : Read.item g s = .ok (item, after)) :
    AgreesWith (afterVisibility (afterAttributes s.rest)) item := by
  obtain ⟨canonical, inner, h⟩ := orAsItStands_eq_ok h
  obtain ⟨attrs, attributed, hattrs, h⟩ := bind_eq_ok h
  obtain ⟨start, _, hhere, h⟩ := bind_eq_ok h
  cases hhere
  obtain ⟨v, visible, hv, h⟩ := bind_eq_ok h
  rw [show afterAttributes s.rest = _ from (rest_of_outerAttributes g hattrs).symm, ← rest_of_visibility hv]
  exact namesStructs_itemBody g attrs v _ h

/-- An item that is read as a struct has the name that its tokens declare. -/
theorem structName?_of_item {item : StructItem} (h : Read.item g s = .ok (.struct item, after)) :
    structName? (afterAttributes s.rest) = some item.name := agreesWith_of_item g h

/-- A function that is read as an item has no word `default` before it. -/
theorem isDefault_of_item {f : FunctionItem} (h : Read.item g s = .ok (.function f, after)) : f.isDefault = false :=
  agreesWith_of_item g h

/-- So has a struct for which something is derived. -/
theorem structName?_of_deriveInput {item : StructItem} (h : deriveInput g s = .ok (.struct item, after)) :
    structName? (afterAttributes s.rest) = some item.name := by
  obtain ⟨attrs, attributed, hattrs, h⟩ := bind_eq_ok h
  obtain ⟨v, visible, hv, h⟩ := bind_eq_ok h
  unfold structName?
  rw [← rest_of_outerAttributes g hattrs, ← rest_of_visibility hv]
  obtain ⟨isStruct, _, hsees, h⟩ := bind_eq_ok h
  cases hsees
  split at h
  · obtain ⟨found, middle, hfound, hp⟩ := bind_eq_ok h
    cases hp
    exact namedAfterStruct?_of_structItem g hfound
  · exfalso
    obtain ⟨isEnum, _, hsees, h⟩ := bind_eq_ok h
    cases hsees
    split at h
    · obtain ⟨found, middle, -, hp⟩ := bind_eq_ok h
      cases hp
    · obtain ⟨isUnion, _, hsees, h⟩ := bind_eq_ok h
      cases hsees
      split at h
      · obtain ⟨found, middle, -, hp⟩ := bind_eq_ok h
        cases hp
      · exact fail_ne_ok h

end Read

end BuilderSynthesis.Syntax
