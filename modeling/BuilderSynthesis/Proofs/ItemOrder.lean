/-
  BuilderSynthesis.Proofs.ItemOrder — items hold what they keep in the order of their text.

  A reader takes tokens from the front, so what it makes can hold the places it came by only in the
  order in which the tokens stand. `Traces` says that of a reader: of the places known before it and
  of those in the tokens that it takes, its result holds some, in this order. It is proved once for
  every way to put readers together and then for the readers of items, the innermost modules
  included.

  With the order of the tokens (`increasing_tokensOf`) the places of all attributes that the items of
  a file keep are strictly increasing, and so are those of the names of its structs
  (`increasing_of_readFile`).
-/

import BuilderSynthesis.Proofs.Items
import BuilderSynthesis.Proofs.TokenOrder

namespace BuilderSynthesis.Syntax

/-! ## Places in items -/

def Attribute.placesOfAll (l : Landmark) (attrs : List Attribute) : List Position :=
  attrs.flatMap fun attr => l.ofHash attr.position

def StructItem.places (l : Landmark) (s : StructItem) : List Position :=
  Attribute.placesOfAll l s.attributes ++ l.ofWord s.nameAt

def FunctionItem.places (l : Landmark) (f : FunctionItem) : List Position :=
  Attribute.placesOfAll l (f.attributes ++ f.innerAttributes)

mutual

/-- Where the attributes on an item, or the names of structs, stand, those in the item included. -/
def Item.places (l : Landmark) : Item → List Position
  | .struct s => s.places l
  | .function f => f.places l
  | .functions attributes _ _ members =>
    Attribute.placesOfAll l attributes ++ members.flatMap (FunctionItem.places l)
  | .module attributes _ _ content => Attribute.placesOfAll l attributes ++ Item.placesOfAll l content
  | .named _ attributes _ _ => Attribute.placesOfAll l attributes
  | .plain => []

def Item.placesOfAll (l : Landmark) : List Item → List Position
  | [] => []
  | item :: rest => item.places l ++ Item.placesOfAll l rest

end

variable {l : Landmark}

theorem Item.placesOfAll_eq (items : List Item) : Item.placesOfAll l items = items.flatMap (Item.places l) := by
  induction items with
  | nil => rfl
  | cons item rest ih => rw [placesOfAll, List.flatMap_cons, ih]

theorem Attribute.placesOfAll_append (first second : List Attribute) :
    Attribute.placesOfAll l (first ++ second) = Attribute.placesOfAll l first ++ Attribute.placesOfAll l second :=
  List.flatMap_append

/-! ## Readers -/

namespace Parser

variable {α β σ : Type}

/-- Of the places known before a reader and of those in the tokens that it takes, what it makes holds
some, in this order. -/
def Traces (l : Landmark) (known : List Position) (p : Parser α) (places : α → List Position) : Prop :=
  ∀ ⦃s : Stream⦄ ⦃a : α⦄ ⦃after : Stream⦄, p s = .ok (a, after) →
    ∃ taken, s.rest = taken ++ after.rest ∧ (places a).Sublist (known ++ Token.placesOfAll l taken)

variable {known : List Position} {places : α → List Position}

theorem traces_pure {a : α} (h : (places a).Sublist known) : Traces l known (pure a) places := by
  intro s b after hp
  obtain ⟨rfl, rfl⟩ := pure_eq_ok hp
  exact ⟨[], rfl, h.trans (List.sublist_append_left _ _)⟩

theorem Traces.bind {p : Parser α} {f : α → Parser β} {first : α → List Position} {places : β → List Position}
    (hp : Traces l known p first) (hf : ∀ a, Traces l (first a) (f a) places) : Traces l known (p >>= f) places := by
  intro s b after h
  obtain ⟨a, middle, ha, hb⟩ := bind_eq_ok h
  obtain ⟨before, hs, hfirst⟩ := hp ha
  obtain ⟨more, hm, hsecond⟩ := hf a hb
  refine ⟨before ++ more, by rw [hs, hm, List.append_assoc], ?_⟩
  rw [Token.placesOfAll_append, ← List.append_assoc]
  exact hsecond.trans (hfirst.append_right _)

/-- Every reader may be passed over. -/
theorem traces_known (p : Parser α) : Traces l known p fun _ => known := by
  intro s a after h
  obtain ⟨taken, ht⟩ := p.shrinks h
  exact ⟨taken, ht.symm, List.sublist_append_left _ _⟩

theorem traces_bind {p : Parser α} {f : α → Parser β} {places : β → List Position}
    (hf : ∀ a, Traces l known (f a) places) : Traces l known (p >>= f) places :=
  (traces_known p).bind hf

theorem traces_ite {test : Bool} {p q : Parser α} (hp : Traces l known p places) (hq : Traces l known q places) :
    Traces l known (if test then p else q) places := by
  cases test
  · exact hq
  · exact hp

/-- Something may be read before the rest. -/
theorem traces_optional {test : Bool} {p : Parser Unit} {next : Unit → Parser α}
    (h : ∀ u, Traces l known (next u) places) : Traces l known (if test then p >>= next else next ()) places :=
  traces_ite (traces_bind h) (h ())

theorem traces_fail {complaint : Complaint} : Traces l known (fail complaint) places :=
  fun _ _ _ h => absurd h fail_ne_ok

theorem traces_failNoneOf {wanted : List Expected} : Traces l known (failNoneOf wanted) places :=
  fun _ _ _ h => absurd h fail_ne_ok

theorem Traces.captured {p : Parser α} (hp : Traces l known p places) :
    Traces l known (captured p) fun r => places r.1 := by
  rintro s ⟨a, tokens⟩ after h
  obtain ⟨inner, ha, rfl⟩ := captured_eq_ok h
  obtain ⟨taken, ht, hsub⟩ := hp ha
  exact ⟨taken, ht, hsub⟩

theorem Traces.sourceOf {p : Parser α} (hp : Traces l known p places) :
    Traces l known (sourceOf p) fun r => places r.1 := by
  rintro s ⟨a, tokens⟩ after h
  unfold Parser.sourceOf at h
  simp only at h
  split at h
  · rename_i found inner ha
    cases h
    obtain ⟨taken, ht, hsub⟩ := hp ha
    exact ⟨taken, ht, hsub⟩
  · cases h

theorem Traces.orAsItStands {p : Parser (α × Bool)} (hp : Traces l known p fun r => places r.1) :
    Traces l known (Read.orAsItStands p) places :=
  hp.captured.sourceOf.bind fun ⟨⟨⟨_, _⟩, _⟩, _⟩ => traces_bind fun _ => traces_pure (List.Sublist.refl _)

/-- The places in a bracket count as the bracket is read. -/
theorem Traces.inside {delimiter : Delimiter} {p : Parser α} (hp : Traces l known p places) :
    Traces l known (inside delimiter p) places := by
  intro s a after h
  obtain ⟨content, opensAt, closesAt, rest, inner, hr, hinner, rfl⟩ := inside_eq_ok h
  obtain ⟨taken, ht, hsub⟩ := hp hinner
  refine ⟨[.group delimiter content opensAt closesAt], hr, ?_⟩
  rw [Token.placesOfAll_singleton, Token.places, show content = taken ++ inner.rest from ht,
    Token.placesOfAll_append, ← List.append_assoc]
  exact hsub.trans (List.sublist_append_left _ _)

/-- What a reader traces by itself it traces after what is known. -/
theorem Traces.behind {p : Parser α} (hp : Traces l [] p places) (known : List Position) :
    Traces l known p fun a => known ++ places a := by
  intro s a after h
  obtain ⟨taken, ht, hsub⟩ := hp h
  exact ⟨taken, ht, hsub.append_left known⟩

/-- The places in the state of a repetition, or in its value. -/
def turnPlaces (state : σ → List Position) (value : β → List Position) : Turn σ β → List Position
  | .again s => state s
  | .done b => value b

theorem traces_loop {step : σ → Parser (Turn σ β)} {held : σ → List Position} {value : β → List Position}
    (hstep : ∀ state, Traces l (held state) (step state) (turnPlaces held value)) (state : σ) :
    Traces l (held state) (loop step state) value := by
  have hturns : ∀ n state, Traces l (held state) (turns step n state) value := by
    intro n
    induction n with
    | zero => exact fun _ => traces_fail
    | succ n ih =>
      intro state
      refine (hstep state).bind fun turn => ?_
      cases turn with
      | again next => exact ih next
      | done b => exact traces_pure (List.Sublist.refl _)
  exact fun s _ _ h => hturns (s.rest.length + 1) state h

theorem Traces.whileSeen {test : Parser Bool} {p : Parser α} (hp : Traces l [] p places) :
    Traces l known (whileSeen test p) fun read => known ++ read.flatMap places := by
  -- The values that have been read are held in reverse.
  have hstep : ∀ read : List α, Traces l (known ++ read.reverse.flatMap places) (whileStep test p read)
      (turnPlaces (fun read : List α => known ++ read.reverse.flatMap places)
        fun read : List α => known ++ read.flatMap places) := by
    intro read
    refine traces_bind fun seen => traces_ite ?_ (traces_pure (List.Sublist.refl _))
    refine (hp.behind _).bind fun a => traces_pure ?_
    rw [turnPlaces, List.reverse_cons, List.flatMap_append, List.flatMap_singleton, List.append_assoc]
  have hloop := traces_loop hstep []
  rwa [List.reverse_nil, List.flatMap_nil, List.append_nil] at hloop

/-! ### Landmarks -/

/-- The place of a hash mark that is read next. -/
theorem traces_hash {next : Position → Parser α} (h : ∀ pos, Traces l (known ++ l.ofHash pos) (next pos) places) :
    Traces l known (here >>= fun pos => mark "#" >>= fun _ => next pos) places := by
  intro s a after hp
  obtain ⟨pos, _, hhere, hp⟩ := bind_eq_ok hp
  cases hhere
  obtain ⟨_, marked, hmark, hp⟩ := bind_eq_ok hp
  obtain ⟨hm, hrest, -⟩ := mark_eq_ok hmark
  obtain ⟨joint, found, rest, hr⟩ := exists_punct_of_afterMarks hm
  obtain ⟨taken, ht, hsub⟩ := h _ hp
  rw [hr] at hrest hsub
  refine ⟨.punct '#' joint found :: taken, ?_, ?_⟩
  · rw [hr, List.cons_append, ← ht]
    exact congrArg _ hrest.symm
  · rw [Token.placesOfAll, ← List.append_assoc]
    exact hsub

/-- The place of a name that is read next. -/
theorem traces_word {next : Position → String → Parser α}
    (h : ∀ pos name, Traces l (known ++ l.ofWord pos) (next pos name) places) :
    Traces l known (here >>= fun pos => identifier >>= fun name => next pos name) places := by
  intro s a after hp
  obtain ⟨pos, _, hhere, hp⟩ := bind_eq_ok hp
  cases hhere
  obtain ⟨name, named, hname, hp⟩ := bind_eq_ok hp
  obtain ⟨found, hr, -⟩ := identifier_eq_ok hname
  obtain ⟨taken, ht, hsub⟩ := h _ name hp
  rw [hr] at hsub
  refine ⟨.ident name found :: taken, by rw [hr, ht, List.cons_append], ?_⟩
  rw [Token.placesOfAll, ← List.append_assoc]
  exact hsub

end Parser

/-! ## Readers of items -/

namespace Read

open BuilderSynthesis.Syntax.Parser

variable {g : Grammar} {known : List Position} {attributes : List Attribute} {v : VisibilityExpr}

theorem traces_attribute (inner : Bool) : Traces l [] (singleAttribute g inner) fun attr => l.ofHash attr.position := by
  refine traces_hash fun pos => traces_optional fun _ => Traces.inside ?_
  exact traces_bind fun ⟨⟨_, _, _⟩, _⟩ => traces_bind fun _ => traces_pure (List.Sublist.refl _)

theorem traces_outer : Traces l known (outerAttributes g) fun attrs => known ++ Attribute.placesOfAll l attrs :=
  (traces_attribute false).whileSeen

theorem traces_inner : Traces l known (innerAttributes g) fun attrs => known ++ Attribute.placesOfAll l attrs :=
  (traces_attribute true).whileSeen

theorem traces_struct :
    Traces l (Attribute.placesOfAll l attributes) (structItem g attributes v) (StructItem.places l) := by
  refine traces_bind fun _ => traces_word fun nameAt name => traces_bind fun generics => ?_
  exact traces_bind fun ⟨_, _⟩ => traces_pure (List.Sublist.refl _)

theorem traces_function {isDefault : Bool} {signature : Signature} :
    Traces l (Attribute.placesOfAll l attributes) (functionAfter g attributes v isDefault signature)
      (FunctionItem.places l) := by
  have hbody : Traces l (Attribute.placesOfAll l attributes) (functionBody g) fun read =>
      Attribute.placesOfAll l attributes ++ Attribute.placesOfAll l read.1 :=
    (traces_inner.bind fun _ => traces_bind fun ⟨_, _⟩ => traces_bind fun _ => traces_pure (List.Sublist.refl _)).inside
  refine hbody.bind fun ⟨inner, body⟩ => traces_pure ?_
  rw [FunctionItem.places, Attribute.placesOfAll_append]

theorem traces_blockItem :
    Traces l [] (blockItem g) fun function => function.toList.flatMap (FunctionItem.places l) := by
  refine Traces.orAsItStands (traces_outer.bind fun attributes => traces_bind fun v => traces_bind fun isDefault => ?_)
  refine traces_optional fun _ => traces_bind fun signed => traces_ite ?_ ?_
  · refine traces_bind fun signature => traces_bind fun ended => traces_ite (traces_pure (List.nil_sublist _)) ?_
    refine traces_function.bind fun f => traces_pure ?_
    rw [Option.toList_some, List.flatMap_singleton]
  refine traces_bind fun ofConst => traces_ite (traces_bind fun constant => traces_pure (List.nil_sublist _)) ?_
  refine traces_bind fun ofType => traces_ite (traces_bind fun type => traces_pure (List.nil_sublist _)) ?_
  exact traces_bind fun invoked => traces_ite (traces_bind fun _ => traces_pure (List.nil_sublist _)) traces_failNoneOf

theorem traces_block (visible : Bool) :
    Traces l (Attribute.placesOfAll l attributes) (functionsItem g attributes visible) fun read =>
      read.1.places l := by
  refine traces_bind fun _ => traces_bind fun _ => traces_bind fun _ => traces_bind fun opens => ?_
  refine traces_optional fun _ => traces_bind fun isConst => traces_bind fun position => ?_
  refine traces_bind fun mark => traces_bind fun brace => traces_optional fun _ => traces_bind fun first => ?_
  refine traces_bind fun ofTrait => traces_bind fun ⟨subject, ordinary⟩ => traces_bind fun _ => Traces.inside ?_
  refine traces_inner.bind fun inner => traces_blockItem.whileSeen.bind fun items => traces_pure ?_
  have hfunctions : (items.filterMap id).flatMap (FunctionItem.places l) =
      items.flatMap fun function => function.toList.flatMap (FunctionItem.places l) := by
    rw [List.filterMap_eq_flatMap_toList, List.flatMap_assoc]
    rfl
  dsimp only
  split
  · rw [Item.places, Attribute.placesOfAll_append, hfunctions]
  · exact List.nil_sublist _

theorem traces_module (hitem : Traces l [] g.item (Item.places l)) :
    Traces l (Attribute.placesOfAll l attributes) (moduleItem g attributes v) (Item.places l) := by
  refine traces_bind fun _ => traces_bind fun _ => traces_bind fun name => traces_bind fun ended => traces_ite ?_ ?_
  · refine traces_pure ?_
    rw [Item.places, Item.placesOfAll, List.append_nil]
  refine traces_bind fun braced => traces_ite (Traces.inside ?_) traces_failNoneOf
  refine traces_inner.bind fun inner => hitem.whileSeen.bind fun content => traces_pure ?_
  rw [Item.places, Attribute.placesOfAll_append, Item.placesOfAll_eq]

theorem traces_trait :
    Traces l (Attribute.placesOfAll l attributes) (traitOrAlias g attributes v) (Item.places l) := by
  have hattributes :
      Traces l (Attribute.placesOfAll l attributes) (traitBody g attributes) (Attribute.placesOfAll l) := by
    refine traces_bind fun _ => traces_bind fun _ => (traces_inner.bind fun inner => traces_bind fun _ => ?_).inside
    refine traces_pure ?_
    rw [Attribute.placesOfAll_append]
  have hbody : ∀ name : String, Traces l (Attribute.placesOfAll l attributes)
      (do pure (.named .trait (← traitBody g attributes) v name)) (Item.places l) := fun name =>
    hattributes.bind fun attrs => traces_pure (List.Sublist.refl _)
  refine traces_bind fun isUnsafe => traces_bind fun isAuto => traces_bind fun _ => traces_bind fun name => ?_
  refine traces_bind fun _ => traces_ite (hbody name) (traces_bind fun bodied => traces_ite (hbody name) ?_)
  refine traces_bind fun renamed => traces_ite ?_ traces_failNoneOf
  exact traces_bind fun _ => traces_bind fun _ => traces_bind fun _ => traces_pure (List.nil_sublist _)

/-- An item of which nothing is kept. -/
theorem traces_plain {canonical : Bool} :
    Traces l known (pure (Item.plain, canonical)) fun read => read.1.places l :=
  traces_pure (List.nil_sublist _)

/-- An item of which only the outside is kept. -/
theorem traces_named {kind : ItemKind} {name : String} {canonical : Bool} :
    Traces l (Attribute.placesOfAll l attributes) (pure (Item.named kind attributes v name, canonical)) fun read =>
      read.1.places l :=
  traces_pure (List.Sublist.refl _)

/-- The outside is kept unless the item is incomplete. -/
theorem traces_outside {kind : ItemKind} {name : String} {complete : Bool} :
    Traces l (Attribute.placesOfAll l attributes)
      (pure (if complete then Item.named kind attributes v name else .plain, complete))
      fun read => read.1.places l := by
  cases complete with
  | true => exact traces_named
  | false => exact traces_plain

theorem traces_unsafeItem (hitem : Traces l [] g.item (Item.places l)) (start : Position) :
    Traces l (Attribute.placesOfAll l attributes) (unsafeItem g attributes v start) fun read => read.1.places l := by
  refine traces_bind fun _ => traces_bind fun _ => traces_bind fun _ => ?_
  refine traces_ite (traces_trait.bind fun item => traces_pure (List.Sublist.refl _)) (traces_bind fun ofImpl => ?_)
  refine traces_ite (traces_block _) (traces_bind fun ofExtern => ?_)
  refine traces_ite (traces_bind fun _ => traces_bind fun _ => traces_plain) (traces_bind fun ofModule => ?_)
  refine traces_ite ?_ (traces_bind fun _ => traces_failNoneOf)
  exact (traces_module hitem).bind fun item => traces_pure (List.Sublist.refl _)

theorem traces_body (hitem : Traces l [] g.item (Item.places l)) (start : Position) :
    Traces l (Attribute.placesOfAll l attributes) (itemBody g attributes v start) fun read => read.1.places l := by
  refine traces_bind fun signed => traces_ite ?_ ?_
  · refine traces_bind fun signature => traces_bind fun ended => traces_ite traces_plain ?_
    exact traces_function.bind fun function => traces_pure (List.Sublist.refl _)
  refine traces_bind fun ofExtern => traces_ite (traces_bind fun _ => traces_plain) ?_
  refine traces_bind fun ofUse => traces_ite (traces_bind fun canonical => traces_plain) ?_
  refine traces_bind fun ofStatic => traces_ite (traces_bind fun ⟨name, complete⟩ => traces_outside) ?_
  refine traces_bind fun ofConst => traces_ite (traces_bind fun constant => traces_outside) ?_
  refine traces_bind fun ofUnsafe => traces_ite (traces_unsafeItem hitem start) ?_
  refine traces_bind fun ofModule => traces_ite ?_ ?_
  · exact (traces_module hitem).bind fun item => traces_pure (List.Sublist.refl _)
  refine traces_bind fun ofType => traces_ite (traces_bind fun type => traces_outside) ?_
  refine traces_bind fun ofStruct => traces_ite ?_ ?_
  · exact traces_struct.bind fun s => traces_pure (List.Sublist.refl _)
  refine traces_bind fun ofEnum => traces_ite (traces_bind fun name => traces_named) ?_
  refine traces_bind fun ofUnion => traces_bind fun named => traces_ite (traces_bind fun name => traces_named) ?_
  refine traces_bind fun ofTrait => traces_bind fun auto => traces_bind fun autoTrait => traces_ite ?_ ?_
  · exact traces_trait.bind fun item => traces_pure (List.Sublist.refl _)
  refine traces_bind fun ofImpl => traces_bind fun default => traces_ite (traces_block _) ?_
  refine traces_bind fun ofMacro => traces_ite (traces_bind fun _ => traces_plain) ?_
  exact traces_bind fun invoked => traces_ite (traces_bind fun _ => traces_plain) traces_failNoneOf

theorem traces_item (hitem : Traces l [] g.item (Item.places l)) : Traces l [] (item g) (Item.places l) :=
  Traces.orAsItStands (traces_outer.bind fun _ => traces_bind fun start => traces_bind fun _ => traces_body hitem start)

theorem traces_file (hitem : Traces l [] g.item (Item.places l)) : Traces l [] (file g) (Item.placesOfAll l) := by
  have hplaces : Item.placesOfAll l = fun items => [] ++ items.flatMap (Item.places l) := funext Item.placesOfAll_eq
  rw [hplaces]
  exact traces_bind fun _ => hitem.whileSeen

end Read

open BuilderSynthesis.Syntax.Parser

/-- The items of every layer of the grammar, and so those in modules however deep. -/
theorem traces_items (depth : Nat) : Traces l [] (grammar depth).item (Item.places l) := by
  induction depth with
  | zero => exact traces_fail
  | succ depth ih => exact Read.traces_item ih

/-- In a file that reads, the places that the items hold are increasing. -/
theorem increasing_of_readFile {cs : List Char} {items : List Item} (l : Landmark) (h : readFileChars cs = .ok items) :
    (Item.placesOfAll l items).Pairwise Position.before := by
  unfold readFileChars readChars at h
  split at h
  · cases h
  · rename_i ts hts
    cases hr : readTokens Read.file ts .start with
    | error problem =>
      rw [hr] at h
      cases h
    | ok read =>
      rw [hr] at h
      cases h
      obtain ⟨after, hp, -⟩ := onTokens_eq_ok hr
      obtain ⟨taken, ht, hsub⟩ := Read.traces_file (traces_items _) hp
      refine (increasing_tokensOf l hts).sublist (hsub.trans ?_)
      rw [List.nil_append, show ts = taken ++ after.rest from ht, Token.placesOfAll_append]
      exact List.sublist_append_left _ _

end BuilderSynthesis.Syntax
