/-
  BuilderSynthesis.Proofs.ItemReading — attributes and structs are read again.

  A plain struct is written as it was read, and a reader that comes upon these tokens again makes the same
  struct of them: with the same names and types, and with attributes that are alike (`makes_struct`).
  Where the tokens stand makes no difference.
-/

import BuilderSynthesis.Proofs.DeclarationReading

namespace BuilderSynthesis.Syntax

open BuilderSynthesis.Syntax.Parser

/-! ## Readers that are tried or written as they stand -/

section

variable {α : Type} {like : List Token → List Token → Prop} {next : List Token → Bool} {holds : α → List Token → Prop}

theorem Reads.attempt {p : Parser α} {ts : List Token} (hp : Reads like p ts next holds) :
    Reads like (attempt p) ts next fun read ws => ∃ a, read = some a ∧ holds a ws := by
  intro us more s hu hm hs
  obtain ⟨a, ws, ha, hrun⟩ := hp hu hm hs
  refine ⟨some a, ws, ⟨a, rfl, ha⟩, ?_⟩
  unfold Parser.attempt
  simp only [hrun]

/-- Whether an item is written in canonical form makes no difference to what it is. -/
theorem Reads.orAsItStands {p : Parser (α × Bool)} {holds : α × Bool → List Token → Prop} {ts : List Token}
    (hp : Reads like p ts next holds) : Makes like (Read.orAsItStands p) ts next fun a => ∃ canonical ws, holds (a, canonical) ws := by
  intro us more s hu hm hs
  obtain ⟨⟨⟨⟨a, canonical⟩, tokens⟩, source⟩, ws, ⟨⟨_, ha, -⟩, -, rfl⟩, hrun⟩ := hp.captured.sourceOf hu hm hs
  refine ⟨a, if canonical then tokens else source, ⟨canonical, tokens, ha⟩, ?_⟩
  unfold Read.orAsItStands
  rw [run_bind, hrun]
  rfl

variable [Token.Likeness like]

theorem copies_anyGroup {delimiter : Delimiter} {content : List Token} {opensAt closesAt : Position} :
    Copies like anyGroup [.group delimiter content opensAt closesAt] next (·.1 = delimiter) := by
  intro us more s hu _ hs
  obtain ⟨inner, opens, closes, rfl, -⟩ := exists_of_group hu
  refine ⟨(delimiter, inner, closes), [.group delimiter inner opens closes], ⟨rfl, hu⟩, ?_⟩
  unfold anyGroup inspect
  simp only [hs, List.cons_append, List.nil_append]
  show Except.ok ((delimiter, inner, closes), { s with rest := s.rest.drop 1, written := _ }) = _
  rw [hs]
  rfl

theorem copies_literal {text : String} : Copies like literal [Token.text text] next fun _ => True := by
  intro us more s hu _ hs
  obtain ⟨v, vs, rfl, hv, hvs⟩ := (Token.Likeness.agree hu).of_cons
  obtain ⟨pos, rfl⟩ := hv.of_literal
  obtain rfl := hvs.of_nil
  refine ⟨.token text, [Token.text text], ⟨trivial, Token.Likeness.refl _⟩, ?_⟩
  unfold literal inspect
  simp only [hs, List.cons_append, List.nil_append]
  show Except.ok (Literal.token text, { s with rest := s.rest.drop 1, written := _ }) = _
  rw [hs]
  rfl

theorem ReadInTurn.forall₂_of_copies {ι : Type} {tokens : ι → List Token} {holds : ι → α → Prop} {items : List ι} {as : List α}
    {ws : List Token} (h : ReadInTurn (fun i a ws => holds i a ∧ like (tokens i) ws) items as ws) :
    List.Forall₂ holds items as ∧ like (items.flatMap tokens) ws := by
  induction h with
  | nil => exact ⟨.nil, Token.Likeness.refl _⟩
  | cons first rest ih => exact ⟨.cons first.1 ih.1, Token.Likeness.append first.2 ih.2⟩

end

/-! ## Attributes -/

/-- Nothing follows the path of an attribute, or a bracket, or an equals sign with a literal. -/
inductive IsPlainForm : List Token → Prop where
  | path : IsPlainForm []
  | list (delimiter : Delimiter) (content : List Token) (opensAt closesAt : Position) :
      IsPlainForm [.group delimiter content opensAt closesAt]
  | value (text : String) : IsPlainForm (Token.symbol "=" ++ [Token.text text])

/-- An attribute before an item, or one in it, that is not set to anything but a literal. -/
structure Attribute.IsPlain (inner : Bool) (a : Attribute) : Prop where
  placed : a.inner = inner
  path : a.path.IsBare
  content : ∃ form, IsPlainForm form ∧ a.content = a.path.tokens ++ form

/-- The attributes have the same path and are written alike. -/
structure Attribute.Alike (like : List Token → List Token → Prop) (a b : Attribute) : Prop where
  placed : b.inner = a.inner
  path : b.path = a.path
  content : like a.content b.content

namespace Read

variable {like : List Token → List Token → Prop} [Token.Likeness like] {next : List Token → Bool} {g : Grammar}

theorem copies_attributeValue {text : String} :
    Copies like (attributeValue g) [Token.text text] List.isEmpty fun _ => True := by
  have halone : Copies like (do let _ ← literal; if !(← atEnd) then fail .expressionMissing) [Token.text text] List.isEmpty
      fun _ => True := by
    refine Copies.bind_nil copies_literal fun _ _ => reads_atEnd true (fun hu hm => ?_) (reads_pure ⟨trivial, Token.Likeness.refl _⟩)
    rw [eq_nil_of_like hu]
    exact hm
  have hfirst : Copies like (attempt (do let _ ← literal; if !(← atEnd) then fail .expressionMissing)) [Token.text text]
      List.isEmpty fun read => read.isNone = false := (Reads.attempt halone).imp fun ⟨_, hread, ha⟩ => ⟨by rw [hread]; rfl, ha.2⟩
  refine hfirst.bind_nil fun read hread => ?_
  dsimp only
  rw [hread]
  exact reads_pure ⟨trivial, Token.Likeness.refl _⟩

theorem copies_attributeForm {form : List Token} (h : IsPlainForm form) :
    Copies like (attributeForm g) form List.isEmpty fun _ => True := by
  cases h with
  | path =>
    refine reads_sees false (fun hu hm => ?_) (reads_seesBut false (fun hu hm => ?_) (reads_pure ⟨trivial, Token.Likeness.refl _⟩))
    · rw [eq_nil_of_like hu, List.nil_append, List.isEmpty_iff.mp hm]
      rfl
    · rw [eq_nil_of_like hu, List.nil_append, List.isEmpty_iff.mp hm]
      rfl
  | list delimiter content opensAt closesAt =>
    refine reads_sees true (fun hu _ => ?_) (copies_anyGroup.bind_nil fun _ _ => reads_pure ⟨trivial, Token.Likeness.refl _⟩)
    obtain ⟨inner, opens, closes, rfl, -⟩ := exists_of_group hu
    rfl
  | value text =>
    have hshape : ∀ {us : List Token}, like (Token.symbol "=" ++ [Token.text text]) us →
        ∃ joint pos textAt, us = [.punct '=' joint pos, .literal text textAt] := by
      intro us hu
      obtain ⟨v, vs, rfl, hv, hvs⟩ := Token.AllAgree.of_cons (Token.Likeness.agree hu)
      obtain ⟨joint, pos, rfl, -⟩ := hv.of_punct
      obtain ⟨w, ws, rfl, hw, hws⟩ := hvs.of_cons
      obtain ⟨textAt, rfl⟩ := hw.of_literal
      obtain rfl := hws.of_nil
      exact ⟨joint, pos, textAt, rfl⟩
    refine reads_sees false (fun hu _ => ?_) (reads_seesBut true (fun hu _ => ?_) ?_)
    · obtain ⟨joint, pos, textAt, rfl⟩ := hshape hu
      rfl
    · obtain ⟨joint, pos, textAt, rfl⟩ := hshape hu
      cases joint <;> rfl
    · refine reads_ignored (fun s => ⟨_, rfl⟩) fun position => ?_
      refine Copies.bind (copies_mark "=" (by decide) : Copies like _ _ (fun _ => true) _) (fun _ _ => ?_) fun _ _ => rfl
      exact copies_attributeValue.bind_nil fun _ _ => reads_pure ⟨trivial, Token.Likeness.refl _⟩

theorem stands_of_isPlainForm {form : List Token} (h : IsPlainForm form) {us more : List Token} (hu : like form us)
    (hm : more.isEmpty = true) : endsNames (us ++ more) = true := by
  rw [List.isEmpty_iff.mp hm, List.append_nil]
  cases h with
  | path =>
    rw [eq_nil_of_like hu]
    rfl
  | list delimiter content opensAt closesAt =>
    obtain ⟨inner, opens, closes, rfl, -⟩ := exists_of_group hu
    rfl
  | value text =>
    obtain ⟨v, vs, rfl, hv, -⟩ := Token.AllAgree.of_cons (Token.Likeness.agree hu)
    obtain ⟨joint, pos, rfl, -⟩ := hv.of_punct
    rfl

/-- A path of names does not start with a word that names nothing. -/
theorem not_stands_of_isBare {path : PathExpr} (h : path.IsBare) {word : String} {us more : List Token}
    (hu : like path.tokens us) (hword : isPathName word = false) : (Expected.word word).stands (us ++ more) = false := by
  rcases exists_of_path h.proper (Token.Likeness.agree hu) with ⟨pos, joint, next, rest, rfl⟩ | ⟨name, pos, rest, rfl, hname⟩
  · rfl
  · refine beq_eq_false_iff_ne.mpr ?_
    rintro rfl
    rw [hword] at hname
    cases hname

theorem copies_attributeContent {path : PathExpr} {form : List Token} (hpath : path.IsBare) (h : IsPlainForm form) :
    Copies like (attributeContent g) (path.tokens ++ form) List.isEmpty (·.1 = path) := by
  have hnamed : Copies like (do
      if ← sees (.word "unsafe") then
        let position ← here
        word "unsafe"
        pure (PathExpr.mk false [.mk "unsafe" .none], position)
      else plainPath) path.tokens endsNames (·.1 = path) :=
    reads_sees false (fun hu _ => not_stands_of_isBare hpath hu (by decide)) (copies_plainPath hpath)
  refine hnamed.bind (fun read hread => ?_) fun hu hm => stands_of_isPlainForm h hu hm
  exact (copies_attributeForm h).bind_nil fun _ _ => reads_pure ⟨hread, Token.Likeness.refl _⟩

theorem copies_attribute {inner : Bool} {a : Attribute} (h : a.IsPlain inner) :
    Copies like (singleAttribute g inner) a.tokens next (a.Alike like) := by
  obtain ⟨placed, hpath, form, hform, hcontent⟩ := h
  have hbody : ∀ position, Copies like (do
      let read ← captured (attributeContent g)
      write read.2
      pure (⟨position, inner, read.1.1, read.1.2.1, read.1.2.2, read.2⟩ : Attribute)) a.content List.isEmpty
      (a.Alike like) := by
    intro position
    rw [hcontent]
    refine Copies.keep_nil (copies_attributeContent hpath hform) fun read ws hread hws => ?_
    exact reads_pure ⟨⟨placed.symm, hread, hcontent ▸ hws⟩, Token.Likeness.refl _⟩
  have hhash : Copies like (mark "#") (Token.symbol "#") (fun _ => true) fun _ => True := copies_mark "#" (by decide)
  refine reads_ignored (fun s => ⟨_, rfl⟩) fun position => ?_
  unfold Attribute.tokens
  rw [placed, List.append_assoc]
  refine hhash.bind (fun _ _ => ?_) fun _ _ => rfl
  cases inner with
  | false => exact Copies.inside (hbody position)
  | true =>
    refine Copies.bind (copies_mark "!" (by decide) : Copies like _ _ (fun _ => true) _) (fun _ _ => ?_) fun _ _ => rfl
    exact Copies.inside (hbody position)

/-- No attribute stands here. -/
def endsAttributes (ts : List Token) : Bool := !(Expected.mark "#").stands ts

theorem copies_outerAttributes {attrs : List Attribute} (h : ∀ a ∈ attrs, a.IsPlain false) :
    Copies like (outerAttributes g) (Attribute.tokensOfAll attrs) endsAttributes (List.Forall₂ (Attribute.Alike like) attrs) := by
  refine (reads_whileSeen (fun _ => true) (run_sees _) (fun hm => ⟨(Bool.not_eq_true' _).mp hm, rfl⟩) ?_
    (fun a ha => copies_attribute (h a ha)) ?_).imp ReadInTurn.forall₂_of_copies
  · intro a ha us more hu
    obtain ⟨v, vs, rfl, hv, -⟩ := Token.AllAgree.of_cons (Token.Likeness.agree hu)
    obtain ⟨joint, pos, rfl, -⟩ := hv.of_punct
    exact ⟨rfl, rfl⟩
  · exact fun a ha => List.cons_ne_nil _ _

/-- No attribute for what is around stands here. -/
def endsInnerAttributes (ts : List Token) : Bool := !((Expected.mark "#").stands ts && (Expected.mark "!").stands (afterTree ts))

theorem copies_innerAttributes {attrs : List Attribute} (h : ∀ a ∈ attrs, a.IsPlain true) :
    Copies like (innerAttributes g) (Attribute.tokensOfAll attrs) endsInnerAttributes (List.Forall₂ (Attribute.Alike like) attrs) := by
  have htest : ∀ s, (do pure ((← sees (.mark "#")) && (← seesSecond (.mark "!")))) s =
      .ok ((Expected.mark "#").stands s.rest && (Expected.mark "!").stands (afterTree s.rest), s) := fun _ => rfl
  refine (reads_whileSeen (fun _ => true) htest (fun hm => ⟨(Bool.not_eq_true' _).mp hm, rfl⟩) ?_
    (fun a ha => copies_attribute (h a ha)) ?_).imp ReadInTurn.forall₂_of_copies
  · intro a ha us more hu
    have hplaced := (h a ha).placed
    unfold Attribute.tokens at hu
    rw [hplaced] at hu
    obtain ⟨v, vs, rfl, hv, hvs⟩ := Token.AllAgree.of_cons (Token.Likeness.agree hu)
    obtain ⟨joint, pos, rfl, -⟩ := hv.of_punct
    obtain ⟨w, ws, rfl, hw, -⟩ := hvs.of_cons
    obtain ⟨jointly, second, rfl, -⟩ := hw.of_punct
    exact ⟨rfl, rfl⟩
  · exact fun a ha => List.cons_ne_nil _ _

end Read

/-! ## Visible names -/

/-- What starts with a visibility and a word starts with a word. -/
theorem exists_of_visible {v : VisibilityExpr} (h : v.Proper) {name : String} {rest us : List Token}
    (hu : Token.AllAgree (v.tokens ++ Token.word name :: rest) us) :
    ∃ first pos more, us = .ident first pos :: more ∧ (first = "pub" ∨ first = name) := by
  have hword : ∀ {first : String} {ts : List Token}, Token.AllAgree (Token.word first :: ts) us →
      ∃ pos more, us = .ident first pos :: more := by
    intro first ts hu
    obtain ⟨v, vs, rfl, hv, -⟩ := hu.of_cons
    obtain ⟨pos, rfl⟩ := hv.of_ident
    exact ⟨pos, vs, rfl⟩
  cases v with
  | inherited =>
    obtain ⟨pos, more, rfl⟩ := hword hu
    exact ⟨name, pos, more, rfl, Or.inr rfl⟩
  | everywhere =>
    obtain ⟨pos, more, rfl⟩ := hword hu
    exact ⟨"pub", pos, more, rfl, Or.inl rfl⟩
  | restricted tokens =>
    obtain ⟨inner, opensAt, closesAt, rfl, -⟩ := h
    obtain ⟨pos, more, rfl⟩ := hword hu
    exact ⟨"pub", pos, more, rfl, Or.inl rfl⟩

theorem VisibilityExpr.endsAt_of_word (v : VisibilityExpr) {name : String} (h : name ≠ "pub") {ts us more : List Token}
    (hu : Token.AllAgree (Token.word name :: ts) us) : v.endsAt (us ++ more) = true := by
  obtain ⟨u, vs, rfl, hv, -⟩ := hu.of_cons
  obtain ⟨pos, rfl⟩ := hv.of_ident
  cases v with
  | inherited => exact (Bool.not_eq_true' _).mpr (beq_eq_false_iff_ne.mpr h)
  | everywhere => rfl
  | restricted tokens => rfl

theorem ne_of_not_isReserved {name word : String} (h : isReserved name = false) (hword : isReserved word = true) : name ≠ word := by
  rintro rfl
  rw [hword] at h
  cases h

/-! ## Structs -/

/-- A plain field has a name that is not reserved, and its type is plain. -/
structure Field.IsPlain (f : Field) : Prop where
  attributes : ∀ a ∈ f.attributes, a.IsPlain false
  visibility : f.visibility.Proper
  named : ∃ name pos, f.name = some (name, pos) ∧ isReserved name = false
  type : f.type.isPlain = true ∧ f.type.Proper

/-- The fields have the same name and the same type. -/
structure Field.Alike (like : List Token → List Token → Prop) (f f' : Field) : Prop where
  attributes : List.Forall₂ (Attribute.Alike like) f.attributes f'.attributes
  visibility : f.visibility.Alike like f'.visibility
  named : f'.name.map Prod.fst = f.name.map Prod.fst
  type : f'.type = f.type

/-- What stands behind the name of a struct with named fields. -/
def StructItem.tail (s : StructItem) (fields : List Field) (trailing : Bool) : List Token :=
  s.generics.tokens ++ ((s.whereClause.map WhereClause.tokens).getD [] ++ [.enclosed .brace (commas trailing (fields.map Field.tokens))])

theorem StructItem.tokens_of_named {s : StructItem} {fields : List Field} {trailing : Bool} (h : s.fields = .named fields trailing) :
    s.tokens = Attribute.tokensOfAll s.attributes ++
      (s.visibility.tokens ++ Token.word "struct" :: Token.word s.name :: s.tail fields trailing) := by
  rw [tokens, h, tail]
  simp only [List.append_assoc, List.cons_append]

structure StructItem.IsPlain (s : StructItem) : Prop where
  attributes : ∀ a ∈ s.attributes, a.IsPlain false
  visibility : s.visibility.Proper
  name : isReserved s.name = false
  generics : s.generics.IsPlain
  whereClause : ∀ clause ∈ s.whereClause, clause.IsPlain
  fields : ∃ fields trailing, s.fields = .named fields trailing ∧ (fields = [] → trailing = false) ∧ ∀ f ∈ fields, f.IsPlain

/-- The structs have the same name, parameters and bounds, and fields that are alike. -/
structure StructItem.Alike (like : List Token → List Token → Prop) (s s' : StructItem) : Prop where
  attributes : List.Forall₂ (Attribute.Alike like) s.attributes s'.attributes
  visibility : s.visibility.Alike like s'.visibility
  name : s'.name = s.name
  generics : s'.generics = s.generics
  whereClause : s'.whereClause = s.whereClause
  fields : ∃ fields fields' trailing, s.fields = .named fields trailing ∧ s'.fields = .named fields' trailing ∧
    List.Forall₂ (Field.Alike like) fields fields'

namespace Read

variable {g : Grammar} {bound : Nat}

/-- The end of a field. -/
def endsField (ts : List Token) : Bool := (Expected.mark ",").stands ts || ts.isEmpty

theorem endsType_of_endsField {ts : List Token} (h : endsField ts = true) : endsType ts = true := by
  rcases Bool.or_eq_true_iff.mp h with h | h
  · exact endsType_of_endsArgument (by rw [endsArgument, h]; rfl)
  · exact endsType_of_isEmpty h

/-- Attributes and a visibility, and then a word. -/
theorem makes_visible {α : Type} {attrs : List Attribute} {v : VisibilityExpr} {name : String} {ts : List Token}
    {next : List Token → Bool} {f : List Attribute → VisibilityExpr → Parser α} {holds : α → Prop} (hattrs : ∀ a ∈ attrs, a.IsPlain false)
    (hv : v.Proper) (hname : name ≠ "pub")
    (hf : ∀ attrs' v', List.Forall₂ (Attribute.Alike Token.AllMatch) attrs attrs' → v.Alike Token.AllMatch v' →
      Makes Token.AllMatch (f attrs' v') (Token.word name :: ts) next holds) :
    Makes Token.AllMatch (do f (← outerAttributes g) (← visibility)) (Attribute.tokensOfAll attrs ++ (v.tokens ++ Token.word name :: ts))
      next holds := by
  refine Makes.bind (copies_outerAttributes hattrs).makes (fun attrs' hattrs' => ?_) fun hu _ => ?_
  · exact Makes.bind (copies_visibility hv).makes (fun v' hv' => hf attrs' v' hattrs' hv') fun hu _ => v.endsAt_of_word hname hu.1
  · obtain ⟨first, pos, more, rfl, -⟩ := exists_of_visible hv hu.1
    rfl

/-- A field with a name, whatever its type is read as. -/
theorem makes_fieldOf {attrs : List Attribute} {v : VisibilityExpr} {name : String} {ts : List Token} {holds : TypeExpr → Prop}
    (hattrs : ∀ a ∈ attrs, a.IsPlain false) (hv : v.Proper) (hname : isReserved name = false)
    (htype : Makes Token.AllMatch (g.type true) ts endsField holds) :
    Makes Token.AllMatch (namedField g) (Attribute.tokensOfAll attrs ++ (v.tokens ++ Token.word name :: (Token.symbol ":" ++ ts))) endsField
      fun f => List.Forall₂ (Attribute.Alike Token.AllMatch) attrs f.attributes ∧ v.Alike Token.AllMatch f.visibility ∧
        f.name.map Prod.fst = some name ∧ holds f.type := by
  refine makes_visible hattrs hv (ne_of_not_isReserved hname (by decide)) fun attrs' v' hattrs' hv' => ?_
  refine reads_ignored (fun s => ⟨_, rfl⟩) fun position => reads_sees false (fun hu _ => ?_) ?_
  · obtain ⟨v, vs, rfl, hv, -⟩ := hu.1.of_cons
    obtain ⟨pos, rfl⟩ := hv.of_ident
    exact beq_eq_false_iff_ne.mpr (ne_of_not_isReserved hname (by decide))
  refine Takes.bind (takes_identifier hname : Takes _ _ [Token.word name] (fun _ => true) _) ?_ fun _ _ => rfl
  refine Takes.bind (takes_mark ":" (by decide) : Takes _ _ _ (fun _ => true) _) ?_ fun _ _ => rfl
  have hfield : Makes Token.AllMatch (fieldType g false) ts endsField holds := htype
  exact Makes.bind_nil hfield fun type ht => reads_pure ⟨hattrs', hv', rfl, ht⟩

theorem makes_namedField (hg : RereadsBounds g bound) {f : Field} (h : f.IsPlain) (hsize : Token.sizes f.tokens < bound) :
    Makes Token.AllMatch (namedField g) f.tokens endsField (f.Alike Token.AllMatch) := by
  obtain ⟨name, pos, hname, hfree⟩ := h.named
  have htokens : f.tokens = Attribute.tokensOfAll f.attributes ++ (f.visibility.tokens ++
      Token.word name :: (Token.symbol ":" ++ f.type.tokens)) := by
    rw [Field.tokens, hname, List.append_assoc, List.append_assoc]
    rfl
  rw [htokens] at hsize ⊢
  simp only [sizes_append, Token.sizes] at hsize
  have htype : Takes Token.AllMatch (g.type true) f.type.tokens endsType f.type :=
    Reads.of_agree (hg.types true f.type h.type.1 h.type.2 (by omega))
  refine (makes_fieldOf h.attributes h.visibility hfree (htype.mono fun _ => endsType_of_endsField)).imp ?_
  rintro f' - ⟨hattrs, hv, hnamed, ht⟩
  exact ⟨hattrs, hv, by rw [hnamed, hname]; rfl, ht⟩

theorem makes_namedFields (hg : RereadsBounds g bound) {fields : List Field} {trailing : Bool} {opensAt closesAt : Position}
    (h : ∀ f ∈ fields, f.IsPlain) (hended : fields = [] → trailing = false)
    (hsize : Token.sizes (commas trailing (fields.map Field.tokens)) < bound) {next : List Token → Bool} :
    Makes Token.AllMatch (namedFields g) [.group .brace (commas trailing (fields.map Field.tokens)) opensAt closesAt] next
      fun read => List.Forall₂ (Field.Alike Token.AllMatch) fields read.1 ∧ read.2 = trailing := by
  refine Makes.inside (makes_separatedUntil run_atEnd (fun hm => hm) rfl (fun f hf us more hu => ?_) (fun f hf => ?_) hended)
  · obtain ⟨name, pos, hname, -⟩ := (h f hf).named
    cases us with
    | cons u rest => rfl
    | nil =>
      have hlength := Token.length_of_allAgree hu.1
      simp [Field.tokens, hname] at hlength
  · have hle := sizes_le_commas trailing (List.mem_map_of_mem (f := Field.tokens) hf)
    exact makes_namedField hg (h f hf) (by omega)

theorem takes_whereClause? (hg : RereadsBounds g bound) {clause : Option WhereClause} (h : ∀ found ∈ clause, found.IsPlain)
    (hsize : Token.sizes ((clause.map WhereClause.tokens).getD []) < bound) :
    Takes Token.AllMatch (whereClause? g) ((clause.map WhereClause.tokens).getD []) endsClause clause := by
  cases clause with
  | none =>
    refine reads_sees false (fun hu hm => ?_) (takes_pure _)
    rw [eq_nil_of_like hu, List.nil_append]
    rcases exists_of_endsClause hm with rfl | ⟨content, opensAt, closesAt, rest, rfl⟩ | ⟨c, -, joint, pos, rest, rfl⟩ <;> rfl
  | some found =>
    have hfound := h found rfl
    refine reads_sees true (fun hu _ => ?_) (Takes.map some (takes_whereClause hg hfound hsize))
    replace hu : Token.AllMatch found.tokens _ := hu
    rw [WhereClause.tokens, if_neg (by rw [List.isEmpty_iff]; exact hfound.nonempty)] at hu
    obtain ⟨v, vs, rfl, hv, -⟩ := hu.1.of_cons
    obtain ⟨pos, rfl⟩ := hv.of_ident
    rfl

/-- Where there may be a where clause and then is something in braces, nothing opens parameters or starts a type. -/
theorem exists_of_clause {clause : Option WhereClause} {content us : List Token} {opensAt closesAt : Position}
    (hu : Token.AllAgree ((clause.map WhereClause.tokens).getD [] ++ [.group .brace content opensAt closesAt]) us) :
    (∃ pos rest, us = .ident "where" pos :: rest) ∨ ∃ inner opens closes, us = [.group .brace inner opens closes] := by
  have hbrace : Token.AllAgree [.group .brace content opensAt closesAt] us →
      ∃ inner opens closes, us = [.group .brace inner opens closes] := fun hu =>
    have ⟨inner, opens, closes, h, _⟩ := exists_of_group hu
    ⟨inner, opens, closes, h⟩
  cases clause with
  | none => exact Or.inr (hbrace hu)
  | some found =>
    replace hu : Token.AllAgree (found.tokens ++ [.group .brace content opensAt closesAt]) us := hu
    unfold WhereClause.tokens at hu
    split at hu
    · exact Or.inr (hbrace hu)
    · obtain ⟨v, vs, rfl, hv, -⟩ := hu.of_cons
      obtain ⟨pos, rfl⟩ := hv.of_ident
      exact Or.inl ⟨pos, vs, rfl⟩

/-- A struct from its name on, whatever its fields are read as. -/
theorem makes_structWith (hg : RereadsBounds g bound) {name : String} (hname : isReserved name = false) {parameters : Generics}
    (hparameters : parameters.IsPlain) {clause : Option WhereClause} (hclause : ∀ found ∈ clause, found.IsPlain)
    {content : List Token} {opensAt closesAt : Position} {next : List Token → Bool} {holds : List Field × Bool → Prop}
    (hfields : Makes Token.AllMatch (namedFields g) [.group .brace content opensAt closesAt] next holds)
    (hsize : Token.sizes (parameters.tokens ++ (clause.map WhereClause.tokens).getD []) < bound)
    (attributes : List Attribute) (v : VisibilityExpr) :
    Makes Token.AllMatch (structItem g attributes v) (Token.word "struct" :: Token.word name :: (parameters.tokens ++
      ((clause.map WhereClause.tokens).getD [] ++ [.group .brace content opensAt closesAt]))) next fun s =>
        ∃ nameAt read, holds read ∧ s = ⟨attributes, v, name, nameAt, parameters, clause, .named read.1 read.2⟩ := by
  rw [sizes_append] at hsize
  refine Takes.bind (takes_word : Takes _ _ [Token.word "struct"] (fun _ => true) _) ?_ fun _ _ => rfl
  refine reads_ignored (fun s => ⟨_, rfl⟩) fun nameAt => ?_
  refine Takes.bind (takes_identifier hname : Takes _ _ [Token.word name] (fun _ => true) _) ?_ fun _ _ => rfl
  refine Takes.bind (Reads.of_agree (takes_generics hg hparameters (by omega))) ?_ fun hu _ => ?_
  rotate_left
  · rcases exists_of_clause hu.1 with ⟨pos, rest, rfl⟩ | ⟨inner, opens, closes, rfl⟩ <;> rfl
  have hbody : Makes Token.AllMatch (structBody g) ((clause.map WhereClause.tokens).getD [] ++ [.group .brace content opensAt closesAt])
      next fun body => ∃ read, holds read ∧ body = (clause, .named read.1 read.2) := by
    refine Takes.bind (takes_whereClause? hg hclause (by omega)) ?_ fun hu _ => ?_
    · refine reads_sees false (fun hu _ => ?_) ?_
      · obtain ⟨inner, opens, closes, rfl, -⟩ := exists_of_group hu
        rfl
      rw [Bool.and_false, if_neg Bool.false_ne_true]
      refine reads_sees true (fun hu _ => ?_) ?_
      · obtain ⟨inner, opens, closes, rfl, -⟩ := exists_of_group hu
        rfl
      exact Makes.bind_nil hfields fun read hread => reads_pure ⟨read, hread, rfl⟩
    · obtain ⟨inner, opens, closes, rfl, -⟩ := exists_of_group hu
      rfl
  refine Makes.bind_nil hbody fun body hread => reads_pure ?_
  obtain ⟨read, hholds, rfl⟩ := hread
  exact ⟨nameAt, read, hholds, rfl⟩

theorem makes_structItem (hg : RereadsBounds g bound) {s : StructItem} (h : s.IsPlain) {attributes : List Attribute} {v : VisibilityExpr}
    (hattributes : List.Forall₂ (Attribute.Alike Token.AllMatch) s.attributes attributes) (hv : s.visibility.Alike Token.AllMatch v)
    {fields : List Field} {trailing : Bool} (hfields : s.fields = .named fields trailing)
    (hsize : Token.sizes (s.tail fields trailing) < bound) {next : List Token → Bool} :
    Makes Token.AllMatch (structItem g attributes v) (Token.word "struct" :: Token.word s.name :: s.tail fields trailing) next
      (s.Alike Token.AllMatch) := by
  obtain ⟨plain, comma, hplain, hended, hall⟩ := h.fields
  rw [hfields] at hplain
  cases hplain
  simp only [StructItem.tail, Token.sizes, sizes_append, Token.enclosed, Token.size] at hsize
  refine (makes_structWith hg h.name h.generics h.whereClause (makes_namedFields hg hall hended (by omega))
    (by rw [sizes_append]; omega) attributes v).imp ?_
  rintro s' - ⟨nameAt, ⟨fields', found⟩, ⟨halike, rfl⟩, rfl⟩
  exact ⟨hattributes, hv, rfl, rfl, rfl, fields, fields', _, hfields, rfl, halike⟩

theorem itemBody_of_struct {attributes : List Attribute} {v : VisibilityExpr} {start pos : Position} {s : Stream}
    {rest : List Token} (hs : s.rest = .ident "struct" pos :: rest) :
    itemBody g attributes v start s = (do pure (Item.struct (← structItem g attributes v), true)) s := by
  obtain ⟨_, closesAt, within, leftover, written⟩ := s
  obtain rfl := hs
  rfl

/-- An item after its attributes and its visibility. -/
theorem makes_item {attrs : List Attribute} {v : VisibilityExpr} {name : String} {ts : List Token} {next : List Token → Bool}
    {holds : Item → Prop} (hattrs : ∀ a ∈ attrs, a.IsPlain false) (hv : v.Proper) (hname : name ≠ "pub")
    (hbody : ∀ attrs' v' start, List.Forall₂ (Attribute.Alike Token.AllMatch) attrs attrs' → v.Alike Token.AllMatch v' →
      Makes Token.AllMatch (itemBody g attrs' v' start) (Token.word name :: ts) next fun read => holds read.1) :
    Makes Token.AllMatch (item g) (Attribute.tokensOfAll attrs ++ (v.tokens ++ Token.word name :: ts)) next holds := by
  have hread : Makes Token.AllMatch (do
      let attributes ← outerAttributes g
      let start ← here
      let visibility ← visibility
      itemBody g attributes visibility start) (Attribute.tokensOfAll attrs ++ (v.tokens ++ Token.word name :: ts)) next
        fun read => holds read.1 := by
    refine Makes.bind (copies_outerAttributes hattrs).makes (fun attrs' hattrs' => reads_ignored (fun s => ⟨_, rfl⟩) fun start => ?_)
      fun hu _ => ?_
    · exact Makes.bind (copies_visibility hv).makes (fun v' hv' => hbody attrs' v' start hattrs' hv') fun hu _ =>
        v.endsAt_of_word hname hu.1
    · obtain ⟨first, pos, more, rfl, -⟩ := exists_of_visible hv hu.1
      rfl
  exact (Reads.orAsItStands hread).imp fun ⟨_, _, h⟩ => h

/-- A struct after its attributes and its visibility. -/
theorem makes_structOf {attrs : List Attribute} {v : VisibilityExpr} {ts : List Token} {next : List Token → Bool}
    {holds : StructItem → Prop} (hattrs : ∀ a ∈ attrs, a.IsPlain false) (hv : v.Proper)
    (h : ∀ attrs' v', List.Forall₂ (Attribute.Alike Token.AllMatch) attrs attrs' → v.Alike Token.AllMatch v' →
      Makes Token.AllMatch (structItem g attrs' v') (Token.word "struct" :: ts) next holds) :
    Makes Token.AllMatch (item g) (Attribute.tokensOfAll attrs ++ (v.tokens ++ Token.word "struct" :: ts)) next fun read =>
      ∃ s, read = .struct s ∧ holds s := by
  refine makes_item hattrs hv (by decide) fun attrs' v' start hattrs' hv' => ?_
  have hstruct : Makes Token.AllMatch (do pure (Item.struct (← structItem g attrs' v'), true)) (Token.word "struct" :: ts) next
      fun read : Item × Bool => ∃ s, read.1 = .struct s ∧ holds s :=
    Makes.bind_nil (h attrs' v' hattrs' hv') fun s hs => reads_pure ⟨s, rfl, hs⟩
  refine hstruct.congr fun {us more stream} hu _ hs => ?_
  obtain ⟨v, vs, rfl, hv, -⟩ := hu.1.of_cons
  obtain ⟨pos, rfl⟩ := hv.of_ident
  exact itemBody_of_struct hs

/-- A plain struct is read again as one that is alike. -/
theorem makes_struct (hg : RereadsBounds g bound) {s : StructItem} (h : s.IsPlain) (hsize : Token.sizes s.tokens < bound)
    {next : List Token → Bool} :
    Makes Token.AllMatch (item g) s.tokens next fun read => ∃ s', read = .struct s' ∧ s.Alike Token.AllMatch s' := by
  obtain ⟨fields, trailing, hfields, -⟩ := h.fields
  rw [StructItem.tokens_of_named hfields] at hsize ⊢
  simp only [sizes_append, Token.sizes] at hsize
  exact makes_structOf h.attributes h.visibility fun attrs' v' hattrs' hv' =>
    makes_structItem hg h hattrs' hv' hfields (by omega)

/-! ### Macros as items -/

theorem itemBody_of_global {attributes : List Attribute} {start pos second : Position} {joint : Bool} {s : Stream}
    {rest : List Token} (hs : s.rest = .punct ':' true pos :: .punct ':' joint second :: rest) :
    itemBody g attributes .inherited start s = (do invocationItem; pure (Item.plain, true)) s := by
  obtain ⟨_, closesAt, within, leftover, written⟩ := s
  obtain rfl := hs
  rfl

theorem makes_invocationItem {names : List String} (hne : names ≠ []) (hnames : ∀ name ∈ names, IsPlainName name) {content : List Token}
    {opensAt closesAt : Position} {next : List Token → Bool} :
    Makes Token.AllMatch invocationItem ((PathExpr.ofNames true names).tokens ++
      (Token.symbol "!" ++ (.group .parenthesis content opensAt closesAt :: Token.symbol ";"))) next fun _ => True := by
  refine Makes.bind (Copies.discard (copies_plainPath ⟨true, names, hne, hnames, rfl⟩)).makes (fun _ _ => ?_) fun hu _ => ?_
  · refine Makes.bind (copies_mark "!" (by decide) : Copies _ _ _ (fun _ => true) _).makes (fun _ _ => ?_) fun _ _ => rfl
    have hgroup : ∀ {us more : List Token}, Token.AllMatch (.group .parenthesis content opensAt closesAt :: Token.symbol ";") us →
        ∃ inner opens closes rest, us ++ more = .group .parenthesis inner opens closes :: rest := by
      intro us more hu
      obtain ⟨v, vs, rfl, hv, -⟩ := hu.1.of_cons
      obtain ⟨inner, opens, closes, rfl, -⟩ := hv.of_group
      exact ⟨inner, opens, closes, vs ++ more, rfl⟩
    refine reads_sees false (fun hu _ => ?_) (reads_sees false (fun hu _ => ?_) ?_)
    · obtain ⟨inner, opens, closes, rest, h⟩ := hgroup hu
      rw [h]
      rfl
    · obtain ⟨inner, opens, closes, rest, h⟩ := hgroup hu
      rw [h]
      rfl
    · refine Makes.bind (copies_anyGroup : Copies _ _ [Token.group .parenthesis content opensAt closesAt] (fun _ => true) _).makes
        (fun read hread => ?_) fun _ _ => rfl
      obtain ⟨delimiter, inner, closes⟩ := read
      obtain rfl : delimiter = .parenthesis := hread
      exact (copies_mark ";" (by decide)).makes
  · obtain ⟨v, vs, rfl, hv, -⟩ := Token.AllAgree.of_cons hu.1
    obtain ⟨joint, pos, rfl, -⟩ := hv.of_punct
    rfl

/-- A macro that is named from the root, with arguments in round brackets, is read as a plain item. -/
theorem makes_invocation {names : List String} (hne : names ≠ []) (hnames : ∀ name ∈ names, IsPlainName name) {content : List Token}
    {opensAt closesAt : Position} {next : List Token → Bool} :
    Makes Token.AllMatch (item g) ((PathExpr.ofNames true names).tokens ++
      (Token.symbol "!" ++ (.group .parenthesis content opensAt closesAt :: Token.symbol ";"))) next (· = .plain) := by
  have hstart : ∀ {us more : List Token}, Token.AllMatch ((PathExpr.ofNames true names).tokens ++
      (Token.symbol "!" ++ (.group .parenthesis content opensAt closesAt :: Token.symbol ";"))) us →
      ∃ pos joint second rest, us ++ more = .punct ':' true pos :: .punct ':' joint second :: rest := by
    intro us more hu
    replace hu : Token.AllAgree (Token.symbol "::" ++ _) us := hu.1
    obtain ⟨pos, joint, second, rest, rfl, -⟩ := hu.of_symbol_pair ':' ':' rfl
    exact ⟨pos, joint, second, rest ++ more, rfl⟩
  have hread : Makes Token.AllMatch (do
      let attributes ← outerAttributes g
      let start ← here
      let visibility ← visibility
      itemBody g attributes visibility start) ((PathExpr.ofNames true names).tokens ++
      (Token.symbol "!" ++ (.group .parenthesis content opensAt closesAt :: Token.symbol ";"))) next (·.1 = .plain) := by
    refine reads_unattributed (fun hu _ => ?_) (reads_ignored (fun s => ⟨_, rfl⟩) fun start => ?_)
    · obtain ⟨pos, joint, second, rest, h⟩ := hstart hu
      rw [h]
      rfl
    refine reads_idle .inherited (fun hu _ hs => ?_) ?_
    · obtain ⟨pos, joint, second, rest, h⟩ := hstart hu
      unfold visibility
      rw [run_bind, run_sees, hs, h]
      rfl
    have hplain : Makes Token.AllMatch (do invocationItem; pure (Item.plain, true)) ((PathExpr.ofNames true names).tokens ++
        (Token.symbol "!" ++ (.group .parenthesis content opensAt closesAt :: Token.symbol ";"))) next
        fun read : Item × Bool => read.1 = .plain := Makes.bind_nil (makes_invocationItem hne hnames) fun _ _ => reads_pure rfl
    refine hplain.congr fun hu _ hs => ?_
    obtain ⟨pos, joint, second, rest, h⟩ := hstart hu
    exact itemBody_of_global (hs.trans h)
  exact (Reads.orAsItStands hread).imp fun ⟨_, _, h⟩ => h

end Read

end BuilderSynthesis.Syntax
