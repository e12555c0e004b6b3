/-
  BuilderSynthesis.Proofs.RecordedModifiers — the modifiers that a scan records for fields and parameters.

  The entries of an attribute stand between commas. One says a modifier if it is exactly that (`said?`). An attribute
  is heard up to its first entry that says none, and of this one as much as it begins with (`heard`): what comes after
  it is lost, and `mutable = 3` is heard as `mutable`.

  Proved:
  (1) What one entry adds (`taken_entry`), and from it what all of an attribute add (`entriesFrom_fst`).
  (2) What is recorded is what is heard, for fields and for parameters alike (`recorded_modifiers`). It is what the
      entries say wherever those that say nothing come last and do not begin like a modifier (`Orderly`).
  (3) An unknown entry hides the flag after it (`an_unknown_entry_hides_the_flag_after_it`).
-/

import BuilderSynthesis.Proofs.Inclusion
import BuilderSynthesis.Proofs.Rereading
import BuilderSynthesis.Scan.Items

namespace BuilderSynthesis

open Syntax

/-! ## Modifiers one by one -/

inductive Modifier where
  | nullableElement
  | mutable
  | default (text : String)
  deriving DecidableEq, Repr

namespace Modifier

def default? : Modifier → Option String
  | default text => some text
  | _ => none

/-- What modifiers come to: a flag counts wherever it stands, and of the defaults the last. -/
def gathered (ms : List Modifier) : Modifiers where
  nullableElement := ms.contains .nullableElement
  mutable := ms.contains .mutable
  default := ms.reverse.findSome? default?

def addedTo (given : Modifiers) : Modifier → Modifiers
  | nullableElement => { given with nullableElement := true }
  | mutable => { given with mutable := true }
  | default text => { given with default := some text }

theorem gathered_append (before : List Modifier) (m : Modifier) :
    gathered (before ++ [m]) = m.addedTo (gathered before) := by
  cases m <;> simp [gathered, addedTo, List.findSome?_cons, default?]

theorem foldl_addedTo (before ms : List Modifier) : ms.foldl addedTo (gathered before) = gathered (before ++ ms) := by
  induction ms generalizing before with
  | nil => rw [List.append_nil, List.foldl_nil]
  | cons m rest ih =>
    rw [List.foldl_cons, ← gathered_append, ih, List.append_assoc, List.singleton_append]

end Modifier

namespace Scan

open Modifier

/-! ## What an entry says -/

/-- The literal that tokens begin with, and what comes after it. -/
def literalFront? : List Token → Option (Parser.Literal × List Token)
  | .literal text _ :: rest => some (.token text, rest)
  | .ident "true" _ :: rest => some (.boolean true, rest)
  | .ident "false" _ :: rest => some (.boolean false, rest)
  | .punct '-' _ _ :: .literal text _ :: rest => if isNumber text then some (.negative text, rest) else none
  | _ => none

/-- The modifier that tokens begin with, and what comes after it. A name before a separator is part of a path. -/
def front? : List Token → Option (Modifier × List Token)
  | .ident "nullable_element" _ :: rest =>
    if (Expected.mark "::").stands rest then none else some (.nullableElement, rest)
  | .ident "mutable" _ :: rest => if (Expected.mark "::").stands rest then none else some (.mutable, rest)
  | .ident "default" _ :: .punct '=' _ _ :: rest =>
    (literalFront? rest).map fun (literal, more) => (.default (literalText literal), more)
  | _ => none

/-- The modifier that an entry says. -/
def said? (entry : List Token) : Option Modifier :=
  match front? entry with
  | some (m, []) => some m
  | _ => none

/-- What is heard of entries: all up to the first that says no modifier, and what this one begins with. -/
def heard : List (List Token) → List Modifier
  | [] => []
  | entry :: rest =>
    match front? entry with
    | some (m, []) => m :: heard rest
    | some (m, _ :: _) => [m]
    | none => []

def isComma : Token → Bool
  | .punct ',' _ _ => true
  | _ => false

/-- What stands between the commas. A comma may end the last entry. -/
def entriesOf (content : List Token) : List (List Token) :=
  let parts := content.splitOnP isComma
  if parts.getLast?.any List.isEmpty then parts.dropLast else parts

theorem entriesOf_nil : entriesOf [] = [] := rfl

variable {part more : List Token} {comma : Token}

theorem entriesOf_part (hpart : ∀ t ∈ part, isComma t = false) (hne : part ≠ []) : entriesOf part = [part] := by
  rw [entriesOf, List.splitOnP_eq_singleton hpart]
  simp [hne]

theorem entriesOf_cons (hpart : ∀ t ∈ part, isComma t = false) (hcomma : isComma comma = true) :
    entriesOf (part ++ comma :: more) = part :: entriesOf more := by
  obtain ⟨first, others, hmore⟩ := List.exists_cons_of_ne_nil (List.splitOnP_ne_nil isComma more)
  rw [entriesOf, entriesOf, List.splitOnP_append_cons_of_forall_mem hpart _ hcomma, hmore, List.getLast?_cons_cons]
  split <;> rfl

theorem heard_of_none {entry : List Token} {rest : List (List Token)} (h : front? entry = none) :
    heard (entry :: rest) = [] := by
  rw [heard, h]

theorem heard_of_said {entry : List Token} {rest : List (List Token)} {m : Modifier} (h : front? entry = some (m, [])) :
    heard (entry :: rest) = m :: heard rest := by
  rw [heard, h]

theorem heard_of_begun {entry left : List Token} {rest : List (List Token)} {m : Modifier} {t : Token}
    (h : front? entry = some (m, t :: left)) : heard (entry :: rest) = [m] := by
  rw [heard, h]

/-! ## The front of an entry -/

/-- Nothing comes after an entry, or a comma does. -/
def EndsEntry (tail : List Token) : Prop := ∀ t ∈ tail.head?, isComma t = true

theorem endsEntry_cases {tail : List Token} (h : EndsEntry tail) :
    tail = [] ∨ ∃ joint pos more, tail = .punct ',' joint pos :: more := by
  cases tail with
  | nil => exact .inl rfl
  | cons t more =>
    have ht := h t rfl
    unfold isComma at ht
    split at ht
    · exact .inr ⟨_, _, more, rfl⟩
    · cases ht

/-- The first entry, and what comes after its comma. -/
theorem entriesOf_append {part tail : List Token} (hpart : ∀ t ∈ part, isComma t = false) (htail : EndsEntry tail)
    (hne : part ++ tail ≠ []) : entriesOf (part ++ tail) = part :: entriesOf tail.tail := by
  rcases endsEntry_cases htail with rfl | ⟨joint, pos, more, rfl⟩
  · rw [List.append_nil] at hne ⊢
    exact entriesOf_part hpart hne
  · exact entriesOf_cons hpart rfl

theorem exists_first_entry (ts : List Token) :
    ∃ part tail, ts = part ++ tail ∧ (∀ t ∈ part, isComma t = false) ∧ EndsEntry tail := by
  refine ⟨ts.takeWhile (!isComma ·), ts.dropWhile (!isComma ·), List.takeWhile_append_dropWhile.symm, ?_, ?_⟩
  · intro t ht
    simpa using List.mem_takeWhile_imp ht
  · intro t ht
    have hfirst := List.head?_dropWhile_not (!isComma ·) ts
    rw [Option.mem_def.mp ht] at hfirst
    simpa using hfirst

theorem afterMarks_append {cs : List Char} {ts tail : List Token} (hcs : ',' ∉ cs) (htail : EndsEntry tail) :
    afterMarks cs (ts ++ tail) = (afterMarks cs ts).map (· ++ tail) := by
  induction cs generalizing ts with
  | nil => rfl
  | cons c rest ih =>
    obtain ⟨hc, hrest⟩ := not_or.mp (mt List.mem_cons.mpr hcs)
    cases ts with
    | nil =>
      rcases endsEntry_cases htail with rfl | ⟨joint, pos, more, rfl⟩
      · cases rest <;> rfl
      · cases rest <;> simp [afterMarks, hc]
    | cons t more =>
      cases t with
      | punct mark joint pos =>
        cases rest with
        | nil =>
          rw [List.cons_append, afterMarks, afterMarks]
          split <;> rfl
        | cons d ds =>
          rw [List.cons_append, afterMarks, afterMarks]
          · split
            · exact ih hrest
            · rfl
          · exact fun hnil => absurd hnil (List.cons_ne_nil d ds)
          · exact fun hnil => absurd hnil (List.cons_ne_nil d ds)
      | ident | literal | group => cases rest <;> rfl

theorem stands_append {operator : String} {ts tail : List Token} (hcs : ',' ∉ operator.toList)
    (htail : EndsEntry tail) :
    (Expected.mark operator).stands (ts ++ tail) = (Expected.mark operator).stands ts := by
  change (afterMarks operator.toList (ts ++ tail)).isSome = (afterMarks operator.toList ts).isSome
  rw [afterMarks_append hcs htail, Option.isSome_map]

theorem literalFront?_append {ts tail : List Token} (htail : EndsEntry tail) :
    literalFront? (ts ++ tail) = (literalFront? ts).map fun (literal, rest) => (literal, rest ++ tail) := by
  match ts with
  | [] => rcases endsEntry_cases htail with rfl | ⟨joint, pos, more, rfl⟩ <;> rfl
  | .literal text pos :: rest => rfl
  | .group .. :: rest => rfl
  | .ident name pos :: rest =>
    by_cases htrue : name = "true"
    · subst htrue
      rfl
    · by_cases hfalse : name = "false"
      · subst hfalse
        rfl
      · simp [literalFront?, htrue, hfalse]
  | [.punct mark joint pos] =>
    rcases endsEntry_cases htail with rfl | ⟨joint, pos, more, rfl⟩ <;> simp [literalFront?]
  | .punct mark joint pos :: second :: rest =>
    cases second with
    | literal text at_ =>
      by_cases hminus : mark = '-'
      · subst hminus
        simp only [literalFront?, List.cons_append]
        split <;> rfl
      · simp [literalFront?, hminus]
    | _ => simp [literalFront?]

theorem front?_append {ts tail : List Token} (htail : EndsEntry tail) :
    front? (ts ++ tail) = (front? ts).map fun (m, rest) => (m, rest ++ tail) := by
  have hseparator : ∀ rest, (Expected.mark "::").stands (rest ++ tail) = (Expected.mark "::").stands rest := fun rest =>
    stands_append (by decide) htail
  match ts with
  | [] => rcases endsEntry_cases htail with rfl | ⟨joint, pos, more, rfl⟩ <;> rfl
  | .punct .. :: rest | .literal .. :: rest | .group .. :: rest => rfl
  | .ident name pos :: rest =>
    by_cases hflag : name = "nullable_element" ∨ name = "mutable"
    · rcases hflag with rfl | rfl <;> simp only [List.cons_append, front?, hseparator] <;> split <;> rfl
    · obtain ⟨hnullable, hmutable⟩ := not_or.mp hflag
      by_cases hdefault : name = "default"
      · subst hdefault
        match rest with
        | [] => rcases endsEntry_cases htail with rfl | ⟨joint, pos, more, rfl⟩ <;> simp [front?]
        | .punct mark joint at_ :: value =>
          by_cases hequals : mark = '='
          · subst hequals
            simp only [List.cons_append, front?, literalFront?_append htail, Option.map_map]
            rfl
          · simp [front?, hequals]
        | .ident .. :: _ | .literal .. :: _ | .group .. :: _ => simp [front?]
      · simp [front?, hnullable, hmutable, hdefault]

/-! ## One entry -/

section Runs

open Parser

/-- What a reader makes of a stream, and the tokens it leaves. -/
def taken {α : Type} (p : Parser α) (s : Stream) : Option (α × List Token) :=
  (p s).toOption.map fun (a, after) => (a, after.rest)

theorem taken_eq_some_iff {α : Type} {p : Parser α} {s : Stream} {a : α} {rest : List Token} :
    taken p s = some (a, rest) ↔ ∃ after, p s = .ok (a, after) ∧ after.rest = rest := by
  unfold taken
  rcases p s with problem | ⟨found, after⟩
  · simp [Except.toOption]
  · simp [Except.toOption]

theorem taken_fail {α : Type} (complaint : Complaint) (s : Stream) : taken (fail complaint : Parser α) s = none := by
  obtain ⟨_ | ⟨t, rest⟩, closesAt, within, leftover, written⟩ := s <;> rfl

theorem run_bind_ok {α β : Type} {p : Parser α} {f : α → Parser β} {s : Stream} (a : α) (after : Stream)
    (h : p s = .ok (a, after)) : (p >>= f) s = f a after := by
  rw [run_bind, h]

/-- A word alone is a path of one name. -/
theorem run_entryPath {s : Stream} {name : String} {pos : Position} {rest : List Token}
    (hs : s.rest = .ident name pos :: rest) (hrest : (Expected.mark "::").stands rest = false) :
    Read.entryPath s =
      .ok ((.mk false [.mk name .none], pos), { s with rest := rest, written := Token.word name :: s.written }) := by
  obtain ⟨tokens, closesAt, within, leftover, written⟩ := s
  obtain rfl : tokens = .ident name pos :: rest := hs
  have hothers : whileSeen (sees (.mark "::")) (do mark "::"; anyWord)
      ⟨rest, closesAt, within, leftover, Token.word name :: written⟩ =
      .ok ([], ⟨rest, closesAt, within, leftover, Token.word name :: written⟩) :=
    run_whileSeen_nil (by rw [run_sees, hrest])
  refine (run_bind_ok false _ rfl).trans ((run_bind_ok pos _ rfl).trans ((run_bind_ok name _ rfl).trans ?_))
  exact run_bind_ok [] _ hothers

/-- Nothing has been read where nothing was seen. -/
theorem whileSeen_eq_nil {α : Type} {e : Expected} {p : Parser α} {s after : Stream}
    (h : whileSeen (sees e) p s = .ok ([], after)) : e.stands s.rest = false ∧ after = s := by
  have hgrows : ∀ (n : Nat) (before read : List α) (s after : Stream),
      turns (whileStep (sees e) p) n before s = .ok (read, after) →
      before.length ≤ read.length ∧ (read.length = before.length → e.stands s.rest = false ∧ after = s) := by
    intro n
    induction n with
    | zero => exact fun _ _ _ _ h => absurd h fail_ne_ok
    | succ n ih =>
      intro before read s after h
      rcases turns_whileStep_eq_ok h with ⟨a, next, -, hnext⟩ | ⟨hstands, rfl, rfl⟩
      · have hmore : before.length < read.length := (ih _ _ _ _ hnext).1
        exact ⟨hmore.le, fun he => absurd he hmore.ne'⟩
      · exact ⟨List.length_reverse.ge, fun _ => ⟨hstands, rfl⟩⟩
  exact (hgrows (s.rest.length + 1) [] _ _ _ h).2 rfl

theorem mark?_eq_false {operator : String} {s after : Stream} (h : mark? operator s = .ok (false, after)) :
    after = s := by
  obtain ⟨stands, _, hsees, h⟩ := bind_eq_ok h
  obtain ⟨rfl, rfl⟩ := sees_eq_ok hsees
  split at h
  · obtain ⟨_, marked, -, h⟩ := bind_eq_ok h
    cases h
  · cases h
    rfl

/-- Only a word alone is a path of one name. -/
theorem isName_of_entryPath {s after : Stream} {path : PathExpr} {position : Position} {name : String}
    (h : Read.entryPath s = .ok ((path, position), after)) (hname : path.isName name = true) :
    ∃ pos, s.rest = .ident name pos :: after.rest ∧ (Expected.mark "::").stands after.rest = false := by
  obtain ⟨leading, start, hleading, h⟩ := bind_eq_ok h
  obtain ⟨at_, _, hhere, h⟩ := bind_eq_ok h
  cases hhere
  obtain ⟨first, middle, hfirst, h⟩ := bind_eq_ok h
  obtain ⟨others, _, hothers, h⟩ := bind_eq_ok h
  cases h
  cases leading with
  | true => cases hname
  | false =>
    cases others with
    | cons other more => cases hname
    | nil =>
      obtain ⟨hseparator, rfl⟩ := whileSeen_eq_nil hothers
      obtain rfl : first = name := eq_of_beq hname
      obtain rfl := mark?_eq_false hleading
      have hword : anyWord start = .ok (first, after) := by
        obtain ⟨stands, _, hsees, hfirst⟩ := bind_eq_ok hfirst
        obtain ⟨rfl, rfl⟩ := sees_eq_ok hsees
        split at hfirst
        · exact hfirst
        · obtain ⟨ended, _, hended, hfirst⟩ := bind_eq_ok hfirst
          cases hended
          split at hfirst
          · exact absurd hfirst fail_ne_ok
          · obtain ⟨_, _, hliteral, hfirst⟩ := bind_eq_ok hfirst
            cases hliteral
            split at hfirst <;> exact absurd hfirst fail_ne_ok
      obtain ⟨pos, hrest, -⟩ := anyWord_eq_ok hword
      exact ⟨pos, hrest, hseparator⟩

theorem taken_literal (s : Stream) : taken literal s = literalFront? s.rest := by
  obtain ⟨tokens, closesAt, within, leftover, written⟩ := s
  unfold taken literal inspect
  dsimp only
  split
  · rfl
  · rfl
  · rfl
  · rename_i joint pos text at_ rest
    change _ = if isNumber text = true then some (Literal.negative text, rest) else none
    cases isNumber text <;> rfl
  · rename_i hliteral htrue hfalse hnegative
    refine (taken_fail _ _).trans ?_
    unfold literalFront?
    split
    · exact absurd rfl (hliteral _ _ _)
    · exact absurd rfl (htrue _ _)
    · exact absurd rfl (hfalse _ _)
    · exact absurd rfl (hnegative _ _ _ _ _)
    · rfl

end Runs

/-- Reads one entry. -/
def entry (given : Modifiers) : Parser Modifiers := do
  let (path, position) ← Read.entryPath
  modifierEntry given path position

variable {s : Stream} {given : Modifiers}

theorem entry_of_front {m : Modifier} {rest : List Token} (h : front? s.rest = some (m, rest)) :
    ∃ after, entry given s = .ok (m.addedTo given, after) ∧ after.rest = rest := by
  unfold front? at h
  split at h
  · rename_i pos more hs
    obtain ⟨hrest, he⟩ := Option.ite_none_left_eq_some.mp h
    cases he
    exact ⟨_, run_bind_ok _ _ (run_entryPath hs (Bool.eq_false_iff.mpr hrest)), rfl⟩
  · rename_i pos more hs
    obtain ⟨hrest, he⟩ := Option.ite_none_left_eq_some.mp h
    cases he
    exact ⟨_, run_bind_ok _ _ (run_entryPath hs (Bool.eq_false_iff.mpr hrest)), rfl⟩
  · rename_i pos joint at_ more hs
    obtain ⟨⟨literal, left⟩, hliteral, he⟩ := Option.map_eq_some_iff.mp h
    cases he
    obtain ⟨after, hvalue, hrest⟩ := taken_eq_some_iff.mp ((taken_literal ⟨more, s.closesAt, s.within, s.leftover,
      Token.symbol "=" ++ Token.word "default" :: s.written⟩).trans hliteral)
    refine ⟨after, ?_, hrest⟩
    refine (run_bind_ok _ _ (run_entryPath hs rfl)).trans ((run_bind_ok literal after ?_).trans rfl)
    exact (run_bind_ok () _ rfl).trans hvalue
  · cases h

theorem front_of_entry {after : Stream} {state : Modifiers} (h : entry given s = .ok (state, after)) :
    ∃ m, front? s.rest = some (m, after.rest) := by
  obtain ⟨⟨path, position⟩, middle, hpath, h⟩ := Parser.bind_eq_ok h
  change modifierEntry given path position middle = _ at h
  unfold modifierEntry at h
  split at h
  · rename_i hname
    obtain ⟨pos, hs, hseparator⟩ := isName_of_entryPath hpath hname
    cases h
    refine ⟨.nullableElement, ?_⟩
    rw [hs]
    simp [front?, hseparator]
  · split at h
    · rename_i hname
      obtain ⟨pos, hs, hseparator⟩ := isName_of_entryPath hpath hname
      cases h
      refine ⟨.mutable, ?_⟩
      rw [hs]
      simp [front?, hseparator]
    · split at h
      · rename_i hname
        obtain ⟨pos, hs, hseparator⟩ := isName_of_entryPath hpath hname
        obtain ⟨literal, _, hvalue, h⟩ := Parser.bind_eq_ok h
        cases h
        obtain ⟨_, valued, hmark, hliteral⟩ := Parser.bind_eq_ok hvalue
        obtain ⟨hequals, hvalued, -⟩ := Parser.mark_eq_ok hmark
        obtain ⟨joint, at_, more, hmiddle⟩ := Parser.exists_punct_of_afterMarks (c := '=') hequals
        have hfront : literalFront? more = some (literal, after.rest) := by
          rw [hmiddle] at hvalued
          obtain rfl : valued.rest = more := hvalued
          exact (taken_literal valued).symm.trans (taken_eq_some_iff.mpr ⟨after, hliteral, rfl⟩)
        refine ⟨.default (literalText literal), ?_⟩
        rw [hs, hmiddle]
        simp [front?, hfront]
      · cases h

theorem taken_entry (given : Modifiers) (s : Stream) :
    taken (entry given) s = (front? s.rest).map fun (m, rest) => (m.addedTo given, rest) := by
  cases hfront : front? s.rest with
  | some found =>
    obtain ⟨m, rest⟩ := found
    exact taken_eq_some_iff.mpr (entry_of_front hfront)
  | none =>
    refine Option.eq_none_iff_forall_ne_some.mpr fun (state, rest) htaken => ?_
    obtain ⟨after, hentry, -⟩ := taken_eq_some_iff.mp htaken
    obtain ⟨m, hm⟩ := front_of_entry hentry
    cases hfront.symm.trans hm

theorem suffix_of_front {ts rest : List Token} {m : Modifier} (h : front? ts = some (m, rest)) : rest <:+ ts := by
  have htaken := taken_entry .none ⟨ts, .start, none, none, []⟩
  rw [h] at htaken
  obtain ⟨after, hentry, rfl⟩ := taken_eq_some_iff.mp htaken
  exact (entry .none).shrinks hentry

/-! ## All entries -/

theorem entriesFrom_succ (n : Nat) (given : Modifiers) (s : Stream) :
    Read.entriesFrom modifierEntry (n + 1) given s =
      match entry given s with
      | .error e => (given, .error e)
      | .ok (state, s) =>
        if s.rest.isEmpty then (state, .ok s)
        else match Parser.mark "," s with
          | .error e => (state, .error e)
          | .ok (_, s) => if s.rest.isEmpty then (state, .ok s) else Read.entriesFrom modifierEntry n state s := by
  rw [Read.entriesFrom, entry, Parser.run_bind]
  rcases Read.entryPath s with e | ⟨⟨path, position⟩, middle⟩
  · rfl
  · dsimp only
    rcases modifierEntry given path position middle with e | ⟨state, after⟩ <;> rfl

theorem run_comma {s : Stream} {joint : Bool} {pos : Position} {more : List Token}
    (hs : s.rest = .punct ',' joint pos :: more) :
    ∃ after, Parser.mark "," s = .ok ((), after) ∧ after.rest = more := by
  obtain ⟨tokens, closesAt, within, leftover, written⟩ := s
  obtain rfl : tokens = _ := hs
  exact ⟨_, rfl, rfl⟩

theorem isComma_of_mark {s after : Stream} {t : Token} {rest : List Token} (hs : s.rest = t :: rest)
    (h : Parser.mark "," s = .ok ((), after)) : isComma t = true := by
  obtain ⟨hcomma, -⟩ := Parser.mark_eq_ok h
  obtain ⟨joint, pos, more, hmore⟩ := Parser.exists_punct_of_afterMarks (c := ',') hcomma
  obtain ⟨rfl, -⟩ := List.cons_eq_cons.mp (hs.symm.trans hmore)
  rfl

section Steps

variable {m : Modifier} {rest : List Token} (n : Nat)

theorem entriesFrom_of_none (h : front? s.rest = none) :
    (Read.entriesFrom modifierEntry (n + 1) given s).1 = given := by
  have hnone : taken (entry given) s = none := by rw [taken_entry, h, Option.map_none]
  rw [entriesFrom_succ]
  cases hentry : entry given s with
  | error e => rfl
  | ok found => simp [taken, hentry, Except.toOption] at hnone

/-- Behind what is no comma nothing is read. -/
theorem entriesFrom_of_end (h : front? s.rest = some (m, rest)) (hrest : ∀ t ∈ rest.head?, isComma t = false) :
    (Read.entriesFrom modifierEntry (n + 1) given s).1 = m.addedTo given := by
  obtain ⟨after, hentry, rfl⟩ : ∃ after, entry given s = .ok (m.addedTo given, after) ∧ _ := entry_of_front h
  rw [entriesFrom_succ, hentry]
  dsimp only
  cases hafter : after.rest with
  | nil => rfl
  | cons t left =>
    rw [List.isEmpty_cons, if_neg Bool.false_ne_true]
    cases hmark : Parser.mark "," after with
    | error e => rfl
    | ok found =>
      obtain ⟨_, marked⟩ := found
      have hcomma := isComma_of_mark hafter hmark
      rw [hrest t (hafter ▸ rfl)] at hcomma
      cases hcomma

/-- Behind a comma the other entries are read, if there are any. -/
theorem entriesFrom_of_comma {joint : Bool} {pos : Position}
    (h : front? s.rest = some (m, .punct ',' joint pos :: rest)) :
    ∃ marked : Stream, marked.rest = rest ∧ (Read.entriesFrom modifierEntry (n + 1) given s).1 =
      if rest.isEmpty then m.addedTo given else (Read.entriesFrom modifierEntry n (m.addedTo given) marked).1 := by
  obtain ⟨after, hentry, hafter⟩ : ∃ after, entry given s = .ok (m.addedTo given, after) ∧ _ := entry_of_front h
  obtain ⟨marked, hmark, rfl⟩ := run_comma hafter
  refine ⟨marked, rfl, ?_⟩
  rw [entriesFrom_succ, hentry]
  dsimp only
  rw [hafter, hmark, List.isEmpty_cons, if_neg Bool.false_ne_true]
  dsimp only
  split <;> rfl

end Steps

/-- What the entries of an attribute add is what is heard of them. -/
theorem entriesFrom_fst (n : Nat) (hn : s.rest.length ≤ n) (hne : s.rest ≠ []) :
    (Read.entriesFrom modifierEntry n given s).1 = (heard (entriesOf s.rest)).foldl addedTo given := by
  induction n generalizing given s with
  | zero => exact absurd (List.length_eq_zero_iff.mp (Nat.le_zero.mp hn)) hne
  | succ n ih =>
    obtain ⟨part, tail, hs, hpart, htail⟩ := exists_first_entry s.rest
    have hfront : front? s.rest = (front? part).map fun found => (found.1, found.2 ++ tail) := by
      rw [hs, front?_append htail]
    have hentries : entriesOf s.rest = part :: entriesOf tail.tail := by
      rw [hs] at hne ⊢
      exact entriesOf_append hpart htail hne
    rw [hentries]
    cases hfirst : front? part with
    | none =>
      rw [hfirst, Option.map_none] at hfront
      rw [heard_of_none hfirst, List.foldl_nil, entriesFrom_of_none n hfront]
    | some found =>
      obtain ⟨m, left⟩ := found
      rw [hfirst, Option.map_some] at hfront
      cases left with
      | nil =>
        rw [heard_of_said hfirst, List.foldl_cons]
        rcases endsEntry_cases htail with rfl | ⟨joint, pos, more, rfl⟩
        · exact entriesFrom_of_end n hfront fun first hhead => absurd hhead (Option.not_mem_none first)
        · obtain ⟨marked, rfl, hread⟩ := entriesFrom_of_comma n hfront
          rw [hread, List.tail_cons]
          split
          · rename_i hmore
            rw [List.isEmpty_iff.mp hmore, entriesOf_nil]
            rfl
          · rename_i hmore
            have hlength : marked.rest.length ≤ n := by
              rw [hs, List.length_append, List.length_cons] at hn
              omega
            exact ih hlength (mt List.isEmpty_iff.mpr hmore)
      | cons t left =>
        have ht : t ∈ part := (suffix_of_front hfirst).subset List.mem_cons_self
        rw [heard_of_begun hfirst, List.foldl_cons, List.foldl_nil]
        exact entriesFrom_of_end n hfront fun first hhead => Option.some.inj hhead ▸ hpart t ht

/-! ## Attributes -/

/-- The entries that an attribute lists. -/
def listedEntries (attr : Attribute) : List (List Token) :=
  match attr.form with
  | .list content _ => entriesOf content
  | _ => []

theorem entries_fst (given : Modifiers) (content : List Token) (closesAt : Position) :
    (Read.entries modifierEntry given content closesAt).1 = (heard (entriesOf content)).foldl addedTo given := by
  cases content with
  | nil => rfl
  | cons t rest =>
    have hfrom : (Read.entriesFrom modifierEntry (t :: rest).length given ⟨t :: rest, closesAt, none, none, []⟩).1 = _ :=
      entriesFrom_fst (t :: rest).length le_rfl (List.cons_ne_nil t rest)
    rw [← hfrom]
    unfold Read.entries
    rw [List.isEmpty_cons, if_neg Bool.false_ne_true]
    rcases Read.entriesFrom modifierEntry _ given _ with ⟨state, e | after⟩
    · rfl
    · dsimp only
      split <;> rfl

theorem attributeEntries_fst (given : Modifiers) (attr : Attribute) :
    (Read.attributeEntries modifierEntry given attr).1 = (heard (listedEntries attr)).foldl addedTo given := by
  unfold Read.attributeEntries listedEntries
  cases attr.form with
  | list content closesAt => exact entries_fst given content closesAt
  | path => rfl
  | value equalsAt => rfl

/-- The modifiers that are heard in attributes. -/
def heardIn (attrs : List Attribute) : List Modifier :=
  (attrs.filter isModifier).flatMap fun attr => heard (listedEntries attr)

/-- The modifiers that the entries of attributes say. -/
def saidIn (attrs : List Attribute) : List Modifier :=
  (attrs.filter isModifier).flatMap fun attr => (listedEntries attr).filterMap said?

/-- Attributes one after the other add what is heard of each. -/
theorem foldl_heard {step : Modifiers × List Diagnostic → Attribute → Modifiers × List Diagnostic}
    (hstep : ∀ given problems attr,
      (step (given, problems) attr).1 = (heard (listedEntries attr)).foldl addedTo given)
    (attrs : List Attribute) (before : List Modifier) (problems : List Diagnostic) :
    (attrs.foldl step (gathered before, problems)).1 =
      gathered (before ++ attrs.flatMap fun attr => heard (listedEntries attr)) := by
  induction attrs generalizing before problems with
  | nil => rw [List.flatMap_nil, List.append_nil, List.foldl_nil]
  | cons attr rest ih =>
    have hfirst := hstep (gathered before) problems attr
    rw [foldl_addedTo] at hfirst
    rw [List.foldl_cons, List.flatMap_cons, ← List.append_assoc, ← ih _ (step (gathered before, problems) attr).2,
      ← hfirst]

theorem modifiers_fst (file : String) (attrs : List Attribute) :
    (modifiers file attrs).1 = gathered (heardIn attrs) := by
  refine foldl_heard (fun given problems attr => ?_) (attrs.filter isModifier) [] []
  rw [← attributeEntries_fst]
  dsimp only
  rcases Read.attributeEntries modifierEntry given attr with ⟨state, problem | _⟩ <;> rfl

/-! ## Fields and parameters -/

/-- The entries that say no modifier come after all that say one, and the first of them does not begin like one. -/
def Orderly (entries : List (List Token)) : Prop :=
  ∃ good bad, entries = good ++ bad ∧ (∀ entry ∈ good, (said? entry).isSome) ∧ (∀ entry ∈ bad, said? entry = none) ∧
    ∀ entry ∈ bad.head?, front? entry = none

theorem front_of_said {entry : List Token} {m : Modifier} (h : said? entry = some m) : front? entry = some (m, []) := by
  unfold said? at h
  split at h
  · rename_i found hfront
    cases h
    exact hfront
  · cases h

theorem heard_of_orderly {entries : List (List Token)} (h : Orderly entries) :
    heard entries = entries.filterMap said? := by
  obtain ⟨good, bad, rfl, hgood, hbad, hfirst⟩ := h
  have hnone : bad.filterMap said? = [] := List.filterMap_eq_nil_iff.mpr hbad
  rw [List.filterMap_append, hnone, List.append_nil]
  induction good with
  | nil =>
    cases bad with
    | nil => rfl
    | cons entry rest => exact heard_of_none (hfirst entry rfl)
  | cons entry rest ih =>
    obtain ⟨m, hm⟩ := Option.isSome_iff_exists.mp (hgood entry List.mem_cons_self)
    rw [List.cons_append, heard_of_said (front_of_said hm), List.filterMap_cons_some hm,
      ih fun e he => hgood e (List.mem_cons_of_mem _ he)]

theorem heardIn_of_orderly {attrs : List Attribute}
    (h : ∀ attr ∈ attrs.filter isModifier, Orderly (listedEntries attr)) : heardIn attrs = saidIn attrs :=
  List.flatMap_congr fun attr hattr => heard_of_orderly (h attr hattr)

/-- The attributes of a parameter. -/
def attributesOf : FunctionInput → List Attribute
  | .receiver .. => []
  | .typed attributes .. => attributes

theorem modifiers_of_parameters {file : String} {inputs : List FunctionInput} {parameters : List Parameter}
    {problems : List Diagnostic} (h : constructorParameters file inputs = (.ok parameters, problems)) :
    parameters.map Parameter.modifiers = inputs.map fun input => gathered (heardIn (attributesOf input)) := by
  induction inputs generalizing parameters problems with
  | nil =>
    cases h
    rfl
  | cons input rest ih =>
    cases input with
    | receiver => cases h
    | typed attributes pattern tokens type =>
      unfold constructorParameters at h
      split at h
      · rename_i name nameAt
        rcases hrest : constructorParameters file rest with ⟨others, more⟩
        rw [hrest] at h
        cases others with
        | error unfit => cases h
        | ok others =>
          cases h
          rw [List.map_cons, List.map_cons, ih hrest, attributesOf, ← modifiers_fst file]
          rfl
      · cases h

/-- A field and each parameter of a function that is called get the modifiers that are heard in their attributes.
These are the ones that the entries say, unless one that says none stands before one that does or begins like one. -/
theorem recorded_modifiers (file : String) :
    (∀ f declared problems, declaredField file f = some (declared, problems) →
      declared.modifiers = gathered (heardIn f.attributes)) ∧
    (∀ inputs parameters problems, constructorParameters file inputs = (.ok parameters, problems) →
      parameters.map Parameter.modifiers = inputs.map fun input => gathered (heardIn (attributesOf input))) ∧
    ∀ attrs, (∀ attr ∈ attrs.filter isModifier, Orderly (listedEntries attr)) →
      gathered (heardIn attrs) = gathered (saidIn attrs) := by
  refine ⟨fun f declared problems h => ?_, fun inputs parameters problems h => modifiers_of_parameters h,
    fun attrs h => congrArg gathered (heardIn_of_orderly h)⟩
  obtain ⟨⟨name, position⟩, -, hdeclared⟩ := Option.map_eq_some_iff.mp h
  cases hdeclared
  exact modifiers_fst file f.attributes

/-- A list of names with the attribute `builder` over some entries. -/
def namesField (content : List Token) : Field where
  attributes := [⟨⟨2, 5⟩, false, .mk false [.mk "builder" .none], ⟨2, 7⟩, .list content ⟨2, 40⟩, content⟩]
  visibility := .inherited
  name := some ("names", ⟨3, 5⟩)
  type := .path (.mk false [.mk "Names" .none])

/-- `mutable, default = 3, sparkly` -/
def sparklyLast : List Token :=
  [Token.word "mutable", .punct ',' false ⟨2, 22⟩, Token.word "default", .punct '=' false ⟨2, 32⟩, Token.text "3",
   .punct ',' false ⟨2, 35⟩, Token.word "sparkly"]

/-- The flag and the default are recorded, for a field and for a parameter. -/
theorem recorded_modifiers_of_names :
    (∃ declared problems, declaredField "lib.rs" (namesField sparklyLast) = some (declared, problems) ∧
      declared.modifiers = ⟨false, true, some "3"⟩) ∧
    ∃ parameters problems, constructorParameters "lib.rs" [.typed (namesField sparklyLast).attributes
        (.binding "names" ⟨3, 5⟩ false false) [] (namesField sparklyLast).type] = (.ok parameters, problems) ∧
      parameters.map Parameter.modifiers = [⟨false, true, some "3"⟩] := by
  obtain ⟨hfields, hparameters, horderly⟩ := recorded_modifiers "lib.rs"
  have hentries : Orderly [[Token.word "mutable"], [Token.word "default", .punct '=' false ⟨2, 32⟩, Token.text "3"],
      [Token.word "sparkly"]] := by
    refine ⟨[_, _], [_], rfl, ?_, List.forall_mem_singleton.mpr rfl, fun entry h => ?_⟩
    · exact List.forall_mem_cons.mpr ⟨rfl, List.forall_mem_singleton.mpr rfl⟩
    · cases h
      rfl
  have hsaid : gathered (heardIn (namesField sparklyLast).attributes) = ⟨false, true, some "3"⟩ := by
    refine (horderly _ fun attr hattr => ?_).trans rfl
    obtain rfl := List.mem_singleton.mp (List.mem_of_mem_filter hattr)
    exact hentries
  refine ⟨⟨_, _, rfl, (hfields (namesField sparklyLast) _ _ rfl).trans hsaid⟩, ⟨_, _, rfl, ?_⟩⟩
  have hparameter := hparameters [.typed (namesField sparklyLast).attributes (.binding "names" ⟨3, 5⟩ false false) []
    (namesField sparklyLast).type] _ _ rfl
  exact hparameter.trans (congrArg ([·]) hsaid)

/-- `sparkly, mutable` -/
def sparklyFirst : List Token := [Token.word "sparkly", .punct ',' false ⟨2, 22⟩, Token.word "mutable"]

/-- The flag is not recorded. -/
theorem an_unknown_entry_hides_the_flag_after_it :
    ∃ f declared problems, declaredField "lib.rs" f = some (declared, problems) ∧
      declared.modifiers ≠ gathered (saidIn f.attributes) := by
  refine ⟨namesField sparklyFirst, _, _, rfl, fun h => ?_⟩
  have hrecorded : (modifiers "lib.rs" (namesField sparklyFirst).attributes).1 = ⟨false, false, none⟩ := rfl
  have hsaid : gathered (saidIn (namesField sparklyFirst).attributes) = ⟨false, true, none⟩ := rfl
  cases hrecorded.symm.trans (h.trans hsaid)

end Scan

end BuilderSynthesis
