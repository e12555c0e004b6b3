/-
  BuilderSynthesis.Syntax.Parser — readers over token trees.

  A reader takes tokens from the front of a stream and writes them in their canonical form: an
  operator is written as one, whatever stood beside it in the source. What a reader has written is
  therefore the text of what it read (`captured`), and a reader that wants the source text instead
  asks for it (`verbatim`).

  Entering a bracket reads its content to the end. Tokens that are left there are remembered, the
  first ones win, and the text as a whole fails on them after everything else has succeeded. A
  reader that is only tried leaves no trace when it fails (`attempt`).
-/

import BuilderSynthesis.Syntax.Problem
import BuilderSynthesis.Text.Quoted

namespace BuilderSynthesis.Syntax

/-! ## What stands at the front of a list of tokens -/

/-- The words that cannot be used as names. -/
def reservedWords : List String :=
  ["abstract", "as", "async", "await", "become", "box", "break", "const", "continue", "crate", "do", "dyn",
   "else", "enum", "extern", "false", "final", "fn", "for", "if", "impl", "in", "let", "loop", "macro",
   "match", "mod", "move", "mut", "override", "priv", "pub", "ref", "return", "Self", "self", "static",
   "struct", "super", "trait", "true", "try", "type", "typeof", "unsafe", "unsized", "use", "virtual",
   "where", "while", "yield", "_"]

def isReserved (name : String) : Bool := reservedWords.contains name

/-- The tokens after an operator that stands at the front. All its marks but the last must be
joint; the last may be. -/
def afterMarks : List Char → List Token → Option (List Token)
  | [], rest => some rest
  | [c], .punct mark _ _ :: rest => if mark == c && c != '\'' then some rest else none
  | c :: cs, .punct mark joint _ :: rest => if mark == c && joint then afterMarks cs rest else none
  | _ :: _, _ => none

/-- The literal is a number, so that a minus before it belongs to it. -/
def isNumber (text : String) : Bool := text.toList.head?.any Char.isDigit

/-- The quotes and letters that begin string literals. -/
def isStringLiteral (text : String) : Bool :=
  match text.toList with
  | '"' :: _ => true
  | 'r' :: _ => true
  | _ => false

namespace Expected

/-- Whether this stands at the front. -/
def stands : Expected → List Token → Bool
  | mark operator, tokens => (afterMarks operator.toList tokens).isSome
  | word name, .ident found _ :: _ => found == name
  | identifier, .ident name _ :: _ => !isReserved name
  | anyWord, .ident _ _ :: _ => true
  | lifetime, .punct '\'' true _ :: .ident _ _ :: _ => true
  | literal, .literal _ _ :: _ => true
  | literal, .ident name _ :: _ => name == "true" || name == "false"
  | literal, .punct '-' _ _ :: .literal text _ :: _ => isNumber text
  | stringLiteral, .literal text _ :: _ => isStringLiteral text
  | booleanLiteral, .ident name _ :: _ => name == "true" || name == "false"
  | group delimiter, .group found _ _ _ :: _ => found == delimiter
  | anyGroup, .group _ _ _ _ :: _ => true
  | _, _ => false

end Expected

/-- Without the first tree; a lifetime counts as one. -/
def afterTree : List Token → List Token
  | .punct '\'' true _ :: .ident _ _ :: rest => rest
  | _ :: rest => rest
  | [] => []

/-! ## Streams and readers -/

structure Stream where
  rest : List Token
  /-- Where the bracket around the stream closes, or where the text starts. -/
  closesAt : Position
  within : Option Delimiter
  /-- The first tokens that a bracket inside the stream left over, by place. -/
  leftover : Option (Position × Option Delimiter)
  /-- What has been written so far, last token first. -/
  written : List Token

/-- A reader: what it makes of the stream and the stream it leaves, or why it fails. What it leaves is
always the end of what was there. -/
structure Parser (α : Type) where
  run : Stream → Except Problem (α × Stream)
  shrinks : ∀ {s : Stream} {a : α} {after : Stream}, run s = .ok (a, after) → after.rest <:+ s.rest

instance {α : Type} : CoeFun (Parser α) fun _ => Stream → Except Problem (α × Stream) := ⟨Parser.run⟩

namespace Parser

variable {α β σ : Type}

instance : Monad Parser where
  pure a :=
    { run := fun s => .ok (a, s)
      shrinks := by
        rintro s _ after h
        cases h
        exact List.suffix_refl _ }
  bind p f :=
    { run := fun s =>
        match p s with
        | .ok (a, s) => f a s
        | .error e => .error e
      shrinks := by
        intro s b after h
        split at h
        · rename_i a middle hp
          exact ((f a).shrinks h).trans (p.shrinks hp)
        · cases h }

/-- Reads as the stream asks for. -/
def inspect (choose : Stream → Parser α) : Parser α where
  run s := choose s s
  shrinks h := (choose _).shrinks h

/-! ### Failing -/

def failWith (problem : Problem) : Parser α where
  run _ := .error problem
  shrinks h := by cases h

def failAt (position : Position) (complaint : Complaint) : Parser α := failWith ⟨complaint, position, false⟩

/-- Where the next token starts, or where the stream closes. -/
def here : Parser Position := inspect fun s => pure ((s.rest.head?.map Token.pos).getD s.closesAt)

/-- Fails at the next token, noting whether there is one. -/
def fail (complaint : Complaint) : Parser α := inspect fun s =>
  match s.rest with
  | [] => failWith ⟨complaint, s.closesAt, true⟩
  | t :: _ => failWith ⟨complaint, t.pos, false⟩

/-- Fails with the list of what may stand here. What does stand here is not listed. -/
def failNoneOf (wanted : List Expected) : Parser α := inspect fun s =>
  fail (.noneOf (wanted.filter fun e => !e.stands s.rest))

/-! ### Looking -/

def remaining : Parser (List Token) := inspect fun s => pure s.rest

def atEnd : Parser Bool := inspect fun s => pure s.rest.isEmpty

def sees (e : Expected) : Parser Bool := inspect fun s => pure (e.stands s.rest)

def seesAny (es : List Expected) : Parser Bool := inspect fun s => pure (es.any (·.stands s.rest))

/-- Stands after the first tree. -/
def seesSecond (e : Expected) : Parser Bool := inspect fun s => pure (e.stands (afterTree s.rest))

def seesThird (e : Expected) : Parser Bool := inspect fun s => pure (e.stands (afterTree (afterTree s.rest)))

/-- One of the first stands here, and none of the others. -/
def seesBut (e : Expected) (others : List Expected) : Parser Bool := inspect fun s =>
  pure (e.stands s.rest && !others.any (·.stands s.rest))

/-- The value a reader would give, with nothing read. -/
def ahead (p : Parser α) : Parser α := inspect fun s =>
  match p s with
  | .ok (a, _) => pure a
  | .error e => failWith e

/-- Reads if that succeeds, and otherwise reads nothing. -/
def attempt (p : Parser α) : Parser (Option α) where
  run s :=
    match p s with
    | .ok (a, after) => .ok (some a, after)
    | .error _ => .ok (none, s)
  shrinks h := by
    split at h
    · rename_i hp
      cases h
      exact p.shrinks hp
    · cases h
      exact List.suffix_refl _

/-! ### Writing -/

def write (tokens : List Token) : Parser Unit where
  run s := .ok ((), { s with written := tokens.reverse ++ s.written })
  shrinks h := by
    cases h
    exact List.suffix_refl _

/-- Keeps what a reader writes apart. -/
def captured (p : Parser α) : Parser (α × List Token) where
  run s :=
    match p { s with written := [] } with
    | .ok (a, after) => .ok ((a, after.written.reverse), { after with written := s.written })
    | .error e => .error e
  shrinks h := by
    split at h
    · rename_i hp
      have hrest := p.shrinks hp
      cases h
      exact hrest
    · cases h

/-- What a reader writes, kept apart. -/
def apart (p : Parser α) : Parser (List Token) := do
  let (_, tokens) ← captured p
  pure tokens

/-- The source tokens that a reader takes; it writes nothing. -/
def sourceOf (p : Parser α) : Parser (α × List Token) where
  run s :=
    match p s with
    | .ok (a, after) =>
      .ok ((a, s.rest.take (s.rest.length - after.rest.length)), { after with written := s.written })
    | .error e => .error e
  shrinks h := by
    split at h
    · rename_i hp
      have hrest := p.shrinks hp
      cases h
      exact hrest
    · cases h

/-- Writes what a reader takes as it stands in the source. -/
def verbatim (p : Parser α) : Parser α := do
  let (a, source) ← sourceOf p
  write source
  pure a

/-! ### Single tokens -/

/-- Drops tokens without writing them. -/
def skip (count : Nat) : Parser Unit where
  run s := .ok ((), { s with rest := s.rest.drop count })
  shrinks h := by
    cases h
    exact List.drop_suffix _ _

def mark (operator : String) : Parser Unit := inspect fun s =>
  match afterMarks operator.toList s.rest with
  | some _ => do skip operator.toList.length; write (Token.symbol operator)
  | none => do failAt (← here) (.expected (.mark operator))

/-- Takes an operator if it stands here. -/
def mark? (operator : String) : Parser Bool := do
  if ← sees (.mark operator) then
    mark operator
    pure true
  else pure false

def word (name : String) : Parser Unit := inspect fun s =>
  match s.rest with
  | .ident found _ :: _ =>
    if found == name then do skip 1; write [Token.word name]
    else fail (.expected (.word name))
  | _ => fail (.expected (.word name))

def word? (name : String) : Parser Bool := do
  if ← sees (.word name) then
    word name
    pure true
  else pure false

def anyWord : Parser String := inspect fun s =>
  match s.rest with
  | .ident name _ :: _ => do skip 1; write [Token.word name]; pure name
  | _ => fail (.expected .anyWord)

def identifier : Parser String := inspect fun s =>
  match s.rest with
  | .ident name _ :: _ => if isReserved name then fail (.reservedName name) else anyWord
  | _ => fail (.expected .identifier)

def lifetime : Parser String := inspect fun s =>
  match s.rest with
  | .punct '\'' true _ :: .ident name _ :: _ => do
    skip 2
    write (Token.lifetime ("'" ++ name))
    pure ("'" ++ name)
  | _ => fail (.expected .lifetime)

def lifetime? : Parser (Option String) := do
  if ← sees .lifetime then some <$> lifetime else pure none

/-- A literal, a boolean, or a number with a minus sign. -/
inductive Literal where
  | token (text : String)
  | boolean (value : Bool)
  | negative (text : String)

def Literal.tokens : Literal → List Token
  | .token text => [Token.text text]
  | .boolean value => [Token.word (if value then "true" else "false")]
  | .negative text => Token.symbol "-" ++ [Token.text text]

def takeLiteral (literal : Literal) (count : Nat) : Parser Literal := do
  skip count
  write literal.tokens
  pure literal

def literal : Parser Literal := inspect fun s =>
  match s.rest with
  | .literal text _ :: _ => takeLiteral (.token text) 1
  | .ident "true" _ :: _ => takeLiteral (.boolean true) 1
  | .ident "false" _ :: _ => takeLiteral (.boolean false) 1
  | .punct '-' _ _ :: .literal text _ :: _ =>
    if isNumber text then takeLiteral (.negative text) 2 else fail (.expected .literal)
  | _ => fail (.expected .literal)

/-- A string literal, by its source text. -/
def stringLiteral : Parser String := inspect fun s =>
  match s.rest with
  | .literal text _ :: _ =>
    if isStringLiteral text then do skip 1; write [Token.text text]; pure text
    else fail (.expected .stringLiteral)
  | _ => fail (.expected .stringLiteral)

def booleanLiteral : Parser Bool := inspect fun s =>
  match s.rest with
  | .ident "true" _ :: _ => do skip 1; write [Token.word "true"]; pure true
  | .ident "false" _ :: _ => do skip 1; write [Token.word "false"]; pure false
  | _ => fail (.expected .booleanLiteral)

/-! ### Brackets -/

/-- The place of the first token that is left, if none has been noted before. -/
def noteLeftover (s : Stream) : Option (Position × Option Delimiter) :=
  match s.leftover, s.rest with
  | some noted, _ => some noted
  | none, [] => none
  | none, t :: _ => some (t.pos, s.within)

/-- Runs a reader on the content of a bracket; what it leaves there is noted. -/
def enter (delimiter : Delimiter) (content : List Token) (opensAt closesAt : Position) (p : Parser α) : Parser α where
  run s :=
    match p ⟨content, closesAt, some delimiter, s.leftover, []⟩ with
    | .error e => .error e
    | .ok (a, inner) =>
      .ok (a, { s with
        leftover := noteLeftover inner
        written := .group delimiter inner.written.reverse opensAt closesAt :: s.written })
  shrinks h := by
    split at h
    · cases h
    · cases h
      exact List.suffix_refl _

/-- Reads the content of a bracket. -/
def inside (delimiter : Delimiter) (p : Parser α) : Parser α := inspect fun s =>
  match s.rest with
  | .group found content opensAt closesAt :: _ =>
    if found == delimiter then do
      let a ← enter delimiter content opensAt closesAt p
      skip 1
      pure a
    else fail (.expected (.group delimiter))
  | _ => fail (.expected (.group delimiter))

/-- A bracket of any kind with its tokens as they stand. -/
def anyGroup : Parser (Delimiter × List Token × Position) := inspect fun s =>
  match s.rest with
  | .group delimiter content opensAt closesAt :: _ => do
    skip 1
    write [.group delimiter content opensAt closesAt]
    pure (delimiter, content, closesAt)
  | _ => fail (.expected .anyGroup)

/-! ### Repetition -/

inductive Turn (σ β : Type) where
  | again (state : σ)
  | done (value : β)

def turns (step : σ → Parser (Turn σ β)) : Nat → σ → Parser β
  | 0, _ => fail (.noneOf [])
  | n + 1, state => do
    match ← step state with
    | .again next => turns step n next
    | .done value => pure value

/-- Repeats a step that takes at least one token whenever it goes on. -/
def loop (step : σ → Parser (Turn σ β)) (state : σ) : Parser β := inspect fun s =>
  turns step (s.rest.length + 1) state

/-- Reads as long as a test holds. -/
def whileSeen (test : Parser Bool) (p : Parser α) : Parser (List α) := do
  let step (read : List α) : Parser (Turn (List α) (List α)) := do
    if ← test then pure (.again ((← p) :: read)) else pure (.done read.reverse)
  loop step []

/-- Reads to the end of the stream. -/
def untilEnd (p : Parser α) : Parser (List α) := whileSeen (do pure !(← atEnd)) p

/-- Items with a separator between them until a test holds, and whether a separator ends them. -/
def separatedUntil (stop : Parser Bool) (separator : Parser Unit) (item : Parser α) : Parser (List α × Bool) := do
  let step (read : List α × Bool) : Parser (Turn (List α × Bool) (List α × Bool)) := do
    if ← stop then pure (.done (read.1.reverse, read.2))
    else
      let a ← item
      if ← stop then pure (.done ((a :: read.1).reverse, false))
      else
        separator
        pure (.again (a :: read.1, true))
  loop step ([], false)

/-- Items joined by an operator, for as long as it follows; a test may end them after an operator
or before the first. -/
def joinedBy (operator : String) (stop : Parser Bool) (item : Parser α) : Parser (List α × Bool) := do
  let step (read : List α) : Parser (Turn (List α) (List α × Bool)) := do
    if ← stop then pure (.done (read.reverse, !read.isEmpty))
    else
      let a ← item
      if ← mark? operator then pure (.again (a :: read))
      else pure (.done ((a :: read).reverse, false))
  loop step []

/-- Items with commas between them, to the end of the stream. -/
def commaSeparated (item : Parser α) : Parser (List α × Bool) := separatedUntil atEnd (mark ",") item

/-! ### Whole texts -/

/-- Runs a reader on tokens that it must read to the end. -/
def onTokens (tokens : List Token) (closesAt : Position) (p : Parser α) : Except Problem (α × List Token) :=
  match p ⟨tokens, closesAt, none, none, []⟩ with
  | .error e => .error e
  | .ok (a, s) =>
    match noteLeftover s with
    | some (position, within) => .error ⟨.leftover within, position, false⟩
    | none => .ok (a, s.written.reverse)

end Parser

end BuilderSynthesis.Syntax
