/-
  BuilderSynthesis.Syntax.Lexer — from text to token trees.

  `tokens` reads a whole text or answers with the place where reading stopped: the character that
  starts no token, a closing bracket that does not fit, or, at the end of the text, the innermost
  bracket that is still open. A documenting comment becomes the attribute it stands for.
-/

import BuilderSynthesis.Syntax.Lexeme
import BuilderSynthesis.Syntax.Token

namespace BuilderSynthesis.Syntax

open BuilderSynthesis.Text

/-- What is left of a text, and where that starts. -/
structure Source where
  rest : List Char
  pos : Position

namespace Source

/-- The characters up to a later point of the same text. -/
def passed (source : Source) (later : List Char) : List Char :=
  source.rest.take (source.rest.length - later.length)

/-- Goes on to a later point of the same text. -/
def goTo (source : Source) (later : List Char) : Source :=
  ⟨later, source.pos.afterAll (source.passed later)⟩

/-- The text up to a later point. -/
def upTo (source : Source) (later : List Char) : String := String.ofList (source.passed later)

end Source

/-- A bracket that has not been closed, with the tokens before it in reverse. -/
structure OpenGroup where
  delimiter : Delimiter
  pos : Position
  before : List Token

/-- The attribute that a documenting comment stands for. -/
def documentationTokens (inner : Bool) (comment : List Char) (pos : Position) : List Token :=
  let body := [.ident "doc" pos, .punct '=' false pos, .literal (Text.literal (String.ofList comment)) pos]
  .punct '#' false pos :: ((if inner then [.punct '!' false pos] else []) ++ [.group .bracket body pos pos])

/-- The single token at the start, which is no bracket, and what follows it. -/
def leaf (source : Source) : Option (Token × List Char) :=
  match Lexeme.literal source.rest with
  | some after => some (.literal (source.upTo after) source.pos, after)
  | none =>
    match source.rest with
    | c :: rest =>
      if Lexeme.startsMark source.rest then
        if c != '\'' then some (.punct c (Lexeme.startsMark rest) source.pos, rest)
        else if Lexeme.startsLifetime rest then some (.punct c true source.pos, rest)
        else none
      else (Lexeme.identifier source.rest).map fun after => (.ident (source.upTo after) source.pos, after)
    | [] => none

def opens? (c : Char) : Option Delimiter :=
  if c == '(' then some .parenthesis
  else if c == '[' then some .bracket
  else if c == '\x7b' then some .brace
  else none

def closes? (c : Char) : Option Delimiter :=
  if c == ')' then some .parenthesis
  else if c == ']' then some .bracket
  else if c == '\x7d' then some .brace
  else none

/-- Reads on with the brackets that are open, innermost first, and the tokens of the innermost one
in reverse. Every step reads at least one character, so as many steps suffice. -/
def lex : Nat → Source → List OpenGroup → List Token → Except Position (List Token)
  | 0, source, _, _ => .error source.pos
  | fuel + 1, source, groups, read =>
    let source := source.goTo (Lexeme.blanks source.rest)
    match (Lexeme.documentation source.rest).filter fun (_, comment, _) => Lexeme.returnsPaired comment with
    | some (inner, comment, after) =>
      lex fuel (source.goTo after) groups ((documentationTokens inner comment source.pos).reverse ++ read)
    | none =>
      match source.rest with
      | [] =>
        match groups with
        | [] => .ok read.reverse
        | innermost :: _ => .error innermost.pos
      | c :: rest =>
        if Lexeme.faulty.isPrefixOf source.rest then
          lex fuel (source.goTo (source.rest.drop Lexeme.faulty.length)) groups
            (.literal (String.ofList Lexeme.faulty) source.pos :: read)
        else match opens? c, closes? c with
          | some delimiter, _ => lex fuel (source.goTo rest) (⟨delimiter, source.pos, read⟩ :: groups) []
          | none, some delimiter =>
            match groups with
            | [] => .error source.pos
            | innermost :: outer =>
              if innermost.delimiter == delimiter then
                lex fuel (source.goTo rest) outer
                  (.group delimiter read.reverse innermost.pos source.pos :: innermost.before)
              else .error source.pos
          | none, none =>
            match leaf source with
            | some (token, after) => lex fuel (source.goTo after) groups (token :: read)
            | none => .error source.pos

/-- The tokens of a list of characters. A byte order mark at its start is skipped. -/
def tokensOf (cs : List Char) : Except Position (List Token) :=
  let source : Source := ⟨cs, .start⟩
  let source := match source.rest with
    | '\ufeff' :: rest => source.goTo rest
    | _ => source
  lex (source.rest.length + 1) source [] []

def tokens (text : String) : Except Position (List Token) := tokensOf text.toList

end BuilderSynthesis.Syntax
