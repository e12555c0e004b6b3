/-
  BuilderSynthesis.Syntax.Token — token trees.

  A source text is read as a list of tokens in which every bracketed part is one token that holds
  the tokens inside. Tokens carry the place where they start, which error messages and
  declarations report; printing does not look at it.
-/

namespace BuilderSynthesis.Syntax

/-- A place in a text. Lines and columns count from one, columns in characters. -/
structure Position where
  line : Nat
  column : Nat
  deriving DecidableEq, Repr, Inhabited

namespace Position

def start : Position := ⟨1, 1⟩

/-- The place after a character. -/
def after (p : Position) (c : Char) : Position :=
  if c == '\n' then ⟨p.line + 1, 1⟩ else ⟨p.line, p.column + 1⟩

def afterAll (p : Position) (cs : List Char) : Position := cs.foldl after p

/-- Earlier in the text. -/
def before (p q : Position) : Prop := p.line < q.line ∨ p.line = q.line ∧ p.column < q.column

end Position

inductive Delimiter where
  | parenthesis
  | bracket
  | brace
  deriving DecidableEq, Repr, Inhabited

namespace Delimiter

def opening : Delimiter → Char
  | parenthesis => '('
  | bracket => '['
  | brace => '\x7b'

def closing : Delimiter → Char
  | parenthesis => ')'
  | bracket => ']'
  | brace => '\x7d'

end Delimiter

/-- A token tree. A punctuation mark is joint when the next character is one too, so that the two
may form one operator. A lifetime is a joint apostrophe and an identifier. -/
inductive Token where
  | ident (name : String) (pos : Position)
  | punct (mark : Char) (joint : Bool) (pos : Position)
  | literal (text : String) (pos : Position)
  | group (delimiter : Delimiter) (content : List Token) (opensAt closesAt : Position)
  deriving Repr, Inhabited

namespace Token

def pos : Token → Position
  | ident _ p | punct _ _ p | literal _ p | group _ _ p _ => p

/-! ## Tokens that are written rather than read -/

def word (name : String) : Token := .ident name .start

def text (literal : String) : Token := .literal literal .start

def enclosed (delimiter : Delimiter) (content : List Token) : Token :=
  .group delimiter content .start .start

/-- The tokens of an operator: every mark but the last is joint. -/
def marks : List Char → List Token
  | [] => []
  | [c] => [.punct c false .start]
  | c :: rest => .punct c true .start :: marks rest

def symbol (operator : String) : List Token := marks operator.toList

/-- A lifetime from its name with the apostrophe. -/
def lifetime (name : String) : List Token :=
  [.punct '\'' true .start, word (String.ofList (name.toList.drop 1))]

end Token

mutual

/-- How many tokens a tree holds, itself included. -/
def Token.size : Token → Nat
  | .group _ content _ _ => Token.sizes content + 1
  | _ => 1

def Token.sizes : List Token → Nat
  | [] => 0
  | t :: rest => t.size + Token.sizes rest

end

end BuilderSynthesis.Syntax
