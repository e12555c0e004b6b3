/-
  BuilderSynthesis.Syntax.Text — reading whole texts.

  Here the grammar is closed: each layer reads its parts with the layer below. A part either lies
  in a bracket, or starts after a token, or is one of a few parts that start where the whole does,
  so a number of layers that grows with the number of tokens is enough for any text.

  A text that does not consist of tokens fails where reading stopped; a text that is not what it
  should be fails with the problem of the reader; and a text that goes on after what was read
  fails at the first token that is left.
-/

import BuilderSynthesis.Syntax.Lexer
import BuilderSynthesis.Syntax.Printer
import BuilderSynthesis.Syntax.Read.Item

namespace BuilderSynthesis.Syntax

/-- The readers that read their parts with another grammar. -/
def layer (g : Grammar) : Grammar where
  type := Read.type g
  bound := Read.bound g
  pattern := Read.pattern g
  expression := Read.expression g
  operand := Read.operand g
  continued := Read.continued g
  boundary := Read.boundary g
  statements := Read.statements g
  item := Read.item g
  namedFields := Read.namedFields g
  useTree := Read.useTree g

def grammar : Nat → Grammar
  | 0 => .nothing
  | depth + 1 => layer (grammar depth)

/-- Layers enough for these tokens. -/
def grammarFor (tokens : List Token) : Grammar := grammar (4 * Token.sizes tokens + 8)

/-- Reads tokens to their end: what they are, and how they are written. -/
def readTokens {α : Type} (reader : Grammar → Parser α) (tokens : List Token) (closesAt : Position) :
    Except Problem (α × List Token) :=
  Parser.onTokens tokens closesAt (reader (grammarFor tokens))

/-- Reads characters to their end. -/
def readChars {α : Type} (reader : Grammar → Parser α) (cs : List Char) : Except Problem (α × List Token) :=
  match tokensOf cs with
  | .error position => .error ⟨.notTokens, position, false⟩
  | .ok found => readTokens reader found .start

/-- Reads a text to its end. -/
def readText {α : Type} (reader : Grammar → Parser α) (text : String) : Except Problem (α × List Token) :=
  readChars reader text.toList

def readType (text : String) : Except Problem TypeExpr :=
  (readText (fun g => Read.type g true) text).map (·.1)

def readPath (text : String) : Except Problem PathExpr :=
  (readText (fun g => Read.path g false) text).map (·.1)

def readIdentifier (text : String) : Except Problem String :=
  (readText (fun _ => Parser.identifier) text).map (·.1)

def readVisibility (text : String) : Except Problem VisibilityExpr :=
  (readText (fun _ => Read.visibility) text).map (·.1)

def readGenerics (text : String) : Except Problem Generics :=
  (readText Read.generics text).map (·.1)

def readWhereClause (text : String) : Except Problem WhereClause :=
  (readText Read.whereClause text).map (·.1)

def readExpression (text : String) : Except Problem Expression :=
  (readText (fun g => Read.expression g true) text).map (·.1)

/-! ## Files -/

/-- Without a line that names the program to run the file with. What looks like one may be an
attribute. -/
def withoutInterpreter (cs : List Char) : List Char :=
  match cs with
  | '#' :: '!' :: rest =>
    if (Lexeme.blanks rest).head? == some '[' then cs else cs.dropWhile (· != '\n')
  | _ => cs

/-- The text of a file without a byte order mark. -/
def withoutMark (cs : List Char) : List Char :=
  match cs with
  | '\ufeff' :: rest => rest
  | _ => cs

def readFileChars (cs : List Char) : Except Problem (List Item) :=
  (readChars Read.file (withoutInterpreter (withoutMark cs))).map (·.1)

def readFile (text : String) : Except Problem (List Item) := readFileChars text.toList

end BuilderSynthesis.Syntax
