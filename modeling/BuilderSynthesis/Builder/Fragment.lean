/-
  BuilderSynthesis.Builder.Fragment — short pieces of code that builders are put together from.
-/

import BuilderSynthesis.Syntax.Token

namespace BuilderSynthesis.Fragment

open Syntax

abbrev Code := List Token

def words (names : List String) : Code := names.map Token.word

def parens (inner : Code) : Code := [.enclosed .parenthesis inner]

def braces (inner : Code) : Code := [.enclosed .brace inner]

def brackets (inner : Code) : Code := [.enclosed .bracket inner]

def comma : Code := Token.symbol ","

def semicolon : Code := Token.symbol ";"

/-- Each name below the one before, from the root of all crates. -/
def globalPath (names : List String) : Code := names.flatMap fun name => Token.symbol "::" ++ [Token.word name]

/-- A member of something. -/
def member (owner : Code) (name : String) : Code := owner ++ Token.symbol "." ++ [Token.word name]

/-- A member of the builder itself. -/
def ofSelf (name : String) : Code := member (words ["self"]) name

/-- Parts with commas between them. -/
def separated : List Code → Code
  | [] => []
  | [part] => part
  | part :: rest => part ++ comma ++ separated rest

def angled (inner : Code) : Code := Token.symbol "<" ++ inner ++ Token.symbol ">"

/-! ## Attributes -/

def marked (content : Code) : Code := Token.symbol "#" ++ brackets content

def documented (doc : Code) : Code := marked (words ["doc"] ++ Token.symbol "=" ++ doc)

def mustUse : Code := marked (words ["must_use"])

def lint (tool name : String) : Code := words [tool] ++ Token.symbol "::" ++ words [name]

/-- Written before every item, so that code nobody wrote is not complained about. -/
def allowed (reason : Code) : Code :=
  marked (words ["allow"] ++ parens (separated
    [words ["dead_code"], lint "clippy" "all", lint "clippy" "pedantic", lint "clippy" "nursery",
     words ["reason"] ++ Token.symbol "=" ++ reason]))

/-! ## Options and results -/

def present (value : Code) : Code := globalPath ["core", "option", "Option", "Some"] ++ parens value

def absent : Code := globalPath ["core", "option", "Option", "None"]

/-- The value converted to the type that is asked for. -/
def converted (value : Code) : Code := globalPath ["core", "convert", "Into", "into"] ++ parens value

def succeeded (value : Code) : Code := globalPath ["core", "result", "Result", "Ok"] ++ parens value

def failed (value : Code) : Code := globalPath ["core", "result", "Result", "Err"] ++ parens value

def buildError : Code := globalPath ["buildergen", "BuildError"]

/-- The type of a result that may be a build error. -/
def resultOf (value : Code) : Code :=
  globalPath ["core", "result", "Result"] ++ angled (value ++ comma ++ buildError)

end BuilderSynthesis.Fragment
