/-
  BuilderSynthesis.Syntax.Printer — token trees as one line of text.

  Tokens stand one space apart, except that nothing follows a joint mark directly. Round and square
  brackets hug their content; curly ones keep a space on both sides of it and one between them when
  there is none.
-/

import BuilderSynthesis.Syntax.Token

namespace BuilderSynthesis.Syntax

namespace Token

/-- Nothing is written between this token and the next. -/
def joins : Token → Bool
  | punct _ joint _ => joint
  | _ => false

end Token

mutual

def Token.print : Token → List Char
  | .ident name _ => name.toList
  | .punct mark _ _ => [mark]
  | .literal text _ => text.toList
  | .group .parenthesis content _ _ => '(' :: (Token.printAll content ++ [')'])
  | .group .bracket content _ _ => '[' :: (Token.printAll content ++ [']'])
  | .group .brace [] _ _ => ['\x7b', ' ', '\x7d']
  | .group .brace (t :: rest) _ _ => '\x7b' :: ' ' :: (Token.printAll (t :: rest) ++ [' ', '\x7d'])

def Token.printAll : List Token → List Char
  | [] => []
  | [t] => t.print
  | t :: next :: rest =>
    t.print ++ ((if t.joins then [] else [' ']) ++ Token.printAll (next :: rest))

end

/-- The text of a list of tokens. -/
def printed (tokens : List Token) : String := String.ofList (Token.printAll tokens)

end BuilderSynthesis.Syntax
