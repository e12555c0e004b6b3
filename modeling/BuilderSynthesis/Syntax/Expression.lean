/-
  BuilderSynthesis.Syntax.Expression — expressions as far as their text hangs on their form.

  An expression is a tree of operators over parts that nothing outside of them can take apart. The
  brackets that a text has are parts of their own, so a tree says nothing about how its operators
  have to be held together; where brackets are needed is settled when it is written.
-/

import BuilderSynthesis.Syntax.TypeExpr

namespace BuilderSynthesis.Syntax

/-- How tightly an operator binds, loosest first. -/
inductive Precedence where
  | jump
  | assign
  | range
  | or
  | and
  | bind
  | compare
  | bitOr
  | bitXor
  | bitAnd
  | shift
  | sum
  | product
  | cast
  | prefixed
  | whole
  deriving DecidableEq

namespace Precedence

def rank : Precedence → Nat
  | jump => 0
  | assign => 1
  | range => 2
  | or => 3
  | and => 4
  | bind => 5
  | compare => 6
  | bitOr => 7
  | bitXor => 8
  | bitAnd => 9
  | shift => 10
  | sum => 11
  | product => 12
  | cast => 13
  | prefixed => 14
  | whole => 15

/-- Binds more loosely. -/
def below (p q : Precedence) : Bool := p.rank < q.rank

def atMost (p q : Precedence) : Bool := p.rank ≤ q.rank

end Precedence

/-- What a part is that no operator holds open at its end. -/
inductive Atom where
  /-- A path, or the part of one that comes below a type. -/
  | path (path : PathExpr)
  /-- A struct that is written out. -/
  | fields
  | invocation (delimiter : Delimiter)
  /-- Ends a statement or a match arm, with a label before it or not. A bare one is nothing but
  statements between braces. -/
  | block (labeled bare : Bool)
  /-- A `return` or `yield` without a value, or a `break`. -/
  | jump (leaves : Bool)
  /-- The range without ends. -/
  | everything
  | other

/-- The tokens that come first in each are the attributes before it. -/
inductive Expression where
  | atom (attributes : List Token) (kind : Atom) (content : List Token)
  /-- Kept as it stands in the source, attributes and all. -/
  | verbatim (content : List Token)
  | prefixed (attributes operator : List Token) (operand : Expression)
  | binary (attributes : List Token) (left : Expression) (operator : String) (precedence : Precedence)
      (right : Expression)
  | assign (attributes : List Token) (left right : Expression)
  | cast (attributes : List Token) (operand : Expression) (type : TypeExpr)
  | rangeFrom (attributes : List Token) (start : Expression)
  | rangeTo (attributes : List Token) (dots : String) (stop : Expression)
  | rangeBetween (attributes : List Token) (start : Expression) (dots : String) (stop : Expression)
  /-- A jump with a value; a `break` may have a label in its head. -/
  | jump (attributes : List Token) (leaves labeled : Bool) (head : List Token) (value : Expression)
  /-- A closure, which may name the type of its value and then has a block for its body. -/
  | closure (attributes : List Token) (typed : Bool) (head : List Token) (body : Expression)
  | binding (attributes head : List Token) (value : Expression)
  /-- A field, a method call or a question mark after an operand. -/
  | member (attributes : List Token) (operand : Expression) (rest : List Token)
  | call (attributes : List Token) (function : Expression) (arguments : List (List Token)) (trailing : Bool)
  | index (attributes : List Token) (operand : Expression) (rest : List Token)

namespace Expression

instance : Inhabited Expression := ⟨.verbatim []⟩

/-! ## Form -/

def isRange : Expression → Bool
  | atom _ .everything _ | rangeFrom .. | rangeTo .. | rangeBetween .. => true
  | _ => false

def isComparison : Expression → Bool
  | binary _ _ _ .compare _ => true
  | _ => false

def isBinding : Expression → Bool
  | binding .. => true
  | _ => false

/-- The next arm of a match may follow without a comma. -/
def endsArm : Expression → Bool
  | atom _ (.block ..) _ => true
  | _ => false

/-- The next statement may follow without a semicolon. -/
def endsStatement : Expression → Bool
  | atom _ (.block ..) _ | atom _ (.invocation .brace) _ => true
  | _ => false

/-- The first token is the label of a block. -/
def startsLabeled : Expression → Bool
  | atom _ (.block labeled _) _ => labeled
  | binary _ left .. | assign _ left _ | cast _ left _ | rangeFrom _ left | rangeBetween _ left _ _
  | member _ left _ | call _ left .. | index _ left _ => left.startsLabeled
  | _ => false

/-! ## Attributes -/

/-- With attributes before the whole expression. What is kept as it stands takes none. -/
def withAttributes (more : List Token) : Expression → Expression
  | atom attributes kind content => atom (more ++ attributes) kind content
  | verbatim content => verbatim content
  | prefixed attributes operator operand => prefixed (more ++ attributes) operator operand
  | binary attributes left operator precedence right => binary (more ++ attributes) left operator precedence right
  | assign attributes left right => assign (more ++ attributes) left right
  | cast attributes operand type => cast (more ++ attributes) operand type
  | rangeFrom attributes start => rangeFrom (more ++ attributes) start
  | rangeTo attributes dots stop => rangeTo (more ++ attributes) dots stop
  | rangeBetween attributes start dots stop => rangeBetween (more ++ attributes) start dots stop
  | jump attributes leaves labeled head value => jump (more ++ attributes) leaves labeled head value
  | closure attributes typed head body => closure (more ++ attributes) typed head body
  | binding attributes head value => binding (more ++ attributes) head value
  | member attributes operand rest => member (more ++ attributes) operand rest
  | call attributes function arguments trailing => call (more ++ attributes) function arguments trailing
  | index attributes operand rest => index (more ++ attributes) operand rest

/-- With the attributes of a statement, which belong to its first operand. -/
def withLeadingAttributes (more : List Token) : Expression → Expression
  | binary attributes left operator precedence right =>
    binary attributes (left.withLeadingAttributes more) operator precedence right
  | assign attributes left right => assign attributes (left.withLeadingAttributes more) right
  | cast attributes operand type => cast attributes (operand.withLeadingAttributes more) type
  | e => e.withAttributes more

/-! ## Precedence -/

/-- Attributes hold on to what follows them as an operator would. -/
def heldBy (attributes : List Token) : Precedence := if attributes.isEmpty then .whole else .prefixed

def precedence : Expression → Precedence
  | atom _ (.jump _) _ | verbatim _ => .whole
  | atom _ .everything _ | rangeFrom .. | rangeTo .. | rangeBetween .. => .range
  | atom attributes .. | member attributes .. | call attributes .. | index attributes .. => heldBy attributes
  | prefixed .. => .prefixed
  | binary _ _ _ precedence _ => precedence
  | assign .. => .assign
  | cast .. => .cast
  | jump .. => .jump
  | closure attributes typed .. => if typed then heldBy attributes else .jump
  | binding .. => .bind

end Expression

end BuilderSynthesis.Syntax
