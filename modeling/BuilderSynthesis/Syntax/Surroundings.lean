/-
  BuilderSynthesis.Syntax.Surroundings — what stands around an expression, and the brackets that
  it asks for.

  An expression that is written inside another one, in a statement or in a condition has to be read
  again as the same tree. Brackets go around an expression that would end too early where it stands
  or go on too far (`Surroundings.encloses`), and around an operand that binds more loosely there
  than its operator asks. An operand that reaches up to the end of what it stands in may bind
  tighter than its form says, as nothing can follow that it would take in; whether it does so is
  found by following the last parts of the expression (`Expression.scan`).
-/

import BuilderSynthesis.Syntax.Expression

namespace BuilderSynthesis.Syntax

structure Surroundings where
  /-- How tightly the operators before and after bind. -/
  before : Precedence
  after : Precedence
  /-- A whole statement, or the first part of one. -/
  statement : Bool
  startsStatement : Bool
  /-- The whole body of a match arm, or the first part of one. -/
  arm : Bool
  startsArm : Bool
  /-- Within a condition, where no brace may open a struct, or the last part of one. -/
  condition : Bool
  endsCondition : Bool
  /-- The first part of an operand that may be left out of a condition. -/
  startsOptional : Bool
  /-- An operator follows, or one that could also begin an operand or the arguments of a type. -/
  followed : Bool
  beginsAfter : Bool
  anglesAfter : Bool

namespace Surroundings

/-- Nothing stands around the expression. -/
def alone : Surroundings where
  before := .jump
  after := .jump
  statement := false
  startsStatement := false
  arm := false
  startsArm := false
  condition := false
  endsCondition := false
  startsOptional := false
  followed := false
  beginsAfter := false
  anglesAfter := false

def ofStatement : Surroundings := { alone with statement := true }

def ofArm : Surroundings := { alone with arm := true }

def ofCondition : Surroundings := { alone with condition := true, endsCondition := true }

/-! ## Around the parts of an expression -/

/-- The first part of an expression with an operator after it. -/
def left (p : Surroundings) (beginsAfter anglesAfter : Bool) (after : Precedence) : Surroundings :=
  { p with
    after, beginsAfter, anglesAfter
    statement := false
    startsStatement := p.statement || p.startsStatement
    arm := false
    startsArm := p.arm || p.startsArm
    endsCondition := false
    followed := true }

/-- The first part of an expression with a point or a question mark after it, which go on even with
what would end a statement. -/
def ofOwner (p : Surroundings) : Surroundings :=
  { p with
    after := .whole
    statement := p.statement || p.startsStatement
    startsStatement := false
    arm := p.arm || p.startsArm
    startsArm := false
    endsCondition := false
    followed := true
    beginsAfter := false
    anglesAfter := false }

/-- The last part of an expression. After some words a struct may be written out again even in a
condition, and some parts may be left out. -/
def right (p : Surroundings) (freely optional : Bool) (before : Precedence) : Surroundings :=
  { p with
    before
    statement := false
    startsStatement := false
    arm := false
    startsArm := false
    condition := p.condition && !freely
    startsOptional := p.condition && optional }

/-! ## What may not stand bare -/

/-- The expression would end too early here, or go on too far. -/
def encloses (p : Surroundings) (e : Expression) : Bool :=
  (p.startsStatement && e.endsStatement) ||
    ((p.statement || p.startsStatement) && e.isBinding) ||
    (p.startsArm && e.endsArm) ||
    (match e with
      | .atom _ .fields _ => p.condition
      | .atom _ (.jump leaves) _ => p.endsCondition && (!leaves || !p.condition)
      | .atom _ (.path _) _ | .atom _ .everything _ | .rangeFrom .. => p.endsCondition && !p.condition
      | .atom [] (.block false true) _ => p.startsOptional
      | _ => false)

/-- How tightly an expression holds together here. -/
def holds (p : Surroundings) (e : Expression) : Precedence :=
  match e with
  | .atom _ (.jump _) _ =>
    if p.beginsAfter then .jump else if !p.followed then .prefixed else e.precedence
  | .closure .. | .binding .. | .jump .. | .rangeTo .. | .atom _ .everything _ =>
    if !p.followed then .prefixed else e.precedence
  | .cast _ _ type => if p.anglesAfter && type.endsInName then .jump else e.precedence
  | _ => e.precedence

end Surroundings

/-! ## Following the last parts -/

/-- What comes of reading on after the last part of an expression: the operator that follows is not
reached, is left to what stands outside, or is taken in. -/
inductive Scan where
  | fails
  | leaves
  | takes
  deriving DecidableEq

namespace Scan

/-- How far this is beyond leaving the operator. -/
def excess : Scan → Nat
  | takes => 1
  | _ => 0

/-- After a part that reaches to the end whatever follows. -/
def beyond : Scan → Scan
  | fails => leaves
  | _ => takes

end Scan

namespace Surroundings

/-- Whether the operator that follows is taken in by one before the expression. -/
def scanOutside (p : Surroundings) (precedence : Precedence) : Scan :=
  let takes := match precedence with
    | .assign | .compare => precedence.atMost p.after
    | _ => precedence.below p.after
  if takes || p.after == .jump then .takes else .leaves

/-- The operators before the expression do not take its first part. -/
def scansLeft (p : Surroundings) : Expression → Bool
  | .assign .. => p.before.atMost .assign
  | .binary _ _ _ .assign _ => p.before.atMost .assign
  | .binary _ _ _ precedence _ => p.before.below precedence
  | .cast .. => p.before.below .cast
  | .rangeFrom .. | .rangeBetween .. => p.before.below .assign
  | _ => true

/-- An operand at the end is asked whether it may go without brackets only if it seems not to. -/
def asksRight (p : Surroundings) (e : Expression) : Bool :=
  (match p.before with
    | .assign | .bind | .prefixed => (p.holds e).below p.before
    | _ => (p.holds e).atMost p.before) &&
  (match p.after with
    | .range | .or | .and => true
    | _ => !p.beginsAfter)

/-- How tightly an operand at the end holds together, from what comes of reading on after it. -/
def holdsRightBy (p : Surroundings) (e : Expression) (scan : Unit → Scan) : Precedence :=
  if p.asksRight e && (scan () != .takes && p.scansLeft e) then .prefixed else p.holds e

/-- Enough has been tried: how often something has failed already, and has left off. -/
def exhausted (p : Surroundings) (outside : Scan) (failing leaving : Nat) : Bool :=
  match p.after with
  | .whole => 2 ≤ failing && (outside == .takes || 1 ≤ leaving)
  | _ => 1 ≤ leaving

def failingInside (p : Surroundings) (failing : Nat) : Nat :=
  match p.after with
  | .whole => failing
  | _ => 1

/-- What a failure within the last part comes to. -/
def scanFailed (p : Surroundings) : Scan := if p.after == .whole then .fails else .leaves

end Surroundings

/-- Reads on after the last part of an expression, which an operator of the given precedence stands
before. The two numbers say how often one has failed already and how often one has left off. -/
def Expression.scan (e : Expression) (p : Surroundings) (precedence : Precedence) (failing leaving : Nat) : Scan :=
  let outside := p.scanOutside precedence
  if p.encloses e then outside
  else match e with
  | .assign [] _ right =>
    if (if p.after == .whole then 2 ≤ failing else 1 ≤ leaving) then .takes
    else
      match right.scan (p.right false false .assign) .assign (p.failingInside failing) 1 with
      | .fails => p.scanFailed
      | _ => .takes
  | .binary [] _ _ own right =>
    if p.exhausted outside failing leaving || (own == .compare && p.after == .compare) then .takes
    else
      let q := p.right false false own
      match right.scan q own (p.failingInside failing) outside.excess with
      | .leaves => outside
      | .takes => .takes
      | .fails =>
        if own != .assign && (q.holdsRightBy right fun _ => right.scan q q.before 1 0).atMost own then outside
        else p.scanFailed
  | .prefixed _ _ operand =>
    if p.exhausted outside failing leaving then .takes
    else
      let q := p.right false false .prefixed
      match operand.scan q precedence (p.failingInside failing) outside.excess with
      | .leaves => outside
      | .takes => .takes
      | .fails =>
        if (q.holdsRightBy operand fun _ => operand.scan q q.before 1 0).below .prefixed then outside
        else p.scanFailed
  | .rangeTo [] _ stop | .rangeBetween [] _ _ stop =>
    if 2 ≤ failing then .takes
    else
      let q := p.right false true .range
      let isOuter := p.after == .assign || p.after == .range
      let scan := stop.scan q .range failing (if isOuter then 0 else 1)
      if scan == .takes || (scan == .leaves && !isOuter) then .takes
      else if (q.holdsRightBy stop fun _ => stop.scan q q.before 1 0).atMost .range then .takes
      else .fails
  | .rangeFrom [] _ | .atom [] .everything _ => if p.beginsAfter then .takes else .fails
  | .jump _ leaves labeled _ value =>
    if 1 ≤ leaving || (leaves && !labeled && value.startsLabeled) then .takes
    else (value.scan (p.right true leaves .jump) .jump 1 1).beyond
  | .atom _ (.jump _) _ => if p.after == .assign && Precedence.assign.below precedence then .fails else .takes
  | .closure _ _ _ body =>
    if 1 ≤ leaving then .takes else (body.scan (p.right false false .jump) .jump 1 1).beyond
  | .binding _ _ value =>
    if 1 ≤ leaving then .takes
    else
      let q := p.right false false .bind
      let isOuter := p.after.below .bind
      match value.scan q .bind 1 (if isOuter then 0 else 1) with
      | .takes => .takes
      | .leaves => if isOuter then .leaves else .takes
      | .fails =>
        if !isOuter && (q.holdsRightBy value fun _ => value.scan q q.before 1 0).below .bind then .takes
        else .leaves
  | _ =>
    if precedence == .range && (p.after == .assign || p.after == .range) then .fails
    else if precedence == .bind && p.after.below .bind then .fails
    else outside

namespace Surroundings

/-- How tightly an operand at the end holds together. -/
def holdsRight (p : Surroundings) (e : Expression) : Precedence := p.holdsRightBy e fun _ => e.scan p p.before 1 0

/-- How tightly an operand at the start holds together. -/
def holdsLeft (p : Surroundings) (e : Expression) : Precedence :=
  if (!p.beginsAfter || p.after == .range) && (e.scan p .jump 0 0 == .leaves && p.scansLeft e) then .whole
  else p.holds e

end Surroundings

/-! ## Writing -/

namespace Expression

def attributes : Expression → List Token
  | verbatim _ => []
  | atom attributes .. | prefixed attributes .. | binary attributes .. | assign attributes .. | cast attributes ..
  | rangeFrom attributes .. | rangeTo attributes .. | rangeBetween attributes .. | jump attributes ..
  | closure attributes .. | binding attributes .. | member attributes .. | call attributes .. | index attributes .. =>
    attributes

/-- Attributes before an operator that has an operand on its left would belong to that operand. -/
def attributesEnclose (e : Expression) : Bool :=
  !e.attributes.isEmpty && (match e with
    | assign .. | binary .. | cast .. => true
    | _ => e.isRange)

end Expression

namespace Operator

/-- The operator could also begin an operand. -/
def begins (operator : String) : Bool := ["-", "*", "&&", "||", "&", "|", "<<", "<"].contains operator

/-- The operator could also open the arguments of a type. -/
def angles (operator : String) : Bool := operator == "<<" || operator == "<"

end Operator

/-- Tokens in round brackets where they are needed. -/
def parenthesesIf (needed : Bool) (tokens : List Token) : List Token :=
  if needed then [.enclosed .parenthesis tokens] else tokens

/-- A part at its place, or in brackets of its own, where nothing stands around it. -/
def writtenPart (write : Surroundings → List Token) (grouped : Bool) (p : Surroundings) : List Token :=
  if grouped then [.enclosed .parenthesis (write .alone)] else write p

/-- An expression as it is written in a place. -/
def Expression.tokens (e : Expression) (p : Surroundings) : List Token :=
  let enclosed := p.encloses e
  let inner := e.attributesEnclose
  let q := if enclosed || inner then .alone else p
  let body := match e with
    | .atom _ _ content => content
    | .verbatim content => content
    | .prefixed _ operator operand =>
      let right := q.right false false .prefixed
      operator ++ writtenPart operand.tokens ((right.holdsRight operand).below .prefixed) right
    | .binary _ first operator precedence second =>
      let left := q.left (Operator.begins operator) (Operator.angles operator) precedence
      let held := left.holdsLeft first
      let leftGrouped := match precedence with
        | .assign => held.atMost .range
        | .compare => held.atMost .compare
        | _ => held.below precedence
      let right := q.right false false precedence
      let rightGrouped := precedence != .assign && (right.holdsRight second).atMost precedence
      writtenPart first.tokens leftGrouped left ++ Token.symbol operator ++
        writtenPart second.tokens rightGrouped right
    | .assign _ target value =>
      let left := q.left false false .assign
      writtenPart target.tokens ((left.holdsLeft target).atMost .range) left ++ Token.symbol "=" ++
        value.tokens (q.right false false .assign)
    | .cast _ operand type =>
      let left := q.left false false .cast
      writtenPart operand.tokens ((left.holdsLeft operand).below .cast) left ++ (Token.word "as" :: type.tokens)
    | .rangeFrom _ start =>
      let left := q.left true false .range
      writtenPart start.tokens ((left.holdsLeft start).atMost .range) left ++ Token.symbol ".."
    | .rangeTo _ dots stop =>
      let right := q.right false true .range
      Token.symbol dots ++ writtenPart stop.tokens ((right.holdsRight stop).atMost .range) right
    | .rangeBetween _ start dots stop =>
      let left := q.left true false .range
      let right := q.right false true .range
      writtenPart start.tokens ((left.holdsLeft start).atMost .range) left ++ Token.symbol dots ++
        writtenPart stop.tokens ((right.holdsRight stop).atMost .range) right
    | .jump _ leaves labeled head value =>
      head ++ writtenPart value.tokens (leaves && !labeled && value.startsLabeled) (q.right true leaves .jump)
    | .closure _ _ head body => head ++ body.tokens (q.right false false .jump)
    | .binding _ head value =>
      let right := q.right false false .bind
      head ++ writtenPart value.tokens ((right.holdsRight value).below .bind) right
    | .member _ operand rest =>
      let left := q.ofOwner
      writtenPart operand.tokens ((left.holdsLeft operand).below .whole) left ++ rest
    | .call _ function arguments trailing =>
      let left := q.left true false .whole
      writtenPart function.tokens ((left.holdsLeft function).below .whole) left ++
        [.enclosed .parenthesis (commas trailing arguments)]
    | .index _ operand rest =>
      let left := q.left true false .whole
      writtenPart operand.tokens ((left.holdsLeft operand).below .whole) left ++ rest
  parenthesesIf enclosed (e.attributes ++ parenthesesIf inner body)

end BuilderSynthesis.Syntax
