/-
  BuilderSynthesis.Syntax.Problem — why a text is not what it should be.

  A problem has a cause, the place it is about, and whether the tokens had run out there.
  `Problem.message` is the one place that words it.
-/

import BuilderSynthesis.Syntax.Token

namespace BuilderSynthesis.Syntax

/-- What may stand at a place in a text. -/
inductive Expected where
  /-- An operator or other mark. -/
  | mark (operator : String)
  /-- One fixed word. -/
  | word (name : String)
  /-- A name that is no reserved word. -/
  | identifier
  /-- Any word, reserved or not. -/
  | anyWord
  | lifetime
  | literal
  | stringLiteral
  | booleanLiteral
  | group (delimiter : Delimiter)
  | anyGroup
  deriving DecidableEq, Repr

namespace Expected

def text : Expected → String
  | mark operator => "`" ++ operator ++ "`"
  | word name => "`" ++ name ++ "`"
  | identifier => "identifier"
  | anyWord => "ident"
  | lifetime => "lifetime"
  | literal => "literal"
  | stringLiteral => "string literal"
  | booleanLiteral => "boolean literal"
  | group .parenthesis => "parentheses"
  | group .bracket => "square brackets"
  | group .brace => "curly braces"
  | anyGroup => "delimiter"

end Expected

inductive Complaint where
  /-- The text is no sequence of tokens. -/
  | notTokens
  | expected (wanted : Expected)
  /-- Several things may stand here and none does. -/
  | noneOf (wanted : List Expected)
  | reservedName (name : String)
  /-- Tokens are left over in a bracket, or at the end of the whole text. -/
  | leftover (within : Option Delimiter)
  | expressionMissing
  | comparisonChained
  | castFollowedBy (what : String)
  | commaOrSemicolonMissing
  | fieldNameMissing
  | wholeNumberMissing
  | suffixedIndex
  | signedIndex
  | indexTooLarge
  | loopOrBlockMissing
  | labelNeedsParentheses
  | semicolonMissing
  | pathEndsInSeparator
  | renameMissing
  | traitMissingInObject
  | traitMissingInBounds
  | captureRefused
  | constBoundRefused (inBrackets : Bool)
  | binderOnMaybeBound
  | upperBoundMissing
  | halfOpenRangeInSlice
  | attributesOnRange
  | attributeInAttribute
  | secondReceiver
  | lateReceiver
  | negativeInherentBlock
  | whereGenerics
  | nestedAttributeMissing
  | literalAsNestedAttribute
  | tokenAsNestedAttribute
  | argumentsMissing (form : String)
  | argumentsNotInParentheses (form : String)
  | unknownEntry (kind path : String)
  /-- As `unknownEntry`, without the name of what is not known. -/
  | unknownKind (kind : String)
  deriving DecidableEq, Repr

namespace Complaint

def listed : List Expected → String
  | [] => "unexpected token"
  | [a] => "expected " ++ a.text
  | [a, b] => "expected " ++ a.text ++ " or " ++ b.text
  | several => "expected one of: " ++ ", ".intercalate (several.map Expected.text)

def text : Complaint → String
  | notTokens => "cannot parse string into token stream"
  | expected wanted => "expected " ++ wanted.text
  | noneOf wanted => listed wanted
  | reservedName name => "expected identifier, found keyword `" ++ name ++ "`"
  | leftover none => "unexpected token"
  | leftover (some delimiter) => "unexpected token, expected `" ++ delimiter.closing.toString ++ "`"
  | expressionMissing => "expected an expression"
  | comparisonChained => "comparison operators cannot be chained"
  | castFollowedBy what => "casts cannot be followed by " ++ what
  | commaOrSemicolonMissing => "expected `,` or `;`"
  | fieldNameMissing => "expected identifier or integer"
  | wholeNumberMissing => "expected integer literal"
  | suffixedIndex => "expected unsuffixed integer"
  | signedIndex => "invalid digit found in string"
  | indexTooLarge => "number too large to fit in target type"
  | loopOrBlockMissing => "expected loop or block expression"
  | labelNeedsParentheses => "parentheses required"
  | semicolonMissing => "unexpected token, expected `;`"
  | pathEndsInSeparator => "expected path segment after `::`"
  | renameMissing => "expected identifier or underscore"
  | traitMissingInObject => "at least one trait is required for an object type"
  | traitMissingInBounds => "at least one trait must be specified"
  | captureRefused => "`use<...>` precise capturing syntax is not allowed here"
  | constBoundRefused true => "`[const]` is not allowed here"
  | constBoundRefused false => "`const` is not allowed here"
  | binderOnMaybeBound => "`for<...>` binder not allowed with `?` trait polarity modifier"
  | upperBoundMissing => "expected range upper bound"
  | halfOpenRangeInSlice => "range pattern is not allowed unparenthesized inside slice pattern"
  | attributesOnRange => "attributes are not allowed on range expressions starting with `..`"
  | attributeInAttribute => "unexpected attribute inside of attribute"
  | secondReceiver => "unexpected second method receiver"
  | lateReceiver => "unexpected method receiver"
  | negativeInherentBlock => "inherent impls cannot be negative"
  | whereGenerics => "generic parameters on `where` clauses are reserved for future use"
  | nestedAttributeMissing => "expected nested attribute"
  | literalAsNestedAttribute => "unexpected literal in nested attribute, expected ident"
  | tokenAsNestedAttribute => "unexpected token in nested attribute, expected ident"
  | argumentsMissing form => "expected attribute arguments in parentheses: " ++ form
  | argumentsNotInParentheses form => "expected parentheses: " ++ form
  | unknownEntry kind path => "unknown " ++ kind ++ " `" ++ path ++ "`"
  | unknownKind kind => "unknown " ++ kind

end Complaint

structure Problem where
  complaint : Complaint
  position : Position
  /-- The tokens of the bracket or text had run out. -/
  ended : Bool
  deriving DecidableEq, Repr

namespace Problem

def message (problem : Problem) : String :=
  match problem.ended, problem.complaint with
  | false, complaint => complaint.text
  | true, .noneOf [] => "unexpected end of input"
  | true, complaint => "unexpected end of input, " ++ complaint.text

end Problem

end BuilderSynthesis.Syntax
