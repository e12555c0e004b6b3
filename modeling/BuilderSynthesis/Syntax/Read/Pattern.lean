/-
  BuilderSynthesis.Syntax.Read.Pattern — patterns.

  Patterns are only checked and written; of their form no more is kept than what a parameter or a
  surrounding pattern asks about.
-/

import BuilderSynthesis.Syntax.Lexeme
import BuilderSynthesis.Syntax.Read.Type

namespace BuilderSynthesis.Syntax.Read

open BuilderSynthesis.Syntax.Parser

variable (g : Grammar)

/-! ## Names of fields -/

/-- Whole numbers, as a field of a tuple is named. -/
def isWholeNumber (text : String) : Bool := isNumber text && (Lexeme.fractional text.toList).isNone

/-- The number of a field as it is written: in decimal, without a suffix or leading zeros. No field
has a sign in its number, though one may stand before it. -/
def fieldIndex (position : Position) (text : String) : Parser Token := do
  let (signed, digits) := match text.toList with
    | '-' :: digits => (true, digits)
    | digits => (false, digits)
  if !isWholeNumber (String.ofList digits) then failAt position .wholeNumberMissing
  let (value, suffix) := Lexeme.wholeValue digits
  if !suffix.isEmpty then failAt position .suffixedIndex
  if signed then failAt position .signedIndex
  if value ≥ UInt32.size then failAt position .indexTooLarge
  pure (Token.text (toString value))

/-- A number stands here, with its sign, its place and how many tokens it takes; and whether it is
whole. -/
def number? : Parser (Option (Bool × String × Position × Nat)) := do
  match ← remaining with
  | .literal text position :: _ =>
    pure (if isNumber text then some (isWholeNumber text, text, position, 1) else none)
  | .punct '-' _ position :: .literal text _ :: _ =>
    pure (if isNumber text then some (isWholeNumber text, "-" ++ text, position, 2) else none)
  | _ => pure none

/-- A field by its name or its number, and whether it has a name. -/
def member : Parser Bool := do
  if ← sees .identifier then
    discard identifier
    pure true
  else
    match ← number? with
    | some (true, text, position, count) =>
      let index ← fieldIndex position text
      skip count
      write [index]
      pure false
    | _ => fail .fieldNameMissing

/-! ## Alternatives -/

/-- One pattern or several with bars between them. A leading bar is read before. -/
def alternatives (leading : Bool) : Parser PatternShape := do
  let first ← g.pattern
  let goesOn := seesBut (.mark "|") [.mark "||", .mark "|="]
  if leading || (← goesOn) then
    discard (whileSeen goesOn (do mark "|"; discard g.pattern))
    pure .other
  else pure first

def anyPattern : Parser PatternShape := do
  alternatives g (← mark? "|")

/-! ## Ranges -/

def rangeEnd : Parser Bool := do
  if (← atEnd) || (← seesAny [.mark "|", .mark "=", .mark ",", .mark ";", .word "if"]) ||
      (← seesBut (.mark ":") [.mark "::"]) then
    pure false
  else if ← sees .literal then
    discard literal
    pure true
  else if ← seesAny [.identifier, .mark "::", .mark "<", .word "self", .word "Self", .word "super", .word "crate"] then
    discard (qualifiedPath g true)
    pure true
  else if ← sees (.word "const") then
    word "const"
    discard (block g)
    pure true
  else
    failNoneOf [.literal, .identifier, .mark "::", .mark "<", .word "self", .word "Self", .word "super",
      .word "crate", .word "const"]

/-- The dots of a range, and whether it includes its end. Three dots are an old spelling. -/
def rangeDots (old : Bool) : Parser Bool := do
  if ← mark? "..=" then pure true
  else if ← sees (.mark "...") then
    if old then
      let _ ← captured (mark "...")
      write (Token.symbol "..=")
      pure true
    else failNoneOf [.mark "..="]
  else if ← mark? ".." then pure false
  else failNoneOf [.mark ".."]

def rangeAfterStart : Parser PatternShape := do
  let position ← here
  let closed ← rangeDots true
  let ended ← rangeEnd g
  if closed && !ended then fail .upperBoundMissing
  pure (if ended then .range else .halfOpen position)

def rangeFromStart : Parser PatternShape := do
  let position ← here
  let closed ← rangeDots false
  if ← rangeEnd g then pure (.halfOpen position)
  else if closed then fail .upperBoundMissing
  else pure .rest

/-! ## Forms -/

def fieldPattern : Parser Unit := do
  if ← sees (.word "box") then
    verbatim (do
      word "box"
      discard (word? "ref")
      discard (word? "mut")
      discard identifier)
  else
    let byRef ← word? "ref"
    let mutable ← word? "mut"
    if byRef || mutable then discard identifier
    else
      let named ← member
      if (← sees (.mark ":")) || !named then
        mark ":"
        discard (anyPattern g)

def structFields : Parser Unit :=
  inside .brace do
    let step (_ : Unit) : Parser (Turn Unit Unit) := do
      if ← atEnd then pure (.done ())
      else
        discard (outerAttributes g)
        if ← mark? ".." then pure (.done ())
        else
          fieldPattern g
          if ← atEnd then pure (.done ())
          else
            mark ","
            pure (.again ())
    loop step ()

def afterPath : Parser PatternShape := do
  let path ← qualifiedPath g true
  let plain := match path with
    | .path p => p.isPlain
    | _ => false
  if plain && (← seesBut (.mark "!") [.mark "!="]) then
    mark "!"
    discard anyGroup
    pure .other
  else if ← sees (.group .brace) then
    structFields g
    pure .other
  else if ← sees (.group .parenthesis) then
    discard (inside .parenthesis (commaSeparated (anyPattern g)))
    pure .other
  else if ← sees (.mark "..") then rangeAfterStart g
  else pure .other

def bindingPattern : Parser PatternShape := do
  let byRef ← word? "ref"
  discard (word? "mut")
  let position ← here
  let name ← (do if ← sees (.word "self") then anyWord else identifier)
  let hasSubpattern ← (do
    if ← mark? "@" then
      discard g.pattern
      pure true
    else pure false)
  pure (.binding name position byRef hasSubpattern)

def startsPathPattern : Parser Bool := do
  if ← sees .identifier then
    if (← seesSecond (.mark "::")) || (← seesSecond (.mark "!")) || (← seesSecond (.group .brace)) ||
        (← seesSecond (.group .parenthesis)) || (← seesSecond (.mark "..")) then
      return true
  if (← sees (.word "self")) && (← seesSecond (.mark "::")) then return true
  seesAny [.mark "::", .mark "<", .word "Self", .word "super", .word "crate"]

def patternStarts : List Expected :=
  [.identifier, .mark "::", .mark "<", .word "_", .literal, .word "const", .word "ref", .word "mut", .mark "&",
   .group .parenthesis, .group .bracket, .mark "..", .word "const"]

def slicePattern : Parser Unit := do
  let element : Parser Unit := do
    match ← anyPattern g with
    | .halfOpen dotsAt => failAt dotsAt .halfOpenRangeInSlice
    | _ => pure ()
  discard (inside .bracket (commaSeparated element))

def pattern : Parser PatternShape := do
  if ← startsPathPattern then afterPath g
  else if ← word? "_" then pure .other
  else if ← sees (.word "box") then
    verbatim (do
      word "box"
      discard g.pattern)
    pure .verbatim
  else if ← seesAny [.mark "-", .literal, .word "const"] then
    discard (rangeEnd g)
    if ← sees (.mark "..") then rangeAfterStart g else pure .other
  else if ← seesAny [.word "ref", .word "mut", .word "self", .identifier] then bindingPattern g
  else if ← mark? "&" then
    discard (word? "mut")
    discard g.pattern
    pure .other
  else if ← sees (.group .parenthesis) then
    discard (inside .parenthesis (commaSeparated (anyPattern g)))
    pure .other
  else if ← sees (.group .bracket) then
    slicePattern g
    pure .other
  else if ← seesBut (.mark "..") [.mark "..."] then rangeFromStart g
  else failNoneOf patternStarts

end BuilderSynthesis.Syntax.Read
