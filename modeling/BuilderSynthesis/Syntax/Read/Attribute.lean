/-
  BuilderSynthesis.Syntax.Read.Attribute — attributes and the plain paths that name them.
-/

import BuilderSynthesis.Syntax.Grammar

namespace BuilderSynthesis.Syntax.Read

open BuilderSynthesis.Syntax.Parser

/-! ## Plain paths -/

/-- The words that stand for a module in a path. -/
def pathWords : List Expected := [.word "self", .word "super", .word "crate"]

/-- Names with separators between them, and whether a separator ends them. -/
def plainNames : Parser (List String × Bool) := do
  let step (read : List String) : Parser (Turn (List String) (List String × Bool)) := do
    if ← seesAny (.identifier :: .word "Self" :: pathWords) then
      let name ← anyWord
      if ← mark? "::" then pure (.again (name :: read))
      else pure (.done ((name :: read).reverse, false))
    else pure (.done (read.reverse, !read.isEmpty))
  loop step []

/-- A path without arguments, and where its first name stands. -/
def plainPath : Parser (PathExpr × Position) := do
  let leading ← mark? "::"
  let position ← here
  let (names, trailing) ← plainNames
  if names.isEmpty then
    discard identifier
  if trailing then
    fail .pathEndsInSeparator
  pure (.mk leading (names.map (.mk · .none)), position)

/-! ## Attributes -/

def attributeValue (g : Grammar) : Parser Unit := do
  let alone ← attempt (do
    let _ ← literal
    if !(← atEnd) then fail .expressionMissing)
  if alone.isNone then
    if (← sees (.mark "#")) && (← seesSecond (.group .bracket)) then
      fail .attributeInAttribute
    g.expressionAlone

def attributeForm (g : Grammar) : Parser AttributeForm := do
  if ← sees .anyGroup then
    let (_, content, closesAt) ← anyGroup
    pure (.list content closesAt)
  else if ← seesBut (.mark "=") [.mark "==", .mark "=>"] then
    let position ← here
    mark "="
    attributeValue g
    pure (.value position)
  else pure .path

/-- What stands between the brackets of an attribute. -/
def attributeContent (g : Grammar) : Parser (PathExpr × Position × AttributeForm) := do
  let (path, position) ← (do
    if ← sees (.word "unsafe") then
      let position ← here
      word "unsafe"
      pure (PathExpr.mk false [.mk "unsafe" .none], position)
    else plainPath)
  pure (path, position, ← attributeForm g)

def singleAttribute (g : Grammar) (inner : Bool) : Parser Attribute := do
  let position ← here
  mark "#"
  if inner then
    mark "!"
  inside .bracket do
    let ((path, pathAt, form), content) ← captured (attributeContent g)
    write content
    pure { position, inner, path, pathAt, form, content }

def outerAttributes (g : Grammar) : Parser (List Attribute) :=
  whileSeen (sees (.mark "#")) (singleAttribute g false)

def innerAttributes (g : Grammar) : Parser (List Attribute) :=
  whileSeen (do pure ((← sees (.mark "#")) && (← seesSecond (.mark "!")))) (singleAttribute g true)

/-! ## Entries of an attribute -/

/-- The path of an entry, which may hold any words, and where its first name stands. -/
def entryPath : Parser (PathExpr × Position) := do
  let leading ← mark? "::"
  let position ← here
  let first ← (do
    if ← sees .anyWord then anyWord
    else if ← atEnd then fail .nestedAttributeMissing
    else if ← sees .literal then fail .literalAsNestedAttribute
    else fail .tokenAsNestedAttribute)
  let others ← whileSeen (sees (.mark "::")) (do mark "::"; anyWord)
  pure (.mk leading ((first :: others).map (.mk · .none)), position)

/-- Runs on with what has been gathered until an entry fails; the problem comes with what the
entries before it, and the faulty entry itself, have left. -/
def entriesFrom {σ : Type} (entry : σ → PathExpr → Position → Parser σ) :
    Nat → σ → Stream → σ × Except Problem Stream
  | 0, state, s => (state, .ok s)
  | n + 1, state, s =>
    match entryPath s with
    | .error e => (state, .error e)
    | .ok ((path, position), s) =>
      match entry state path position s with
      | .error e => (state, .error e)
      | .ok (state, s) =>
        if s.rest.isEmpty then (state, .ok s)
        else match mark "," s with
          | .error e => (state, .error e)
          | .ok (_, s) => if s.rest.isEmpty then (state, .ok s) else entriesFrom entry n state s

/-- Reads comma-separated entries, each by a reader that extends what has been gathered. -/
def entries {σ : Type} (entry : σ → PathExpr → Position → Parser σ) (state : σ)
    (content : List Token) (closesAt : Position) : σ × Except Problem Unit :=
  if content.isEmpty then (state, .ok ())
  else match entriesFrom entry content.length state ⟨content, closesAt, none, none, []⟩ with
    | (state, .error e) => (state, .error e)
    | (state, .ok s) =>
      match noteLeftover s with
      | some (position, within) => (state, .error ⟨.leftover within, position, false⟩)
      | none => (state, .ok ())

/-- Reads the entries of an attribute that lists them in brackets. -/
def attributeEntries {σ : Type} (entry : σ → PathExpr → Position → Parser σ) (state : σ)
    (attr : Attribute) : σ × Except Problem Unit :=
  match attr.form with
  | .list content closesAt => entries entry state content closesAt
  | .path => (state, .error ⟨.argumentsMissing (attr.shown ++ "(...)]"), attr.pathAt, false⟩)
  | .value equalsAt => (state, .error ⟨.argumentsNotInParentheses (attr.shown ++ "(...)]"), equalsAt, false⟩)

/-- The value of an entry comes after an equals sign. -/
def entryValue {α : Type} (p : Parser α) : Parser α := do
  mark "="
  p

end BuilderSynthesis.Syntax.Read
