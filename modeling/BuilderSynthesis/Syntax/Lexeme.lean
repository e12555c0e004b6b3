/-
  BuilderSynthesis.Syntax.Lexeme — where a single literal, identifier or comment ends.

  Each reader takes the characters from the start of a lexeme on and answers with the characters
  after it, or with none when no such lexeme stands there. Text between quotes is read by a small
  machine (`Quote.step`) that knows which escapes the kind of literal allows.
-/

import BuilderSynthesis.Text.Quoted

namespace BuilderSynthesis.Syntax.Lexeme

open BuilderSynthesis.Text

/-! ## Blank space and comments -/

/-- From the end of the line on, its line break included. -/
def lineEnd : List Char → List Char
  | [] => []
  | '\n' :: rest => '\n' :: rest
  | '\r' :: '\n' :: rest => '\r' :: '\n' :: rest
  | _ :: rest => lineEnd rest

/-- After the block comments that are open, which nest. -/
def blockEnd : Nat → List Char → Option (List Char)
  | depth, '/' :: '*' :: rest => blockEnd (depth + 1) rest
  | 0, '*' :: '/' :: rest => blockEnd 0 rest
  | 1, '*' :: '/' :: rest => some rest
  | depth + 2, '*' :: '/' :: rest => blockEnd (depth + 1) rest
  | depth, _ :: rest => blockEnd depth rest
  | _, [] => none

/-- A plain comment, one that does not document anything. -/
def comment : List Char → Option (List Char)
  | '/' :: '/' :: '/' :: '/' :: rest => some (lineEnd rest)
  | '/' :: '/' :: '/' :: _ => none
  | '/' :: '/' :: '!' :: _ => none
  | '/' :: '/' :: rest => some (lineEnd rest)
  | '/' :: '*' :: '*' :: '/' :: rest => some rest
  | '/' :: '*' :: '*' :: '*' :: rest => blockEnd 1 ('*' :: '*' :: rest)
  | '/' :: '*' :: '*' :: _ => none
  | '/' :: '*' :: '!' :: _ => none
  | '/' :: '*' :: rest => blockEnd 1 rest
  | _ => none

def blanksWithin : Nat → List Char → List Char
  | 0, cs => cs
  | _, [] => []
  | n + 1, c :: rest =>
    if c == '/' then
      match comment (c :: rest) with
      | some after => blanksWithin n after
      | none => c :: rest
    else if separatesTokens c then blanksWithin n rest
    else c :: rest

/-- After the blank space and the plain comments. -/
def blanks (cs : List Char) : List Char := blanksWithin cs.length cs

/-- A documenting comment: whether it documents what encloses it, its text, and what follows. -/
def documentation : List Char → Option (Bool × List Char × List Char)
  | '/' :: '/' :: '!' :: rest => some (true, lineText rest, lineEnd rest)
  | '/' :: '*' :: '!' :: rest => (blockEnd 1 ('!' :: rest)).map fun after => (true, blockText rest after, after)
  | '/' :: '/' :: '/' :: '/' :: _ => none
  | '/' :: '/' :: '/' :: rest => some (false, lineText rest, lineEnd rest)
  | '/' :: '*' :: '*' :: '*' :: _ => none
  | '/' :: '*' :: '*' :: rest => (blockEnd 1 ('*' :: rest)).map fun after => (false, blockText rest after, after)
  | _ => none
where
  lineText (rest : List Char) : List Char := rest.take (rest.length - (lineEnd rest).length)
  blockText (rest after : List Char) : List Char := rest.take (rest.length - after.length - 2)

/-- No carriage return stands apart from a line break. -/
def returnsPaired : List Char → Bool
  | [] => true
  | '\r' :: '\n' :: rest => returnsPaired rest
  | '\r' :: _ => false
  | _ :: rest => returnsPaired rest

/-! ## Identifiers -/

/-- After an identifier without a raw mark. -/
def plainIdentifier : List Char → Option (List Char)
  | c :: rest => if startsIdentifier c then some (rest.dropWhile continuesIdentifier) else none
  | [] => none

/-- After an identifier, raw or not. A few path words have no raw form. -/
def anyIdentifier : List Char → Option (List Char)
  | 'r' :: '#' :: rest =>
    match plainIdentifier rest with
    | none => none
    | some after =>
      let name := String.ofList (rest.take (rest.length - after.length))
      if ["_", "super", "self", "Self", "crate"].contains name then none else some after
  | cs => plainIdentifier cs

/-- These beginnings belong to quoted literals and start no identifier. -/
def literalPrefixes : List (List Char) :=
  ["r\"", "r#\"", "r##", "b\"", "b'", "br\"", "br#", "c\"", "cr\"", "cr#"].map String.toList

def identifier (cs : List Char) : Option (List Char) :=
  if literalPrefixes.any (·.isPrefixOf cs) then none else anyIdentifier cs

/-! ## Quoted literals -/

/-- The kinds of quoted text: any character, ASCII alone, or all but NUL. -/
inductive Quote where
  | text
  | bytes
  | terminated
  deriving DecidableEq

namespace Quote

def admits : Quote → Char → Bool
  | text, _ => true
  | bytes, c => c.toNat < 128
  | terminated, c => c != '\x00'

inductive State where
  | body
  | returned
  | backslash
  | hexHigh
  | hexLow (high : Char)
  | codeOpen
  | code (digits value : Nat)
  | lineEnd (returned : Bool)
  | closed
  deriving DecidableEq

def bodyStep (quote : Quote) (c : Char) : Option State :=
  if c == '"' then some .closed
  else if c == '\r' then some .returned
  else if c == '\\' then some .backslash
  else if quote.admits c then some .body
  else none

def escapeStep (quote : Quote) (c : Char) : Option State :=
  if c == 'x' then some .hexHigh
  else if ['n', 'r', 't', '\\', '\'', '"'].contains c then some .body
  else if c == '0' then (if quote == .terminated then none else some .body)
  else if c == 'u' then (if quote == .bytes then none else some .codeOpen)
  else if c == '\n' then some (.lineEnd false)
  else if c == '\r' then some (.lineEnd true)
  else none

def codeStep (quote : Quote) (digits value : Nat) (c : Char) : Option State :=
  if isHexDigit c then
    if digits == 6 then none else some (.code (digits + 1) (16 * value + hexValue c))
  else if c == '_' && digits != 0 then some (.code digits value)
  else if c == '\x7d' && digits != 0 then
    if value.isValidChar && quote.admits (Char.ofNat value) then some .body else none
  else none

def step (quote : Quote) : State → Char → Option State
  | .body, c => quote.bodyStep c
  | .returned, c => if c == '\n' then some .body else none
  | .backslash, c => quote.escapeStep c
  | .hexHigh, c =>
    if (if quote == .text then isOctalDigit c else isHexDigit c) then some (.hexLow c) else none
  | .hexLow high, c =>
    if isHexDigit c && !(quote == .terminated && high == '0' && c == '0') then some .body else none
  | .codeOpen, c => if c == '\x7b' then some (.code 0 0) else none
  | .code digits value, c => quote.codeStep digits value c
  | .lineEnd true, c => if c == '\n' then some (.lineEnd false) else none
  | .lineEnd false, c =>
    if c == ' ' || c == '\t' || c == '\n' then some (.lineEnd false)
    else if c == '\r' then some (.lineEnd true)
    else quote.bodyStep c
  | .closed, _ => none

/-- After the closing quote. -/
def cooked (quote : Quote) : State → List Char → Option (List Char)
  | _, [] => none
  | state, c :: rest =>
    match quote.step state c with
    | none => none
    | some .closed => some rest
    | some next => cooked quote next rest

/-- After an escape whose backslash has been read. -/
def escaped (quote : Quote) : State → List Char → Option (List Char)
  | _, [] => none
  | state, c :: rest =>
    match quote.step state c with
    | none => none
    | some .body => some rest
    | some next => escaped quote next rest

/-- After the closing quote with its hash marks. -/
def rawBody (quote : Quote) (hashes : Nat) : List Char → Option (List Char)
  | [] => none
  | '"' :: rest =>
    if (List.replicate hashes '#').isPrefixOf rest then some (rest.drop hashes) else rawBody quote hashes rest
  | '\r' :: '\n' :: rest => rawBody quote hashes rest
  | '\r' :: _ => none
  | c :: rest => if quote.admits c then rawBody quote hashes rest else none

/-- After raw text whose letters have been read. -/
def raw (quote : Quote) (cs : List Char) : Option (List Char) :=
  let hashes := (cs.takeWhile (· == '#')).length
  match cs.drop hashes with
  | '"' :: rest => if hashes ≤ 255 then quote.rawBody hashes rest else none
  | _ => none

/-- After a single quoted character whose opening quote has been read. -/
def single (quote : Quote) : List Char → Option (List Char)
  | '\\' :: c :: rest =>
    if c == '\n' || c == '\r' then none
    else (quote.escaped .backslash (c :: rest)).bind closing
  | c :: rest => if c.toNat < 128 || quote != .bytes then closing rest else none
  | [] => none
where
  closing : List Char → Option (List Char)
    | '\'' :: rest => some rest
    | _ => none

end Quote

/-- After the identifier that may end a literal. -/
def suffix (cs : List Char) : List Char := (plainIdentifier cs).getD cs

def quotedLiteral : List Char → Option (List Char)
  | '"' :: rest => Quote.text.cooked .body rest
  | 'r' :: rest => Quote.text.raw rest
  | 'b' :: '"' :: rest => Quote.bytes.cooked .body rest
  | 'b' :: 'r' :: rest => Quote.bytes.raw rest
  | 'b' :: '\'' :: rest => Quote.bytes.single rest
  | 'c' :: '"' :: rest => Quote.terminated.cooked .body rest
  | 'c' :: 'r' :: rest => Quote.terminated.raw rest
  | '\'' :: rest => Quote.text.single rest
  | _ => none

/-! ## Numbers -/

def isDigitOrMark (c : Char) : Bool := c.isDigit || c == '_'

/-- After the digits of an exponent, which may have a sign. -/
def exponent (cs : List Char) : Option (List Char) :=
  let cs := cs.dropWhile (· == '_')
  let cs := match cs with
    | '+' :: rest | '-' :: rest => rest.dropWhile (· == '_')
    | _ => cs
  match cs with
  | c :: rest => if c.isDigit then some (rest.dropWhile isDigitOrMark) else none
  | [] => none

/-- After a number with a point or an exponent. A point before another point or before an
identifier is not part of the number. -/
def fractional : List Char → Option (List Char)
  | [] => none
  | first :: rest =>
    if !first.isDigit then none
    else match rest.dropWhile isDigitOrMark with
      | '.' :: rest =>
        if rest.head?.any (fun c => c == '.' || startsIdentifier c) then none
        else
          let after := rest.dropWhile isDigitOrMark
          match after with
          | 'e' :: rest | 'E' :: rest => some ((exponent rest).getD after)
          | _ => some after
      | 'e' :: rest | 'E' :: rest => exponent rest
      | _ => none

/-- After the digits of a whole number; `none` when there are none or one is too large. -/
def digits (base : Nat) : Bool → List Char → Option (List Char)
  | empty, [] => if empty then none else some []
  | empty, c :: rest =>
    if c.isDigit then
      if hexValue c < base then digits base false rest else none
    else if isHexDigit c && hexValue c < base then digits base false rest
    else if c == '_' then
      if empty && base == 10 then none else digits base empty rest
    else if empty then none
    else some (c :: rest)

def whole : List Char → Option (List Char)
  | '0' :: 'x' :: rest => digits 16 true rest
  | '0' :: 'o' :: rest => digits 8 true rest
  | '0' :: 'b' :: rest => digits 2 true rest
  | cs => digits 10 true cs

/-- A number ends where no identifier goes on. -/
def broken (cs : List Char) : Option (List Char) :=
  if cs.head?.any continuesIdentifier then none else some cs

def number (cs : List Char) : Option (List Char) :=
  ((fractional cs).bind (broken <| suffix ·)).or ((whole cs).bind (broken <| suffix ·))

/-- The value of the digits at the start, underscores aside, and what follows them. -/
def valueOfDigits (base : Nat) (cs : List Char) : Nat × List Char :=
  let isDigit (c : Char) : Bool := c == '_' || (isHexDigit c && hexValue c < base)
  (((cs.takeWhile isDigit).filter (· != '_')).foldl (fun n c => base * n + hexValue c) 0, cs.dropWhile isDigit)

/-- The value of a whole number, and its suffix. -/
def wholeValue : List Char → Nat × List Char
  | '0' :: 'x' :: rest => valueOfDigits 16 rest
  | '0' :: 'o' :: rest => valueOfDigits 8 rest
  | '0' :: 'b' :: rest => valueOfDigits 2 rest
  | cs => valueOfDigits 10 cs

/-! ## Leaves -/

/-- The lexeme that marks a faulty part in text that another tool has written. -/
def faulty : List Char := "(/*ERROR*/)".toList

def literal (cs : List Char) : Option (List Char) :=
  ((quotedLiteral cs).map suffix).or (number cs)

def isMark (c : Char) : Bool := "~!@#$%^&*-=+|;:,<.>/?'".toList.contains c

/-- A punctuation mark stands here; the slash of a comment is none. -/
def startsMark : List Char → Bool
  | '/' :: '/' :: _ => false
  | '/' :: '*' :: _ => false
  | c :: _ => isMark c
  | [] => false

/-- An apostrophe is a mark when an identifier follows that is not a quoted character. -/
def startsLifetime (afterQuote : List Char) : Bool :=
  match anyIdentifier afterQuote with
  | none => false
  | some ('\'' :: _) => false
  | some ('#' :: _) => ['r', '#'].isPrefixOf afterQuote
  | some _ => true

end BuilderSynthesis.Syntax.Lexeme
