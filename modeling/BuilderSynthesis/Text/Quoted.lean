/-
  BuilderSynthesis.Text.Quoted — text between double quotes.

  `quoted` writes a text so that one line shows it; `literal` writes a string literal, which
  differs in one point: a NUL before an octal digit takes its two-digit form. `decode` reads the
  inside of a cooked string literal back.
-/

import BuilderSynthesis.Text.Character

namespace BuilderSynthesis.Text

/-- The number written by hexadecimal digits, underscores aside. -/
def hexNumber (digits : List Char) : Nat :=
  (digits.filter (· != '_')).foldl (fun n c => 16 * n + hexValue c) 0

/-- `\u`, then the code point in braces. -/
def escapeCode (c : Char) : List Char :=
  '\\' :: 'u' :: '\x7b' :: (Nat.toDigits 16 c.toNat ++ ['\x7d'])

def escapeChar (c : Char) : List Char :=
  if c == '\x00' then ['\\', '0']
  else if c == '\t' then ['\\', 't']
  else if c == '\r' then ['\\', 'r']
  else if c == '\n' then ['\\', 'n']
  else if c == '\\' || c == '"' then ['\\', c]
  else if isPlain c then [c]
  else escapeCode c

def escape : List Char → List Char
  | [] => []
  | c :: rest => escapeChar c ++ escape rest

def isOctalDigit (c : Char) : Bool := '0' ≤ c && c ≤ '7'

/-- Escapes a text as `escape` does, but keeps a NUL apart from an octal digit after it. -/
def escapeLiteral : List Char → List Char
  | [] => []
  | c :: rest =>
    (if c == '\x00' && (rest.head?.any isOctalDigit) then ['\\', 'x', '0', '0'] else escapeChar c)
      ++ escapeLiteral rest

def quoted (text : String) : String :=
  String.ofList ('"' :: (escape text.toList ++ ['"']))

/-- A string literal with this value. -/
def literal (text : String) : String :=
  String.ofList ('"' :: (escapeLiteral text.toList ++ ['"']))

/-- Where the reading of a cooked string literal stands. -/
inductive Reading where
  | plain
  | escape
  | hex (digits : List Char)
  | code (digits : List Char)
  | lineEnd

namespace Reading

/-- Reads one character outside of an escape. A line break counts as one character. -/
def plainStep (c : Char) : Reading × List Char :=
  if c == '\\' then (.escape, [])
  else if c == '\r' then (.plain, [])
  else (.plain, [c])

def step : Reading → Char → Reading × List Char
  | .plain, c => plainStep c
  | .escape, c =>
    if c == 'n' then (.plain, ['\n'])
    else if c == 'r' then (.plain, ['\r'])
    else if c == 't' then (.plain, ['\t'])
    else if c == '0' then (.plain, ['\x00'])
    else if c == 'x' then (.hex [], [])
    else if c == 'u' then (.code [], [])
    else if c == '\n' || c == '\r' then (.lineEnd, [])
    else (.plain, [c])
  | .hex [], c => (.hex [c], [])
  | .hex (d :: _), c => (.plain, [Char.ofNat (hexNumber [d, c])])
  | .code digits, c =>
    if c == '\x7b' then (.code [], [])
    else if c == '\x7d' then (.plain, [Char.ofNat (hexNumber digits)])
    else (.code (digits ++ [c]), [])
  | .lineEnd, c =>
    if c == ' ' || c == '\t' || c == '\n' || c == '\r' then (.lineEnd, []) else plainStep c

def value : Reading → List Char → List Char
  | _, [] => []
  | reading, c :: rest => (step reading c).2 ++ value (step reading c).1 rest

end Reading

/-- The value of what stands between the quotes of a cooked string literal. A backslash at the
end of a line skips to the next character that is not blank. -/
def decode (inside : List Char) : List Char := Reading.plain.value inside

/-- The value of a raw string literal, from its hash marks on. -/
def rawValue (cs : List Char) : List Char :=
  let hashes := (cs.takeWhile (· == '#')).length
  let fromQuote := (cs.drop (hashes + 1)).reverse.dropWhile (· != '"')
  (fromQuote.drop 1).reverse

/-- The value of a string literal, raw or cooked, which may have a suffix. -/
def literalValue (literal : String) : String :=
  String.ofList <|
    match literal.toList with
    | 'r' :: rest => rawValue rest
    | cs => decode ((cs.drop 1).reverse.dropWhile (· != '"') |>.drop 1 |>.reverse)

end BuilderSynthesis.Text
