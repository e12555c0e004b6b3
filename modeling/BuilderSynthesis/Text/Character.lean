/-
  BuilderSynthesis.Text.Character — the character classes the readers and printers ask for.

  An identifier starts with an XID_Start character or an underscore and goes on with
  XID_Continue characters. Blank characters are those with White_Space; between tokens the two
  direction marks count as blank too.
-/

import BuilderSynthesis.Text.AlphanumericRanges
import BuilderSynthesis.Text.IdentifierRanges
import BuilderSynthesis.Text.PrintableRanges

namespace BuilderSynthesis.Text

/-- The characters with White_Space. -/
def blankRanges : Ranges :=
  [(0x9, 0xD), (0x20, 0x20), (0x85, 0x85), (0xA0, 0xA0), (0x1680, 0x1680), (0x2000, 0x200A),
   (0x2028, 0x2029), (0x202F, 0x202F), (0x205F, 0x205F), (0x3000, 0x3000)]

def isBlank (c : Char) : Bool := blankRanges.contains c

/-- Blank, or a left-to-right or right-to-left mark. -/
def separatesTokens (c : Char) : Bool := isBlank c || c == '\u200e' || c == '\u200f'

def startsIdentifier (c : Char) : Bool :=
  if c.toNat < 128 then c.isAlpha || c == '_' else xidStart.contains c

def continuesIdentifier (c : Char) : Bool :=
  if c.toNat < 128 then c.isAlphanum || c == '_' else xidStart.contains c || xidContinueOnly.contains c

/-- A letter of any script. -/
def isAlphabetic (c : Char) : Bool := alphabeticRanges.contains c

/-- A letter or a number of any script. -/
def isAlphanumeric (c : Char) : Bool := isAlphabetic c || numericRanges.contains c

/-- Shown as itself inside quoted text. -/
def isPlain (c : Char) : Bool :=
  if c.toNat < 128 then 32 ≤ c.toNat && c.toNat < 127
  else !unprintable.contains c && !extendingMarks.contains c

def isHexDigit (c : Char) : Bool :=
  c.isDigit || ('a' ≤ c && c ≤ 'f') || ('A' ≤ c && c ≤ 'F')

def hexValue (c : Char) : Nat :=
  if c.isDigit then c.toNat - 48
  else if 'a' ≤ c && c ≤ 'f' then c.toNat - 87
  else c.toNat - 55

/-- The text without the blank characters at its ends. -/
def trimBlank (text : String) : String :=
  String.ofList (((text.toList.dropWhile isBlank).reverse.dropWhile isBlank).reverse)

theorem continuesIdentifier_of_starts {c : Char} (h : startsIdentifier c = true) :
    continuesIdentifier c = true := by
  unfold startsIdentifier at h
  unfold continuesIdentifier
  split <;> simp_all [Char.isAlphanum]
  cases h <;> simp_all

end BuilderSynthesis.Text
