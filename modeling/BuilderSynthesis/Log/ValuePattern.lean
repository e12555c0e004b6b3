/-
  BuilderSynthesis.Log.ValuePattern — which texts are patterns for the value of a field.

  A rule of a filter may ask for the value of a field by a regular expression. No event here has
  such a field, so a pattern is never matched, but a filter with a faulty one is not used at all.
  A pattern is faulty where its parts do not fit together, and where it asks for more than the
  plain tables of characters can tell: classes that span all scripts, letters in both cases, and
  the ends of words, unless it is told to match bytes. A curly bracket never closes here, as it
  would end the rule.
-/

import BuilderSynthesis.Text.Character

namespace BuilderSynthesis.ValuePattern

/-- How the parts of a pattern are read. -/
structure Flags where
  /-- Blanks and comments between the parts are left out. -/
  spaced : Bool
  /-- A letter stands for both its cases. -/
  caseless : Bool
  /-- Parts match characters and not bytes. -/
  characters : Bool

/-! ## Blanks -/

/-- Without the blanks and comments at the start. -/
def withoutBlanks (inComment : Bool) : List Char → List Char
  | [] => []
  | c :: rest =>
    if inComment then withoutBlanks (c != '\n') rest
    else if c == '#' then withoutBlanks true rest
    else if Text.isBlank c then withoutBlanks false rest
    else c :: rest

def Flags.skip (flags : Flags) (cs : List Char) : List Char :=
  if flags.spaced then withoutBlanks false cs else cs

/-- What follows, where something has to. -/
def Flags.goOn (flags : Flags) (cs : List Char) : Option (List Char) :=
  match flags.skip cs with
  | [] => none
  | next => some next

/-! ## Escapes -/

inductive Part where
  | character (c : Char)
  | letterClass (negated : Bool)
  | wordEnd
  | textEnd

/-- The part can be matched by these flags. -/
def Part.isAllowed (flags : Flags) : Part → Bool
  | character _ => !(flags.caseless && flags.characters)
  | letterClass negated => !flags.characters && !negated
  | wordEnd => !flags.characters
  | textEnd => true

/-- A character by the digits of its number, of which some have been read. -/
def byNumber (flags : Flags) : Nat → Nat → List Char → Option (Part × List Char)
  | 0, _, _ => none
  | n + 1, value, cs =>
    match cs with
    | [] => none
    | c :: rest =>
      if !Text.isHexDigit c then none
      else
        let value := 16 * value + Text.hexValue c
        if n == 0 then
          if value.isValidChar then some (.character (Char.ofNat value), flags.skip rest) else none
        else (flags.goOn rest).bind (byNumber flags n value)

def controls : List (Char × Nat) :=
  [('a', 0x7), ('f', 0xC), ('t', 0x9), ('n', 0xA), ('r', 0xD), ('v', 0xB)]

def numberLengths : List (Char × Nat) := [('x', 2), ('u', 4), ('U', 8)]

/-- The part after a backslash, and what follows it. -/
def escaped (flags : Flags) : List Char → Option (Part × List Char)
  | [] => none
  | c :: rest =>
    match numberLengths.lookup c with
    | some digits => (flags.goOn rest).bind (byNumber flags digits 0)
    | none =>
      match controls.lookup c with
      | some code => some (.character (Char.ofNat code), rest)
      | none =>
        if ['d', 's', 'w'].contains c then some (.letterClass false, rest)
        else if ['D', 'S', 'W'].contains c then some (.letterClass true, rest)
        else if ['b', 'B', '<', '>'].contains c then some (.wordEnd, rest)
        else if ['A', 'z'].contains c then some (.textEnd, rest)
        else if c.toNat < 128 && !c.isAlphanum then some (.character c, rest)
        else none

/-! ## Bracketed classes -/

def namedClasses : List String :=
  ["alnum", "alpha", "ascii", "blank", "cntrl", "digit", "graph", "lower", "print", "punct", "space", "upper",
   "word", "xdigit"]

/-- After a class that is called by its name, whose bracket has been read. -/
def afterNamedClass : List Char → Option (List Char)
  | ':' :: cs =>
    let cs := match cs with
      | '^' :: rest => rest
      | _ => cs
    let name := cs.takeWhile (· != ':')
    match cs.drop name.length with
    | ':' :: ']' :: rest => if namedClasses.contains (String.ofList name) then some rest else none
    | _ => none
  | _ => none

/-- Hyphens and then a closing bracket stand for themselves where a class begins. -/
def afterHyphens (flags : Flags) : Nat → Bool → List Char → Option (List Char)
  | n + 1, _, '-' :: rest => (flags.goOn rest).bind (afterHyphens flags n true)
  | _, false, ']' :: rest => flags.goOn rest
  | _, _, cs => some cs

/-- What comes first in a class whose bracket has been read. -/
def classStart (flags : Flags) (cs : List Char) : Option (List Char) := do
  let cs ← flags.goOn cs
  let cs ← (match cs with
    | '^' :: rest => if flags.characters then flags.goOn rest else none
    | _ => some cs)
  afterHyphens flags cs.length false cs

def classPart (flags : Flags) : List Char → Option (Part × List Char)
  | [] => none
  | '\\' :: rest => escaped flags rest
  | c :: rest => some (.character c, rest)

/-- After a part of a class or a range between two characters. -/
def afterClassItem (flags : Flags) (cs : List Char) : Option (List Char) := do
  let (first, rest) ← classPart flags cs
  let rest ← flags.goOn rest
  let isRange := match rest with
    | '-' :: after =>
      match flags.skip after with
      | ']' :: _ | '-' :: _ => false
      | _ => true
    | _ => false
  if isRange then
    let (last, rest) ← classPart flags (← flags.goOn (rest.drop 1))
    match first, last with
    | .character a, .character b => if a ≤ b && first.isAllowed flags then some rest else none
    | _, _ => none
  else
    match first with
    | .character _ | .letterClass _ => if first.isAllowed flags then some rest else none
    | _ => none

/-- After the classes that are open. -/
def afterClass (flags : Flags) : Nat → Nat → List Char → Option (List Char)
  | 0, _, _ => none
  | n + 1, depth, cs =>
    match flags.skip cs with
    | [] => none
    | '[' :: rest =>
      match afterNamedClass rest with
      | some rest => if flags.caseless then none else afterClass flags n depth rest
      | none => (classStart flags rest).bind (afterClass flags n (depth + 1))
    | ']' :: rest => if depth == 0 then some rest else afterClass flags n (depth - 1) rest
    | '&' :: '&' :: rest | '-' :: '-' :: rest | '~' :: '~' :: rest => afterClass flags n depth rest
    | next => (afterClassItem flags next).bind (afterClass flags n depth)

/-! ## Groups -/

/-- The flags after the letters that switch them on and, after a hyphen, off. -/
def Flags.switched (flags : Flags) (on : Bool) : List Char → Flags
  | [] => flags
  | '-' :: rest => flags.switched false rest
  | 'x' :: rest => { flags with spaced := on }.switched on rest
  | 'i' :: rest => { flags with caseless := on }.switched on rest
  | 'u' :: rest => { flags with characters := on }.switched on rest
  | _ :: rest => flags.switched on rest

/-- What a round bracket opens: a group, which may have a name, or flags for the rest of the one
around it. -/
inductive Opening where
  | group (flags : Flags) (name : List Char)
  | switch (flags : Flags)

def isGroupName (name : List Char) : Bool :=
  match name with
  | [] => false
  | c :: rest =>
    (c == '_' || Text.isAlphabetic c) &&
      rest.all fun c => ['_', '.', '[', ']'].contains c || Text.isAlphanumeric c

def namedGroup (flags : Flags) (cs : List Char) : Option (Opening × List Char) :=
  let name := cs.takeWhile (· != '>')
  match cs.drop name.length with
  | _ :: rest => if isGroupName name then some (.group flags name, rest) else none
  | [] => none

/-- Letters for flags up to a colon or the end of the bracket. -/
def flaggedGroup (flags : Flags) (cs : List Char) : Option (Opening × List Char) :=
  let letters := cs.takeWhile fun c => c != ':' && c != ')'
  if !letters.all "imsUuRx-".toList.contains || letters.getLast? == some '-' ||
      letters.eraseDups.length != letters.length then none
  else
    let switched := flags.switched true letters
    match cs.drop letters.length with
    | ':' :: rest => some (.group switched [], rest)
    | ')' :: rest => if letters.isEmpty then none else some (.switch switched, rest)
    | _ => none

/-- What stands after a round bracket. Nothing may be looked at ahead or behind. -/
def opening (flags : Flags) (cs : List Char) : Option (Opening × List Char) :=
  match flags.skip cs with
  | '?' :: '=' :: _ | '?' :: '!' :: _ | '?' :: '<' :: '=' :: _ | '?' :: '<' :: '!' :: _ => none
  | '?' :: 'P' :: '<' :: rest | '?' :: '<' :: rest => namedGroup flags rest
  | '?' :: rest => flaggedGroup flags rest
  | rest => some (.group flags [], rest)

/-! ## Whole patterns -/

structure Progress where
  flags : Flags
  /-- Something stands before that can be repeated. -/
  repeatable : Bool
  /-- The flags around each group that is open, the innermost first. -/
  around : List Flags
  names : List (List Char)

/-- After a bracket has been opened; no two groups have one name. -/
def Progress.opened (p : Progress) : Opening → Option Progress
  | .switch flags => some { p with flags, repeatable := false }
  | .group flags name =>
    if !name.isEmpty && p.names.contains name then none
    else some { flags, repeatable := false, around := p.flags :: p.around, names := name :: p.names }

def accepts : Nat → Progress → List Char → Bool
  | 0, _, _ => false
  | n + 1, p, cs =>
    let part (allowed : Bool) (rest : List Char) : Bool := allowed && accepts n { p with repeatable := true } rest
    match p.flags.skip cs with
    | [] => p.around.isEmpty
    | '(' :: rest =>
      match opening p.flags rest with
      | some (opened, rest) =>
        match p.opened opened with
        | some next => accepts n next rest
        | none => false
      | none => false
    | ')' :: rest =>
      match p.around with
      | flags :: around => accepts n { p with flags, around, repeatable := true } rest
      | [] => false
    | '|' :: rest => accepts n { p with repeatable := false } rest
    | '[' :: rest =>
      match (classStart p.flags rest).bind (afterClass p.flags rest.length 0) with
      | some rest => part true rest
      | none => false
    | '?' :: rest | '*' :: rest | '+' :: rest =>
      match rest with
      | '?' :: rest => p.repeatable && accepts n p rest
      | _ => p.repeatable && accepts n p rest
    | '{' :: _ => false
    | '\\' :: rest =>
      match escaped p.flags rest with
      | some (found, rest) => part (found.isAllowed p.flags) rest
      | none => false
    | '.' :: rest => part p.flags.characters rest
    | '^' :: rest | '$' :: rest => part true rest
    | c :: rest => part ((Part.character c).isAllowed p.flags) rest

/-- The text is a pattern. -/
def isPattern (cs : List Char) : Bool :=
  accepts (cs.length + 1) ⟨⟨false, false, true⟩, false, [], []⟩ cs

/-! ## Values -/

/-- A number without its sign: digits with a point among them and an exponent, or a word for one
that has no digits. -/
def isUnsigned (cs : List Char) : Bool :=
  ["inf", "infinity", "nan"].contains (String.ofList cs).toLower ||
    (let afterDigits := cs.dropWhile Char.isDigit
     let fraction := match afterDigits with
      | '.' :: rest => rest
      | _ => []
     let rest := if afterDigits.head? == some '.' then fraction.dropWhile Char.isDigit else afterDigits
     (cs.head?.any Char.isDigit || fraction.head?.any Char.isDigit) && isExponent rest)
where
  isExponent : List Char → Bool
    | [] => true
    | e :: rest =>
      let digits := match rest with
        | '+' :: digits | '-' :: digits => digits
        | _ => rest
      (e == 'e' || e == 'E') && !digits.isEmpty && digits.all Char.isDigit

/-- What a field's value may be compared with: a number, or a pattern. Numbers are patterns too,
except those with a plus sign. -/
def isValue (cs : List Char) : Bool :=
  isPattern cs || match cs with
    | '+' :: rest => isUnsigned rest
    | _ => false

end BuilderSynthesis.ValuePattern
