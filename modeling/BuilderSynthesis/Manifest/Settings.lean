/-
  BuilderSynthesis.Manifest.Settings — what a package manifest says.

  A manifest is a list of settings: values under keys, grouped by headers that give the first keys
  of the settings below them. Only what locates packages is told apart; any other value is read
  over.
-/

namespace BuilderSynthesis.Manifest

inductive Value where
  | text (text : String)
  | flag (value : Bool)
  | list (items : List Value)
  /-- Settings in braces. -/
  | table (entries : List (List String × Value))
  | other

def Value.text? : Value → Option String
  | text found => some found
  | _ => none

abbrev Settings := List (List String × Value)

namespace Settings

/-! ## Characters -/

def isGap (c : Char) : Bool := c == ' ' || c == '\t'

def isKeyCharacter (c : Char) : Bool := c.isAlphanum || c == '_' || c == '-'

def afterGap (cs : List Char) : List Char := cs.dropWhile isGap

def afterLine (cs : List Char) : List Char := cs.dropWhile (· != '\n')

/-- After blanks, line breaks and comments. -/
def afterSpace : Nat → List Char → List Char
  | 0, cs => cs
  | n + 1, cs =>
    match cs with
    | '#' :: rest => afterSpace n (afterLine rest)
    | c :: rest => if isGap c || c == '\n' || c == '\r' then afterSpace n rest else cs
    | [] => []

/-- Only a comment, if anything, stands on the rest of the line. -/
def endsLine (cs : List Char) : Bool :=
  match afterGap cs with
  | [] => true
  | c :: _ => c == '#' || c == '\n' || c == '\r'

/-! ## Texts and keys -/

/-- The character that an escape stands for. -/
def unescaped : Char → Option Char
  | 'n' => some '\n'
  | 't' => some '\t'
  | 'r' => some '\r'
  | '"' => some '"'
  | '\\' => some '\\'
  | _ => none

/-- What stands before the closing quote, with escapes resolved, and what comes after it. -/
def cooked : List Char → Option (List Char × List Char)
  | [] => none
  | '"' :: rest => some ([], rest)
  | '\n' :: _ => none
  | '\\' :: c :: rest => do
    let (inside, after) ← cooked rest
    pure ((← unescaped c) :: inside, after)
  | c :: rest => do
    let (inside, after) ← cooked rest
    pure (c :: inside, after)

/-- What stands before the closing apostrophe, as it is written, and what comes after it. -/
def plain (cs : List Char) : Option (List Char × List Char) :=
  let inside := cs.takeWhile fun c => c != '\'' && c != '\n'
  match cs.drop inside.length with
  | '\'' :: after => some (inside, after)
  | _ => none

/-- A text in either kind of quotes. -/
def quotedText : List Char → Option (String × List Char)
  | '"' :: rest => (cooked rest).map fun (inside, after) => (String.ofList inside, after)
  | '\'' :: rest => (plain rest).map fun (inside, after) => (String.ofList inside, after)
  | _ => none

def simpleKey (cs : List Char) : Option (String × List Char) :=
  let bare := cs.takeWhile isKeyCharacter
  if bare.isEmpty then quotedText cs else some (String.ofList bare, cs.drop bare.length)

/-- Keys with dots between them. -/
def keys : Nat → List Char → Option (List String × List Char)
  | 0, _ => none
  | n + 1, cs => do
    let (first, after) ← simpleKey (afterGap cs)
    match afterGap after with
    | '.' :: rest =>
      let (others, after) ← keys n rest
      pure (first :: others, after)
    | rest => pure ([first], rest)

/-! ## Values -/

/-- A word that is no text: a number, a date, or a truth value. -/
def bareValue (cs : List Char) : Option (Value × List Char) :=
  let word := cs.takeWhile fun c => !(isGap c || [',', ']', '\x7d', '#', '\n', '\r'].contains c)
  let after := cs.drop word.length
  if word.isEmpty then none
  else if String.ofList word == "true" then some (.flag true, after)
  else if String.ofList word == "false" then some (.flag false, after)
  else some (.other, after)

mutual

def value : Nat → List Char → Option (Value × List Char)
  | 0, _ => none
  | n + 1, cs =>
    match cs with
    | '[' :: rest => items n (afterSpace n rest)
    | '\x7b' :: rest => entries n (afterSpace n rest)
    | '"' :: _ | '\'' :: _ => (quotedText cs).map fun (text, after) => (.text text, after)
    | _ => bareValue cs

/-- The rest of a list. -/
def items : Nat → List Char → Option (Value × List Char)
  | 0, _ => none
  | n + 1, cs =>
    match cs with
    | ']' :: rest => some (.list [], rest)
    | _ => do
      let (first, after) ← value n cs
      match afterSpace n after with
      | ',' :: rest =>
        match ← items n (afterSpace n rest) with
        | (.list others, after) => pure (.list (first :: others), after)
        | _ => none
      | ']' :: rest => pure (.list [first], rest)
      | _ => none

/-- The rest of a table. -/
def entries : Nat → List Char → Option (Value × List Char)
  | 0, _ => none
  | n + 1, cs =>
    match cs with
    | '\x7d' :: rest => some (.table [], rest)
    | _ => do
      let (first, after) ← entry n cs
      match afterSpace n after with
      | ',' :: rest =>
        match ← entries n (afterSpace n rest) with
        | (.table others, after) => pure (.table (first :: others), after)
        | _ => none
      | '\x7d' :: rest => pure (.table [first], rest)
      | _ => none

/-- Keys and their value. -/
def entry : Nat → List Char → Option ((List String × Value) × List Char)
  | 0, _ => none
  | n + 1, cs => do
    let (path, after) ← keys n cs
    match after with
    | '=' :: rest =>
      let (found, after) ← value n (afterGap rest)
      pure ((path, found), after)
    | _ => none

end

/-! ## Whole manifests -/

/-- The keys of a header, which may be the header of one of several like groups. -/
def header (n : Nat) (cs : List Char) : Option (List String × List Char) := do
  let (open_, many) := match cs with
    | '[' :: rest => (rest, true)
    | _ => (cs, false)
  let (path, after) ← keys n open_
  match many, after with
  | true, ']' :: ']' :: rest => pure (path, rest)
  | false, ']' :: rest => pure (path, rest)
  | _, _ => none

/-- The settings from here on, below the keys of the last header. -/
def below : Nat → List String → List Char → Option Settings
  | 0, _, _ => none
  | n + 1, group, cs =>
    match afterSpace n cs with
    | [] => some []
    | '[' :: rest => do
      let (path, after) ← header n rest
      if endsLine after then
        let others ← below n path after
        pure ((path, .table []) :: others)
      else none
    | rest => do
      let ((path, found), after) ← entry n rest
      if endsLine after then
        let others ← below n group after
        pure ((group ++ path, found) :: others)
      else none

/-- The settings of a manifest, or nothing if it is none. -/
def ofText? (text : String) : Option Settings := below (2 * text.length + 2) [] text.toList

/-! ## Looking up -/

mutual

/-- The value under a path in a value. -/
def Value.under? : Value → List String → Option Value
  | found, [] => some found
  | .table inner, path => underAny? inner path
  | _, _ :: _ => none

def underAny? : List (List String × Value) → List String → Option Value
  | [], _ => none
  | (key, found) :: rest, path =>
    match (if key.isPrefixOf path then Value.under? found (path.drop key.length) else none) with
    | some result => some result
    | none => underAny? rest path

end

/-- The value under a path of keys. -/
def get? (settings : Settings) (path : List String) : Option Value := underAny? settings path

def text? (settings : Settings) (path : List String) : Option String := (settings.get? path).bind Value.text?

/-- The texts in the list under a path. -/
def texts (settings : Settings) (path : List String) : List String :=
  match settings.get? path with
  | some (.list items) => items.filterMap Value.text?
  | _ => []

def isSet (settings : Settings) (path : List String) : Bool :=
  match settings.get? path with
  | some (.flag true) => true
  | _ => false

/-- Something is said under a path, be it only by a header. -/
def mentions (settings : Settings) (path : List String) : Bool :=
  settings.any fun (key, _) => path.isPrefixOf key

/-- The keys right below a path, each once. -/
def keysBelow (settings : Settings) (path : List String) : List String :=
  (settings.flatMap fun (key, found) =>
    if path.isPrefixOf key then
      match key.drop path.length, found with
      | name :: _, _ => [name]
      | [], .table inner => inner.filterMap fun (sub, _) => sub.head?
      | [], _ => []
    else []).eraseDups

end Settings

end BuilderSynthesis.Manifest
