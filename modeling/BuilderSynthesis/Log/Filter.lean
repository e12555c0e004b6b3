/-
  BuilderSynthesis.Log.Filter — which events are logged.

  A filter is a list of rules with commas between them. A rule is a level, or the beginning of the
  names of some parts of the library with a level or without one. Brackets after the name restrict
  a rule to events with certain fields. Of the rules for an event the one with the longest name
  decides, then the one with more fields, then the later; an event that no rule is for is dropped.
-/

import BuilderSynthesis.Log.Event
import BuilderSynthesis.Log.ValuePattern

namespace BuilderSynthesis

/-- The most verbose level that is told about some parts of the library, if anything is. -/
structure FilterRule where
  target : String
  /-- The fields that an event must have. -/
  fields : List String
  level : Option Level
  deriving DecidableEq, Repr

namespace FilterRule

/-- The rule is for the events of a part. The only field of an event is its message. -/
def isFor (r : FilterRule) (target : String) : Bool :=
  r.target.toList.isPrefixOf target.toList && r.fields.all (· == "message")

/-- The rule is for fewer events than another. -/
def isNarrower (r other : FilterRule) : Bool :=
  other.target.length < r.target.length ||
    (r.target.length == other.target.length && other.fields.length < r.fields.length)

end FilterRule

structure LogFilter where
  rules : List FilterRule
  deriving Repr

namespace LogFilter

/-! ## Reading -/

def namedLevels : List (String × Option Level) :=
  [("error", some .error), ("warn", some .warn), ("info", some .info), ("debug", some .debug),
   ("trace", some .trace), ("off", none)]

def numberedLevels : List (Option Level) :=
  [none, some .error, some .warn, some .info, some .debug, some .trace]

/-- A number, which may have a plus sign. -/
def number? (text : String) : Option Nat :=
  let digits := match text.toList with
    | '+' :: rest => rest
    | cs => cs
  if digits.isEmpty || !digits.all Char.isDigit then none
  else some (digits.foldl (fun n c => 10 * n + (c.toNat - 48)) 0)

/-- A level by its name in any case, or by its number. -/
def level? (text : String) : Option (Option Level) :=
  match number? text with
  | some n => numberedLevels[n]?
  | none => namedLevels.lookup text.toLower

/-- What stands after an equals sign; nothing stands for everything. -/
def givenLevel? (text : String) : Option (Option Level) :=
  if text == "" then some (some .trace) else level? text

def startsRule (c : Char) : Bool :=
  Text.isAlphanumeric c || ['-', ':', '_'].contains c

/-- The value that a field must have, if one is asked for. What follows a second equals sign is
not looked at. -/
def value? (field : List Char) : Option (List Char) :=
  match field.dropWhile (· != '=') with
  | [] => none
  | _ :: value => some (value.takeWhile (· != '='))

/-- What stands in brackets: the fields that an event must have, or nothing at all for what no
event here answers to, a span or the value of a field. With it what stands after the brackets. -/
def bracketed? (afterBracket : List Char) : Option (Option (List String) × List Char) :=
  let name := afterBracket.takeWhile fun c => c != ']' && c != '{'
  match afterBracket.drop name.length with
  | ']' :: rest => some (none, rest)
  | '{' :: inner =>
    let field := inner.takeWhile (· != '}')
    match inner.drop field.length with
    | '}' :: ']' :: rest =>
      if field.isEmpty || !(value? field).all ValuePattern.isValue then none
      else if name.isEmpty && !field.contains '=' then some (some [String.ofList field], rest)
      else some (none, rest)
    | _ => none
  | _ => none

/-- One rule: nothing if it is out of order, no rule at all if it is for no event here. A rule is
read without the blanks around it; where a part begins and ends is counted in what was read, but
the part is taken from the text with the blanks. -/
def rule? (text : String) : Option (Option FilterRule) :=
  let read := (Text.trimBlank text).toList
  let name := read.takeWhile fun c => c != '=' && c != '['
  let target := String.ofList (text.toList.take name.length)
  let levelAt (rest : List Char) := givenLevel? (String.ofList (text.toList.drop (read.length - rest.length)))
  match read.drop name.length with
  | [] =>
    if name.head?.any startsRule then
      match level? text with
      | some level => some (some ⟨"", [], level⟩)
      | none => some (some ⟨text, [], some .trace⟩)
    else none
  | '[' :: rest =>
    if name.isEmpty || name.head?.any startsRule then
      match bracketed? rest with
      | some (fields, []) => some (fields.map (⟨target, ·, some .trace⟩))
      | some (fields, '=' :: level) => (levelAt level).map fun level => fields.map (⟨target, ·, level⟩)
      | _ => none
    else none
  | _ :: level =>
    if name.head?.any startsRule then (levelAt level).map fun level => some ⟨target, [], level⟩ else none

def splitCommas : List Char → List (List Char)
  | [] => [[]]
  | c :: rest =>
    if c == ',' then [] :: splitCommas rest
    else match splitCommas rest with
      | part :: parts => (c :: part) :: parts
      | [] => [[c]]

/-- Only errors. -/
def errorsOnly : LogFilter := ⟨[⟨"", [], some .error⟩]⟩

def warnings : LogFilter := ⟨[⟨"", [], some .warn⟩]⟩

def ofText? (text : String) : Option LogFilter :=
  let parts := ((splitCommas text.toList).filter (!·.isEmpty)).map String.ofList
  if parts.isEmpty then some errorsOnly
  else (parts.mapM rule?).map fun rules => ⟨rules.filterMap id⟩

/-- The filter that a variable gives; without it, or if it is out of order, warnings are told. -/
def ofVariable (value : Option String) : LogFilter := (value.bind ofText?).getD warnings

/-! ## Filtering -/

/-- The last of the narrowest rules. -/
def narrowest : List FilterRule → Option FilterRule
  | [] => none
  | r :: rest =>
    match narrowest rest with
    | none => some r
    | some found => if r.isNarrower found then some r else some found

def admits (f : LogFilter) (e : Event) : Bool :=
  match narrowest (f.rules.filter (·.isFor e.origin.target)) with
  | some ⟨_, _, some level⟩ => e.level.verbosity ≤ level.verbosity
  | _ => false

def logged (f : LogFilter) (events : List Event) : List Event := events.filter f.admits

end LogFilter

end BuilderSynthesis
