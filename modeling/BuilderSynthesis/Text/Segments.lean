/-
  BuilderSynthesis.Text.Segments — the parts of a path between its separators.
-/

namespace BuilderSynthesis.Text

/-- The parts of a text between pairs of colons, read from the left. -/
def splitSegments : List Char → List (List Char)
  | ':' :: ':' :: rest => [] :: splitSegments rest
  | c :: rest =>
    match splitSegments rest with
    | part :: parts => (c :: part) :: parts
    | [] => [[c]]
  | [] => [[]]

/-- The parts of a path, first to last. -/
def segments (path : String) : List String := (splitSegments path.toList).map String.ofList

/-- The parts of a path, last to first. Read from the right, so that of three colons the last two
separate. -/
def segmentsFromEnd (path : String) : List String :=
  (splitSegments path.toList.reverse).map fun part => String.ofList part.reverse

def lastSegment (path : String) : String := (segmentsFromEnd path).headD path

/-- Without the separators at the start. -/
def withoutLeadingSeparators (path : String) : String := String.ofList (go path.toList)
where
  go : List Char → List Char
    | ':' :: ':' :: rest => go rest
    | rest => rest

/-- Whether a text starts with another, and what comes after it. -/
def afterStart? (start text : String) : Option String :=
  if start.toList.isPrefixOf text.toList then some (String.ofList (text.toList.drop start.toList.length)) else none

end BuilderSynthesis.Text
