/-
  BuilderSynthesis.Text.Lines — texts as lines.

  A line ends at a line feed, and a carriage return right before it belongs to the break.
-/

namespace BuilderSynthesis.Text

/-- The parts of a text between line feeds. -/
def splitLines : List Char → List (List Char)
  | [] => [[]]
  | c :: rest =>
    if c == '\n' then [] :: splitLines rest
    else match splitLines rest with
      | line :: others => (c :: line) :: others
      | [] => [[c]]

def withoutReturn (line : List Char) : List Char :=
  if line.getLast? == some '\r' then line.dropLast else line

/-- The lines that show a text when it is printed. -/
def lines (text : String) : List String :=
  (splitLines text.toList).map fun line => String.ofList (withoutReturn line)

def firstLine (text : String) : String := (lines text).headD ""

end BuilderSynthesis.Text
