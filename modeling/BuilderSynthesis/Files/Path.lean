/-
  BuilderSynthesis.Files.Path — paths of files, as text.

  A path is shown as it was given. To be compared it is taken apart into components, where doubled
  separators and inner dots do not count; a dot at the very start does.
-/

namespace BuilderSynthesis

inductive PathComponent where
  | root
  | current
  | parent
  | name (name : String)
  deriving DecidableEq, Repr

namespace PathComponent

def text : PathComponent → String
  | .root => "/"
  | .current => "."
  | .parent => ".."
  | .name shown => shown

def rank : PathComponent → Nat
  | .root => 0
  | .current => 1
  | .parent => 2
  | .name _ => 3

/-- Not too long for a file system. -/
def isShort : PathComponent → Bool
  | .name shown => shown.utf8ByteSize ≤ 255
  | _ => true

/-- The order of components: the special ones first, then names by their characters. -/
def le (a b : PathComponent) : Bool :=
  match a, b with
  | .name a, .name b => decide (a ≤ b)
  | a, b => decide (a.rank ≤ b.rank)

end PathComponent

namespace FilePath

/-- The parts of a text between slashes. -/
def splitSlashes : List Char → List (List Char)
  | [] => [[]]
  | c :: rest =>
    if c == '/' then [] :: splitSlashes rest
    else match splitSlashes rest with
      | part :: parts => (c :: part) :: parts
      | [] => [[c]]

/-- A file system takes the path: it is not too long as it is written, and has no NUL. -/
def isUsable (path : String) : Bool := path.utf8ByteSize ≤ 4095 && !path.toList.contains '\x00'

def isAbsolute (path : String) : Bool := path.toList.head? == some '/'

def ofPart (part : List Char) : Option PathComponent :=
  if part == [] || part == ['.'] then none
  else if part == ['.', '.'] then some .parent
  else some (.name (String.ofList part))

/-- A name that something in a directory can have: one part of a path that is no step, and not too
long. -/
def isName (name : String) : Bool :=
  !name.toList.contains '/' && ofPart name.toList == some (.name name) && (PathComponent.name name).isShort

def components (path : String) : List PathComponent :=
  let parts := splitSlashes path.toList
  let inner := parts.filterMap ofPart
  if isAbsolute path then .root :: inner
  else if parts.head? == some ['.'] then .current :: inner
  else inner

/-- The same components, whatever the spelling. -/
def same (a b : String) : Bool := components a == components b

def leComponents : List PathComponent → List PathComponent → Bool
  | [], _ => true
  | _ :: _, [] => false
  | a :: as, b :: bs => if a == b then leComponents as bs else a.le b

/-- The order of paths, component by component. -/
def le (a b : String) : Bool := leComponents (components a) (components b)

/-- A path below a directory. An absolute path stays as it is. -/
def join (directory path : String) : String :=
  if isAbsolute path then path
  else if directory == "" || directory.toList.getLast? == some '/' then directory ++ path
  else directory ++ "/" ++ path

/-- A path below a directory, from the names that lead there. -/
def joinAll (directory : String) (names : List String) : String :=
  if names.isEmpty then directory else join directory ("/".intercalate names)

/-- The last component, if it is a name. -/
def fileName? (path : String) : Option String :=
  match (components path).getLast? with
  | some (.name name) => some name
  | _ => none

/-- A name without what follows its last dot, and that. A name whose only dot comes first has no
extension. -/
def splitExtension (name : String) : String × Option String :=
  let afterDot := name.toList.reverse.takeWhile (· != '.')
  let stem := name.toList.take (name.length - afterDot.length - 1)
  if afterDot.length == name.length || stem.isEmpty then (name, none)
  else (String.ofList stem, some (String.ofList afterDot.reverse))

/-- A name without its extension. What is left of a name of two dots and an extension is no name but
the step up. -/
def withoutExtension (name : String) : String :=
  match splitExtension name with
  | (".", some _) => PathComponent.parent.text
  | (stem, _) => stem

def extension? (path : String) : Option String := (fileName? path).bind fun name => (splitExtension name).2

def isSource (path : String) : Bool := extension? path == some "rs"

/-- The components of the directory around a path, if it has one. -/
def parent? (path : String) : Option String :=
  match (components path).reverse with
  | [] | .root :: _ => none
  | _ :: before =>
    match before.reverse with
    | .root :: rest => some ("/" ++ "/".intercalate (rest.map PathComponent.text))
    | parts => some ("/".intercalate (parts.map PathComponent.text))

/-- The components of a path below a directory. -/
def below? (directory path : String) : Option (List PathComponent) :=
  let outer := components directory
  let inner := components path
  if outer.isPrefixOf inner then some (inner.drop outer.length) else none

end FilePath

end BuilderSynthesis
