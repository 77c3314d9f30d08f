/-!
# Paths

A path is the names it leads through, with slashes between them; one that
begins with a slash starts at the root. `.` stays where it is and `..` leads
one directory up.
-/

namespace MarketMinutes

/-- Why a path leads nowhere, or to nothing that will do. -/
inductive PathError where
  | nul
  | missing
  | refused
  deriving DecidableEq

def PathError.message : PathError → String
  | nul => "IO error: file name contained an unexpected NUL byte"
  | missing => "IO error"
  | refused => "IO error"

namespace Path

/-! ## Names -/

/-- The parts between the slashes. -/
def split : List Char → List (List Char)
  | [] => [[]]
  | c :: cs =>
    if c = '/' then [] :: split cs
    else
      match split cs with
      | [] => [[c]]
      | part :: parts => (c :: part) :: parts

/-- The names of a path; a doubled, leading or final slash makes an empty one. -/
def names (path : String) : List String :=
  (split path.toList).map String.ofList

def isAbsolute (path : String) : Bool :=
  path.toList.head? == some '/'

/-- A path extended by another, which replaces it if it starts at the root. -/
def join (path next : String) : String :=
  if isAbsolute next then next
  else if path = "" ∨ path.toList.getLast? = some '/' then path ++ next
  else path ++ "/" ++ next

/-! ## Paths that can be walked -/

def nameLimit : Nat := 255

def pathLimit : Nat := 4095

/-- What is wrong with a path, wherever it leads. A NUL is found before anything else. -/
def fault? (path : String) : Option PathError :=
  if path.toList.contains '\x00' then some .nul
  else if path = "" then some .missing
  else if pathLimit < path.utf8ByteSize then some .refused
  else none

/-! ## The directories above -/

/-- The names of a path but the empty ones. -/
def steps (path : String) : List String :=
  (names path).filter (· ≠ "")

/-- The paths above one that is given from its last name to its first, the nearest first. A `.` is no name
of its own: the path above `a/b/.` is `a`. -/
def above : List String → List (List String)
  | [] => []
  | name :: rest =>
    if name = "." then above rest
    else
      match rest.dropWhile (· = ".") with
      | [] => []
      | up => up.reverse :: above rest

/-- A path and those above it, the nearest first, each by its names. -/
def ancestors (path : String) : List (List String) :=
  steps path :: above (steps path).reverse

end Path
end MarketMinutes
