import MarketMinutes.Storage.Path
import MarketMinutes.Text.Lines

/-!
# Files and directories

A tree of named files below a root, with a directory in which relative paths
start. A path is walked name by name; every name but the last must be a
directory on the way.
-/

namespace MarketMinutes

/-- The names from the root down. -/
abbrev Location := List String

structure FileTree where
  directories : List Location
  files : List (Location × Bytes)
  here : Location
  deriving DecidableEq

namespace FileTree

inductive Entry where
  | directory
  | file (content : Bytes)

def isDirectory (t : FileTree) (place : Location) : Bool :=
  place.isEmpty || t.directories.contains place

def content? (t : FileTree) (place : Location) : Option Bytes :=
  (t.files.find? (·.1 == place)).map (·.2)

def entry? (t : FileTree) (place : Location) : Option Entry :=
  if t.isDirectory place then some .directory else (t.content? place).map .file

/-! ## Walking -/

/-- Where a name leads from a directory. -/
def enter (base : Location) (name : String) : Location :=
  if name = "" ∨ name = "." then base
  else if name = ".." then base.dropLast
  else base ++ [name]

/-- Where a name that is not too long leads from a directory. -/
def step (base : Location) (name : String) : Except PathError Location :=
  if Path.nameLimit < name.utf8ByteSize then .error .refused else .ok (enter base name)

/-- Where names lead from a directory; the last may be new. -/
def walk (t : FileTree) (base : Location) : List String → Except PathError Location
  | [] => .ok base
  | [name] => step base name
  | name :: names =>
    match step base name with
    | .error e => .error e
    | .ok place =>
      match t.entry? place with
      | some .directory => t.walk place names
      | some (.file _) => .error .refused
      | none => .error .missing

/-- Where a path starts: at the root after a slash, else here. -/
def origin (t : FileTree) (path : String) : Location :=
  if Path.isAbsolute path then [] else t.here

def locate (t : FileTree) (path : String) : Except PathError Location :=
  match Path.fault? path with
  | some e => .error e
  | none => t.walk (t.origin path) (Path.names path)

/-- Where a path leads, if something is there. -/
def find? (t : FileTree) (path : String) : Option Location :=
  match t.locate path with
  | .error _ => none
  | .ok place => if (t.entry? place).isSome then some place else none

def lookup? (t : FileTree) (path : String) : Option Entry :=
  (t.find? path).bind t.entry?

/-- Where a file can be opened for writing: anywhere but in a directory's place. -/
def writable (t : FileTree) (path : String) : Except PathError Location :=
  match t.locate path with
  | .error e => .error e
  | .ok place => if t.isDirectory place then .error .refused else .ok place

/-! ## Files -/

/-- The tree with a file in place, whatever was in it. -/
def put (t : FileTree) (place : Location) (content : Bytes) : FileTree :=
  if t.files.any (·.1 == place) then
    { t with files := t.files.map fun f => if f.1 == place then (place, content) else f }
  else { t with files := t.files ++ [(place, content)] }

def remove (t : FileTree) (place : Location) : FileTree :=
  { t with files := t.files.filter (·.1 != place) }

/-! ## Directories -/

/-- The tree with a directory where names lead. One that is there will do; a file in its place will not. -/
def makeDirectory (t : FileTree) (base : Location) (names : List String) : Except PathError FileTree :=
  match t.walk base names with
  | .error e => .error e
  | .ok place =>
    match t.entry? place with
    | some .directory => .ok t
    | some (.file _) => .error .refused
    | none => .ok { t with directories := t.directories ++ [place] }

/-- Make the first of some directories. If the way to it is missing, the next is made first, as one above it.
What has been made before a failure stays. -/
def makeFirst (t : FileTree) (base : Location) : List (List String) → FileTree × Except PathError Unit
  | [] => (t, .ok ())
  | names :: above =>
    match t.makeDirectory base names with
    | .ok t => (t, .ok ())
    | .error .missing =>
      match t.makeFirst base above with
      | (t, .error e) => (t, .error e)
      | (t, .ok ()) =>
        match t.makeDirectory base names with
        | .ok t => (t, .ok ())
        | .error e => (t, .error e)
    | .error e => (t, .error e)

/-- Make the directory at a path, and those above it. An empty path asks for none. Before a `.` at the end of
a path the directory must be there already, since it is not above that path. -/
def makeDirectories (t : FileTree) (path : String) : FileTree × Except PathError Unit :=
  if path = "" then (t, .ok ())
  else
    match Path.fault? path with
    | some e => (t, .error e)
    | none => t.makeFirst (t.origin path) (Path.ancestors path)

/-! ## Trees of relative paths -/

/-- A tree of files under relative paths, with the directories they are in. -/
def ofFiles (here : Location) (files : List (String × Bytes)) : FileTree :=
  let start : FileTree :=
    ⟨(List.range here.length).map fun n => here.take (n + 1), [], here⟩
  files.foldl
    (fun t (path, content) =>
      let place := (Path.names path).foldl enter here
      let parents := (List.range place.length).map place.take
      let t := { t with directories := t.directories ++ parents.filter (!t.isDirectory ·) }
      t.put place content)
    start

/-- The files below the directory where relative paths start, by their relative paths. -/
def filesHere (t : FileTree) : List (String × Bytes) :=
  t.files.filterMap fun (place, content) =>
    if t.here.isPrefixOf place then some ("/".intercalate (place.drop t.here.length), content) else none

end FileTree
end MarketMinutes
