import MarketMinutes.JsonLines
import MarketMinutes.Record
import MarketMinutes.Storage.FileTree

/-!
# Collections

The records of a collection lie in one file per kind, one JSON text per line.
Reading a collection stops at the first line that is not a record of the
file's kind.
-/

namespace MarketMinutes

/-- Why a line of a collection is no record of it. -/
inductive Corruption where
  | garbled
  | misfiled (found expected : Kind)
  deriving DecidableEq

inductive LoadError where
  | notText
  | unreadable
  | corrupt (path : String) (line : Nat) (corruption : Corruption)
  deriving DecidableEq

def Corruption.message : Corruption → String
  | garbled => "no record"
  | misfiled found expected => found.title ++ " record in " ++ expected.title ++ " collection"

def LoadError.message : LoadError → String
  | notText => "IO error: " ++ notTextMessage
  | unreadable => "IO error"
  | corrupt path line corruption =>
    "Corrupt record in " ++ path ++ " line " ++ toString line ++ ": " ++ corruption.message

namespace Collection

def path (directory collection : String) (kind : Kind) : String :=
  Path.join directory (collection ++ "_" ++ kind.title ++ "Minutes.jsonl")

/-- The records of lines counted from a number, all of one kind. -/
def readLines (path : String) (kind : Kind) (number : Nat) : List Bytes → Except LoadError (List Record)
  | [] => .ok []
  | line :: lines =>
    match LineContent.ofLine Record.parse? line with
    | .notText => .error .notText
    | .blank => readLines path kind (number + 1) lines
    | .garbled => .error (.corrupt path number .garbled)
    | .value r =>
      if r.kind = kind then (readLines path kind (number + 1) lines).map (r :: ·)
      else .error (.corrupt path number (.misfiled r.kind kind))

/-- The records of one kind; a file that is not there holds none. -/
def loadKind (t : FileTree) (directory collection : String) (kind : Kind) : Except LoadError (List Record) :=
  let path := path directory collection kind
  match t.lookup? path with
  | none => .ok []
  | some .directory => .error .unreadable
  | some (.file content) => readLines path kind 1 content.lines

/-- All records of a collection, kind after kind. -/
def load (t : FileTree) (directory collection : String) : Except LoadError (List Record) := do
  let records ← Kind.all.mapM (loadKind t directory collection)
  .ok records.flatten

end Collection
end MarketMinutes
