import MarketMinutes.Storage.Store

/-!
# Working on a collection

A file tree, one collection in it, and the store that is open on it, if one
is. Files may be replaced or removed behind the back of an open store.
-/

namespace MarketMinutes

structure Session where
  tree : FileTree
  directory : String
  collection : String
  store : Option Store

namespace Session

def path (s : Session) (kind : Kind) : String :=
  Collection.path s.directory s.collection kind

/-- Close the open store, if one is. -/
def close (s : Session) : Session :=
  match s.store with
  | none => s
  | some store => { s with tree := store.close s.tree, store := none }

/-- Open the collection, after closing what was open. -/
def «open» (s : Session) (drop : Bool) : Session × Except PathError Unit :=
  let s := s.close
  match Store.open s.tree s.directory s.collection drop with
  | (tree, .error e) => ({ s with tree }, .error e)
  | (tree, .ok store) => ({ s with tree, store := some store }, .ok ())

def flush (s : Session) : Session :=
  match s.store with
  | none => s
  | some store =>
    let (tree, store) := store.flush s.tree
    { s with tree, store := some store }

/-- Write records to the open store; how many it has written. -/
def write (s : Session) (records : List Record) : Session × Option Nat :=
  match s.store with
  | none => (s, none)
  | some store =>
    let (tree, store) := records.foldl (fun ts r => ts.2.write ts.1 r) (s.tree, store)
    ({ s with tree, store := some store }, some store.recordsWritten)

def load (s : Session) : Except LoadError (List Record) :=
  Collection.load s.tree s.directory s.collection

def put (s : Session) (kind : Kind) (content : Bytes) : Session × Except PathError Unit :=
  match s.tree.writable (s.path kind) with
  | .error e => (s, .error e)
  | .ok place => ({ s with tree := s.tree.put place content }, .ok ())

/-- Remove a file, which must be there. What an open store still writes to it is lost. -/
def remove (s : Session) (kind : Kind) : Session × Except PathError Unit :=
  match s.tree.writable (s.path kind) with
  | .error e => (s, .error e)
  | .ok place =>
    if (s.tree.content? place).isNone then (s, .error .missing)
    else
      let lose := fun store : Store =>
        store.withWriter kind { store.writer kind with position := .lost }
      ({ s with tree := s.tree.remove place, store := s.store.map lose }, .ok ())

end Session
end MarketMinutes
