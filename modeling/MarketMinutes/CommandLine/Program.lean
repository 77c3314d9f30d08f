import MarketMinutes.CommandLine.Invocation
import MarketMinutes.Config
import MarketMinutes.Storage.GrowingFeed
import MarketMinutes.Table

/-!
# The program

What a command line does to a file tree, and how that ends. All paths are texts
in UTF-8. Whatever a path leads to can be opened: there are no permissions, and
a feed cannot be opened only if its path leads nowhere.
-/

namespace MarketMinutes

inductive Failure where
  | config (error : ConfigError)
  | noFeed (path : String)
  | collection (error : PathError)
  | setup (error : SetupError)
  | run (error : RunError Empty)
  | load (error : LoadError)
  | output (path : String)

def Failure.message : Failure → String
  | config error => error.message
  | noFeed path => "opening feed " ++ path
  | collection error => error.message
  | setup error => error.message
  | run error => error.message nofun
  | load error => error.message
  | output path => "creating " ++ path

inductive Outcome where
  | done
  | informed
  | refused
  | failed (failure : Failure)

/-- Zero for success, one for a failure, two for a command line that is refused. -/
def Outcome.exitCode : Outcome → Nat
  | done => 0
  | informed => 0
  | failed _ => 1
  | refused => 2

namespace Program

/-- All that a feed file gives; a directory in its place gives an error. -/
def arrivals (t : FileTree) (feed : Location) : List Arrival :=
  match t.entry? feed with
  | some (.file content) => (LineFeed.ofBytes content).arrivals
  | _ => [.error .unreadable]

/-- Run a feed into an open store. A feed that is itself a file of the store is read as it grows. -/
def runInto (t : FileTree) (store : Store) (a : Aggregator) (feed : Location) : Run (FileTree × Store) Empty :=
  if store.owns feed then GrowingFeed.run a t store feed
  else a.run Sink.store (t, store) (arrivals t feed)

/-- Run a feed into an open store, and close it. -/
def aggregateInto (t : FileTree) (store : Store) (config : Config) (feed : Location) : FileTree × Outcome :=
  match Aggregator.new config.maxDepth.toNat config.interval with
  | .error e => (store.close t, .failed (.setup e))
  | .ok a =>
    let run := runInto t store a feed
    let t := run.sink.2.close run.sink.1
    match run.result with
    | .ok () => (t, .done)
    | .error e => (t, .failed (.run e))

/-- Aggregate a feed into a collection. The feed must be there before the collection is opened; what was
made and written before a failure stays. -/
def aggregate (t : FileTree) (configPath : String) (drop : Bool) : FileTree × Outcome :=
  match Config.load t configPath with
  | .error e => (t, .failed (.config e))
  | .ok config =>
    match t.find? config.input with
    | none => (t, .failed (.noFeed config.input))
    | some feed =>
      match Store.open t config.outputDirectory config.collection drop with
      | (t, .error e) => (t, .failed (.collection e))
      | (t, .ok store) => aggregateInto t store config feed

/-- Write the table of a collection. The output is opened once all records are loaded. -/
def tabulate (t : FileTree) (configPath output : String) : FileTree × Outcome :=
  match Config.load t configPath with
  | .error e => (t, .failed (.config e))
  | .ok config =>
    match Collection.load t config.outputDirectory config.collection with
    | .error e => (t, .failed (.load e))
    | .ok records =>
      match t.writable output with
      | .error _ => (t, .failed (.output output))
      | .ok place =>
        (t.put place (Bytes.ofText (Table.write config.nearBuckets.toNat records).text), .done)

def runCommand (t : FileTree) : Command → FileTree × Outcome
  | .aggregate config drop => aggregate t config drop
  | .tabulate config output => tabulate t config output

def run (t : FileTree) (words : List String) : FileTree × Outcome :=
  match Invocation.ofWords words with
  | .inform => (t, .informed)
  | .refuse => (t, .refused)
  | .run command => runCommand t command

end Program
end MarketMinutes
