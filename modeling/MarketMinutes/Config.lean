import MarketMinutes.Json.Parts
import MarketMinutes.Storage.FileTree

/-!
# Configuration

What to aggregate, from where to where, and the settings of book and table.
A configuration is read from a JSON file and checked before it is used. Paths
are texts, so only those in UTF-8 can be named.
-/

namespace MarketMinutes

structure Config where
  collection : String
  input : String
  outputDirectory : String
  maxDepth : UInt64
  interval : Decimal
  nearBuckets : UInt64
  progressEvery : UInt64
  deriving DecidableEq

inductive ConfigProblem where
  | collection
  | maxDepth
  | interval (value : Decimal)
  | nearBuckets
  deriving DecidableEq

def ConfigProblem.message : ConfigProblem → String
  | collection => "collection must not be empty"
  | maxDepth => "max_depth must be at least 1"
  | interval value => "percentage_interval must be positive, got " ++ toString value
  | nearBuckets => "near_buckets must be at least 1"

inductive ConfigError where
  | unreadable
  | garbled
  | invalid (problem : ConfigProblem)
  deriving DecidableEq

def ConfigError.message : ConfigError → String
  | unreadable => "Failed to read config"
  | garbled => "Failed to parse config"
  | invalid problem => "Invalid config: " ++ problem.message

namespace Config

/-! ## In JSON -/

def defaultOutputDirectory : String := "."
def defaultMaxDepth : UInt64 := 1000

/-- One per cent. -/
def defaultInterval : Decimal := { Decimal.one with scale := 2, scale_le := by decide }

def defaultNearBuckets : UInt64 := 5
def defaultProgressEvery : UInt64 := 1000

def toJson (c : Config) : Json :=
  .record [("collection", .ofString c.collection), ("input", .ofString c.input),
    ("output_dir", .ofString c.outputDirectory), ("max_depth", .ofUInt64 c.maxDepth),
    ("percentage_interval", c.interval.toJson), ("near_buckets", .ofUInt64 c.nearBuckets),
    ("progress_every", .ofUInt64 c.progressEvery)]

def ofJson? (j : Json) : Option Config :=
  match j.parts? ["collection", "input", "output_dir", "max_depth", "percentage_interval",
    "near_buckets", "progress_every"] with
  | some [collection, input, outputDirectory, maxDepth, interval, nearBuckets, progressEvery] => do
    some
      { collection := ← collection.required? Json.string?
        input := ← input.required? Json.string?
        outputDirectory := ← outputDirectory.orElse? Json.string? defaultOutputDirectory
        maxDepth := ← maxDepth.orElse? Json.uint64? defaultMaxDepth
        interval := ← interval.orElse? Decimal.ofJson? defaultInterval
        nearBuckets := ← nearBuckets.orElse? Json.uint64? defaultNearBuckets
        progressEvery := ← progressEvery.orElse? Json.uint64? defaultProgressEvery }
  | _ => none

/-! ## Checking and loading -/

/-- The first problem of a configuration, if it has one. -/
def problem? (c : Config) : Option ConfigProblem :=
  if Text.allBlank c.collection then some .collection
  else if c.maxDepth = 0 then some .maxDepth
  else if c.interval.isLE .zero then some (.interval c.interval)
  else if c.nearBuckets = 0 then some .nearBuckets
  else none

def ofBytes (bytes : Bytes) : Except ConfigError Config :=
  match Bytes.text? bytes with
  | none => .error .unreadable
  | some text =>
    match (Json.parse? text).bind ofJson? with
    | none => .error .garbled
    | some c =>
      match c.problem? with
      | none => .ok c
      | some p => .error (.invalid p)

def load (t : FileTree) (path : String) : Except ConfigError Config :=
  match t.lookup? path with
  | some (.file content) => ofBytes content
  | _ => .error .unreadable

end Config
end MarketMinutes
