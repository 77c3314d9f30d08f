import MarketMinutes.CommandLine.Program

/-!
# The executable

The files that a command may touch are read into a tree, the command is run on
it, and what it has changed is written back.
-/

namespace MarketMinutes.Main

/-- A location as an absolute path. -/
def absolute (place : Location) : String :=
  "/" ++ "/".intercalate place

/-- The tree with what the disk holds along a path. -/
def observe (t : FileTree) (path : String) : IO FileTree := do
  let mut tree := t
  let mut place := t.origin path
  for name in Path.names path do
    place := FileTree.enter place name
    let disk := (← IO.currentDir) / absolute place
    if ← disk.isDir then
      unless tree.isDirectory place do
        tree := { tree with directories := tree.directories ++ [place] }
    else if ← disk.pathExists then
      tree := tree.put place (← IO.FS.readBinFile disk).data.toList
  return tree

/-- The paths that a configuration and a command lead to. -/
def paths (config : Config) : Command → List String
  | .aggregate _ _ =>
    config.input :: config.outputDirectory ::
      Kind.all.map (Collection.path config.outputDirectory config.collection)
  | .tabulate _ output =>
    output :: config.outputDirectory ::
      Kind.all.map (Collection.path config.outputDirectory config.collection)

/-- The tree that a command works on. -/
def gather (t : FileTree) (command : Command) : IO FileTree := do
  let configPath := match command with
    | .aggregate config _ => config
    | .tabulate config _ => config
  let t ← observe t configPath
  match Config.load t configPath with
  | .error _ => return t
  | .ok config => (paths config command).foldlM observe t

/-- Write to disk what has changed from one tree to the next. -/
def commit (old new : FileTree) : IO Unit := do
  for place in new.directories do
    unless old.isDirectory place do
      IO.FS.createDirAll (absolute place)
  for (place, content) in new.files do
    unless old.content? place = some content do
      IO.FS.writeBinFile (absolute place) ⟨content.toArray⟩

def usage : String :=
  "Per-minute market data aggregator\n\n" ++
    "aggregate --config <CONFIG> [--drop]\n" ++
    "export --config <CONFIG> --output <OUTPUT>\n"

end MarketMinutes.Main

open MarketMinutes in
/-- Run the command that the words ask for; the result is the exit code. -/
def main (words : List String) : IO UInt32 := do
  let here := (Path.names (← IO.currentDir).toString).filter (· != "")
  let start := FileTree.ofFiles here []
  let before ← match Invocation.ofWords words with
    | .run command => Main.gather start command
    | _ => pure start
  let (after, outcome) := Program.run before words
  Main.commit before after
  match outcome with
  | .done => pure ()
  | .informed => IO.print Main.usage
  | .refused => IO.eprint Main.usage
  | .failed failure => IO.eprintln ("Error: " ++ failure.message)
  return outcome.exitCode.toUInt32
