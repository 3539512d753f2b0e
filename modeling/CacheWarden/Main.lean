import CacheWarden.Program
/-!
The program at a terminal.  Here is what only the outside can give: the files, the
clock, the ports, and the interrupt, for which the end of the standard input stands.
-/

namespace CacheWarden.Terminal

/-- The place that a path leads to, links apart. -/
def placeOf (dir : Location) (path : String) : Location :=
  let follow (place : Location) (name : String) : Location :=
    if name = "." then place else if name = ".." then place.dropLast else place ++ [name]
  (FileTree.steps path).foldl follow (if FileTree.isAbsolute path then [] else dir)

/-- Reads the file at a path into a tree, if there is one. -/
def readInto (dir : Location) (t : FileTree) (path : String) : IO FileTree := do
  let place := placeOf dir path
  try
    let bytes ← IO.FS.readBinFile path
    return t.put place (.file bytes.toList)
  catch
    | .inappropriateType .. => return t.put place .directory
    | _ => return t

/-- The paths that a command line may ask for. -/
def pathsOf (args : List String) : List String :=
  match CommandLine.read args with
  | .ok (.run (some path)) => [path]
  | .ok (.run none) => [Lookup.localPath, Lookup.defaultPath]
  | .ok .help | .ok .version | .error _ => []

/-- Writes the records of notices that are logged. -/
def log (p : Program.Started) (ns : List Notice) : IO Unit := do
  let format := Program.formatOf p.settings
  for r in Program.records p.filter ns do
    IO.println (format.text r)

/-- Writes what an application has told since the last time, and lets it forget that. -/
def flush (p : Program.Started) (a : App) : IO App := do
  log p a.service.notices
  return { a with service := { a.service with notices := [], sweeps := [] } }

/-- Lets an application serve until it is interrupted; `start` is the clock's time at its start. -/
partial def tend (p : Program.Started) (isInterrupted : IO Bool) (start : Nat) (a : App) :
    IO App := do
  let now := (← IO.monoMsNow) - start
  let a ← flush p (a.step (.advance (now - a.service.now))).1
  if ← isInterrupted then return a
  IO.sleep 50
  tend p isInterrupted start a

/-- Runs an application to its end. -/
def serve (p : Program.Started) (a : App) : IO UInt32 := do
  let input ← IO.asTask (do (← IO.getStdin).getLine)
  log p p.notices
  let a ← tend p (IO.hasFinished input) (← IO.monoMsNow) a.serve
  let (a, c) := (a.interruptAt a.service.now).finish
  log p a.service.notices
  return (Program.exitCode c).toUInt32

/-- Some local interface has the host's address: the host stands for all of them, or for the
loopback. -/
def isLocal : Host → Bool
  | .v4 a b c d => a == 127 || [a, b, c, d].all (· == 0)
  | .v6 groups _ => groups.1.dropLast.all (· == 0) && groups.1.getLastD 0 ≤ 1

/-- A machine without other interfaces, where low ports need a privilege that nobody has; port zero
stands for any that is free. -/
def listen : Listener := fun a =>
  if 0 < a.port ∧ a.port < 1024 then .error ⟨"Permission denied (os error 13)"⟩
  else if !isLocal a.host then .error ⟨"Cannot assign requested address (os error 99)"⟩
  else .ok ()

/-- Writes the last words of a program that does not serve. -/
def leave (e : Program.Ended) : IO UInt32 := do
  IO.print e.stdout
  IO.eprint e.stderr
  return e.exit.toUInt32

/-- The exit code after a crash. -/
def crashCode : UInt32 := 101

/-- The program from its arguments to its exit code. -/
def run (args : List String) : IO UInt32 := do
  let dir := FileTree.steps (toString (← IO.currentDir))
  let tree ← (pathsOf args).foldlM (readInto dir) ⟨[(dir, .directory)]⟩
  match Program.start args (← IO.getEnv "RUST_LOG") listen tree dir with
  | .error (.refusal e) => leave e
  | .error .crash => return crashCode
  | .ok p =>
    match App.new p.settings (← IO.monoMsNow) .empty with
    | .error e => leave (Program.unbuilt e)
    | .ok a => serve p a

end CacheWarden.Terminal

/-- The program. -/
def main (args : List String) : IO UInt32 := CacheWarden.Terminal.run args
