/-
  VersionedTopology.Main

  The program on a real system.

  The words, the environment variables and the files that the words name are
  gathered first, so that the program itself is a function of them. There is no
  transport: every request finds nobody, and a server only says that it is up.
-/

import VersionedTopology.CommandLine.Program

open VersionedTopology VersionedTopology.CommandLine

/-- The environment variables that the program looks at. -/
def variableNames : List String :=
  [ "ARCHSYNC_URL", "ARCHSYNC_API_KEY", "ARCHSYNC_RATE_LIMIT", "ARCHSYNC_CORS_ORIGINS",
    "ARCHSYNC_LOG_FORMAT", "RUST_LOG" ]

/-- The paths that an invocation may read. -/
def pathsOf (i : Invocation) : List String :=
  i.config.getD settingsFile ::
    match i.command with
    | .serve _ _ (some seed) => [seed]
    | .apply file _ => [file]
    | _ => []

/-- Looks at what a path leads to. -/
def lookAt (path : String) : IO (Except FileFault Node) := do
  try
    let bytes ← IO.FS.readBinFile path
    return .ok (.file bytes.size (String.fromUTF8? bytes))
  catch
    | .noFileOrDirectory .. => return .error .missing
    | .inappropriateType .. => return .ok .directory
    | _ => return .error .missing

def main (words : List String) : IO UInt32 := do
  let env ← variableNames.filterMapM fun name => do
    return (← IO.getEnv name).map fun value => (name, value)
  let paths := match Invocation.ofWords words with
    | .ok i => pathsOf i
    | .error _ => []
  let nodes ← paths.mapM fun path => return (path, ← lookAt path)
  let files : Files := fun path => (nodes.lookup path).getD (.error .missing)
  let exit := runProgram words files env { port := 0 }
  IO.print exit.printed
  for m in exit.messages do
    IO.eprintln (m.text exit.jsonLog)
  return exit.code.toUInt32
