import SeriesPipeline.Command.Session

/-!
# The command line

Reads the files that the arguments name, and the input when there is nothing to replay, and writes
what the session has to say.
-/

namespace SeriesPipeline.Command

/-- What an opened path holds. What has no content is a folder. -/
def heldBy (handle : IO.FS.Handle) : IO Found := do
  try
    return .content (← handle.readBinToEnd).toList
  catch _ => return .folder

def lookUp (path : String) : IO Found := do
  let opened ← try pure (some (← IO.FS.Handle.mk path .read)) catch _ => pure none
  match opened with
  | some handle => heldBy handle
  | none => return .nothing

def inputOf : IO (List UInt8) := do
  return (← (← IO.getStdin).readBinToEnd).toList

def surroundings (a : Arguments) : IO Surroundings := do
  let pipeline ← lookUp a.pipeline
  let replay ← match a.replay with
    | some path => lookUp path
    | none => pure .nothing
  let input ← if a.dryRun || a.replay.isSome then pure [] else inputOf
  let file (path : String) : Found :=
    if a.replay = some path then replay else if path = a.pipeline then pipeline else .nothing
  return ⟨file, input⟩

def runWith (a : Arguments) : IO UInt32 := do
  let result := Session.run a (← surroundings a)
  IO.print result.written
  match result.fault with
  | some fault =>
    IO.eprintln ("batchflow error: " ++ fault.message)
    return 1
  | none => return 0

def refuse (r : Arguments.Refusal) : IO UInt32 := do
  match r with
  | .help | .version =>
    IO.println r.message
    return 0
  | _ =>
    IO.eprintln ("error: " ++ r.message)
    return 2

end SeriesPipeline.Command

def main (arguments : List String) : IO UInt32 :=
  match SeriesPipeline.Arguments.parse arguments with
  | .ok a => SeriesPipeline.Command.runWith a
  | .error r => SeriesPipeline.Command.refuse r
