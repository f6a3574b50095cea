import SeriesPipeline.Data.Lines
import SeriesPipeline.Operator.Fault

/-!
# Failures of tasks

What ends a task, a call on its input or a replay early. A fatal failure stops all stages of its
task at once; after any other failure the stages that are left run to their end.
-/

namespace SeriesPipeline

inductive Failure where
  | stage (id : String) (cause : StageFault)
  | unknownPort (id : String) (port : Nat)
  | inputClosed (task : String)
  /-- A replay could go no further because its task had failed. -/
  | task (name : String) (cause : Failure)
  | outOfOrder (batch : Nat) (first previous : Instant)
  | noReplayFile (path : String)
  /-- A folder stands where a replay file should. -/
  | replayFolder
  | replayFile (cause : Lines.Fault)
  /-- A task fails with the replay that feeds it. -/
  | replay (cause : Failure)
  /-- A failure that was reported from outside. -/
  | reported (message : String)

namespace Failure

def isFatal : Failure → Bool
  | .unknownPort .. | .outOfOrder .. | .noReplayFile _ | .replay _ | .reported _ => true
  | _ => false

def message : Failure → String
  | .stage id cause => "Stage '" ++ id ++ "' failed: " ++ cause.message
  | .unknownPort id port =>
    "Fatal error: stage '" ++ id ++ "' received a message on unknown port " ++ toString port
  | .inputClosed name => "Input of task '" ++ name ++ "' is closed"
  | .task name cause => "Task '" ++ name ++ "' failed: " ++ cause.message
  | .outOfOrder batch first previous =>
    "Fatal error: replay batch " ++ toString batch ++ " starts at " ++ first.text
      ++ ", before the previous batch at " ++ previous.text
  | .noReplayFile path => "Fatal error: cannot open replay file " ++ path
  | .replayFolder => "IO error"
  | .replayFile cause => cause.message
  | .replay cause => "Fatal error: replay failed: " ++ cause.message
  | .reported message => "Fatal error: " ++ message

end Failure

end SeriesPipeline
