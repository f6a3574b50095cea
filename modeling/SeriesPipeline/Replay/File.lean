import SeriesPipeline.Folder
import SeriesPipeline.Stage.Failure

/-!
# Replay files

A replay file holds one batch a line.
-/

namespace SeriesPipeline

/-- The batches of what was found under a path. -/
def replayFile (path : String) : Found → Except Failure (List Batch)
  | .nothing => .error (.noReplayFile path)
  | .folder => .error .replayFolder
  | .content bytes =>
    match Lines.batchesOfBytes bytes with
    | .ok batches => .ok batches
    | .error cause => .error (.replayFile cause)

end SeriesPipeline
