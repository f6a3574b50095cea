import SeriesPipeline.Task.Basic

/-!
# Input of a task

A batch goes to the inlets that accept its name, a barrier and the close to all of them. A call
notes down its inlets when it begins and then sends to each in turn, so an input that is closed
meanwhile does not stop it. A call is refused when the input is closed, and fails when an inlet's
process is gone.
-/

namespace SeriesPipeline

inductive Call where
  | batch (b : Batch)
  | barrier (t : Instant)
  | close

/-- A message on its way to a process. -/
abbrev Send := Nat × Message

/-- How far the messages of a call have come. -/
inductive Delivery where
  | done
  | rejected
  | waiting (sends : List Send)

namespace PipelineTask

/-- The sends of a call. Closing takes the inlets away, and does so once. -/
def begin? (t : PipelineTask) (c : Call) : Option (PipelineTask × List Send) :=
  match c, t.inlets with
  | .batch b, some inlets =>
    some (t, (inlets.filter (·.accepts b.name)).map fun i => (i.process, .batch b))
  | .barrier time, some inlets => some (t, inlets.map fun i => (i.process, .barrier time))
  | .close, some inlets =>
    some ({ t with inlets := none }, inlets.map fun i => (i.process, .close))
  | .close, none => some (t, [])
  | _, none => none

def offer (t : PipelineTask) (s : Send) : Offer PipelineTask :=
  (t.network.offer s.1 ⟨0, s.2⟩).map fun network => { t with network }

/-- Sends in turn, and lets the processes run after each send. A close that nobody is there to take
is not missed. -/
def deliver (now : Instant) (t : PipelineTask) : List Send → PipelineTask × Delivery
  | [] => (t, .done)
  | s :: rest =>
    match t.offer s with
    | .taken t => deliver now (t.settle now) rest
    | .full => (t, .waiting (s :: rest))
    | .gone => if s.2.isClose then deliver now t rest else (t, .rejected)

/-- Makes a whole call. -/
def call (now : Instant) (t : PipelineTask) (c : Call) : PipelineTask × Delivery :=
  match t.begin? c with
  | some (t, sends) => t.deliver now sends
  | none => (t, .rejected)

end PipelineTask

end SeriesPipeline
