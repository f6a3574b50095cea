import SeriesPipeline.Stage.Basic
import SeriesPipeline.Task.Cache

/-!
# Processes

A process is a stage with its inbox and what it has yet to send. Inboxes are bounded: an envelope
for a full inbox waits, and one for a closed inbox is lost. A process that fails records its failure
first, then closes its inbox, then sends a close on every outlet.
-/

namespace SeriesPipeline

/-- The way to a port of a later process. -/
structure Outlet where
  /-- How many processes lie between. -/
  between : Nat
  port : Nat
  deriving DecidableEq

/-- How far a process is on its way out. -/
inductive Phase where
  | running
  /-- The failure is not yet recorded. -/
  | failed (cause : Failure)
  /-- Nothing more to do, but the inbox is still open. -/
  | leaving (failure : Option Failure)
  /-- The inbox is closed. -/
  | closed (failure : Option Failure)
  | aborted

structure Process where
  stage : Stage
  outlets : List Outlet
  inbox : List Envelope
  /-- What was sent and has not arrived yet, in order. -/
  outbox : List (Outlet × Message)
  phase : Phase

/-- What becomes of an offer: it is taken, it has to wait, or there is nobody to take it. -/
inductive Offer (α : Type) where
  | taken (a : α)
  | full
  | gone

def Offer.map {α β : Type} (f : α → β) : Offer α → Offer β
  | .taken a => .taken (f a)
  | .full => .full
  | .gone => .gone

def Phase.isOpen : Phase → Bool
  | .running | .failed _ | .leaving _ => true
  | .closed _ | .aborted => false

/-- How many phases may still come. -/
def Phase.left : Phase → Nat
  | .running => 3
  | .failed _ => 2
  | .leaving _ => 1
  | .closed _ | .aborted => 0

namespace Process

def new (stage : Stage) (outlets : List Outlet) : Process := ⟨stage, outlets, [], [], .running⟩

/-- Whether the process will do nothing any more. -/
def hasExited (p : Process) : Bool :=
  match p.phase with
  | .closed _ => p.outbox.isEmpty
  | .aborted => true
  | _ => false

/-- The failure that a process has exited with. -/
def exitFailure? (p : Process) : Option Failure :=
  match p.phase with
  | .closed failure => if p.outbox.isEmpty then failure else none
  | _ => none

/-- Stops a process at once. What it has not sent is lost. -/
def abort (p : Process) : Process :=
  if p.hasExited then p else { p with inbox := [], outbox := [], phase := .aborted }

def offer (capacity : Nat) (p : Process) (e : Envelope) : Offer Process :=
  if p.phase.isOpen then
    if p.inbox.length < capacity then .taken { p with inbox := p.inbox ++ [e] } else .full
  else .gone

/-- Every message on every outlet, message by message. -/
def broadcast (p : Process) (messages : List Message) : List (Outlet × Message) :=
  messages.flatMap fun m => p.outlets.map fun o => (o, m)

end Process

/-- What the processes of a task have brought about together. -/
structure Results where
  cache : ResultCache
  /-- Alerts that nobody has picked up yet. -/
  alerts : List Alert
  /-- The first failure. -/
  failure : Option Failure

namespace Results

def empty : Results := ⟨.empty, [], none⟩

def record (r : Results) (cause : Failure) : Results :=
  { r with failure := r.failure <|> some cause }

def add (r : Results) (reaction : Reaction) : Results :=
  { r with
    cache := reaction.published.foldl (fun c p => c.publish p.1 p.2) r.cache
    alerts := r.alerts ++ reaction.alerts }

end Results

end SeriesPipeline
