/-!
# Settings of the engine
-/

namespace SeriesPipeline

structure Settings where
  /-- How many messages a queue between stages holds. -/
  queueCapacity : Nat
  /-- How many incomplete windows a join keeps when its node does not say. -/
  joinHorizon : Nat
  /-- How many window ends a windowing keeps open; no bound when absent. -/
  windowHorizon : Option Nat
  /-- How many levels a flap detector remembers when the node does not say. -/
  alertHistory : Nat
  deriving DecidableEq

namespace Settings

def standard : Settings := ⟨64, 32, none, 21⟩

inductive Fault where
  | queueCapacity
  | joinHorizon
  | windowHorizon
  | alertHistory (n : Nat)

def Fault.message : Fault → String
  | .queueCapacity => "[config].queue_capacity must be >= 1 (got 0)"
  | .joinHorizon => "[config].join_horizon must be >= 1 (got 0)"
  | .windowHorizon => "[config].window_horizon must be >= 1 when set (got 0)"
  | .alertHistory n => "[config].alert_history must be >= 2 (got " ++ toString n ++ ")"

def check (s : Settings) : Except Fault Unit :=
  if s.queueCapacity = 0 then .error .queueCapacity
  else if s.joinHorizon = 0 then .error .joinHorizon
  else if s.windowHorizon = some 0 then .error .windowHorizon
  else if s.alertHistory < 2 then .error (.alertHistory s.alertHistory)
  else .ok ()

end Settings

end SeriesPipeline
