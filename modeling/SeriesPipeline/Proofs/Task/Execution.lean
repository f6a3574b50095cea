import Mathlib.Logic.Function.Basic
import SeriesPipeline.Task.Basic

/-!
# Executions

An execution makes one move at a time: a process is given a message from outside, a process makes a
step, or all processes are aborted. It keeps a log of what was given, sent and taken. To a single
process, a move is one of a few changes, whatever the others do.
-/

namespace SeriesPipeline

inductive Move where
  | feed (process : Nat)
  | step (process : Nat) (now : Instant)
  | abort

/-- What a log notes. A message that finds an inbox closed is noted as well. -/
inductive Event where
  | fed (process : Nat) (m : Message)
  | sent (process : Nat) (outlet : Outlet) (m : Message)
  | took (process : Nat) (e : Envelope) (reaction : Reaction)

structure Execution where
  network : Network
  /-- What is still to be given to each process. -/
  feeds : Nat → List Message
  log : List Event

/-- What the next step of process number `i` is noted as. -/
def Process.events (now : Instant) (i : Nat) (p : Process) : List Event :=
  match p.outbox, p.phase, p.inbox with
  | (outlet, m) :: _, _, _ => [.sent i outlet m]
  | [], .running, e :: _ => [.took i e (p.stage.receive now e).2.1]
  | _, _, _ => []

namespace Execution

def start (n : Network) (feeds : Nat → List Message) : Execution := ⟨n, feeds, []⟩

/-- Notes that the next message was given to a process. -/
def fed (x : Execution) (i : Nat) (m : Message) (rest : List Message) (n : Network) : Execution :=
  ⟨n, Function.update x.feeds i rest, x.log ++ [.fed i m]⟩

/-- Makes a move, if it can be made. -/
def move? (x : Execution) : Move → Option Execution
  | .feed i =>
    match x.feeds i with
    | [] => none
    | m :: rest =>
      match x.network.offer i ⟨0, m⟩ with
      | .taken n => some (x.fed i m rest n)
      | .gone => some (x.fed i m rest x.network)
      | .full => none
  | .step i now => do
    let p ← x.network.processes[i]?
    let network ← x.network.step? now i
    return { x with network, log := x.log ++ p.events now i }
  | .abort => some { x with network := x.network.abort }

/-- Makes moves one after the other, if all of them can be made. -/
def run (x : Execution) (moves : List Move) : Option Execution := moves.foldlM move? x

end Execution

/-! ## What happens to one process -/

/-- What a log tells about one process. -/
inductive Incident where
  | arrived (e : Envelope)
  | took (e : Envelope) (reaction : Reaction)
  | sent (outlet : Outlet) (m : Message)

/-- What an event is to process number `k`. -/
def Event.incident? (k : Nat) : Event → Option Incident
  | .fed i m => if i = k then some (.arrived ⟨0, m⟩) else none
  | .sent i outlet m =>
    if i = k then some (.sent outlet m)
    else if i + 1 + outlet.between = k then some (.arrived ⟨outlet.port, m⟩)
    else none
  | .took i e reaction => if i = k then some (.took e reaction) else none

/-- The history of process number `k`. -/
def historyOf (k : Nat) (log : List Event) : List Incident := log.filterMap (Event.incident? k)

theorem historyOf_append (k : Nat) (log later : List Event) :
    historyOf k (log ++ later) = historyOf k log ++ historyOf k later :=
  List.filterMap_append

/-- What may become of a process in one move, and what its history gets. -/
inductive Process.Changes : List Incident → Process → Process → Prop where
  | idle (p : Process) : Changes [] p p
  | accepts {p : Process} (e : Envelope) (h : p.phase.isOpen = true) :
    Changes [.arrived e] p { p with inbox := p.inbox ++ [e] }
  | misses {p : Process} (e : Envelope) (h : p.phase.isOpen = false) : Changes [.arrived e] p p
  | sends {p : Process} {outlet : Outlet} {m : Message} {outbox : List (Outlet × Message)}
    (h : p.outbox = (outlet, m) :: outbox) : Changes [.sent outlet m] p { p with outbox }
  | takes {p : Process} {e : Envelope} {inbox : List Envelope} (now : Instant)
    (hout : p.outbox = []) (hphase : p.phase = .running) (hin : p.inbox = e :: inbox) :
    Changes [.took e (p.stage.receive now e).2.1] p
      { p with
        stage := (p.stage.receive now e).1
        inbox
        outbox := p.broadcast (p.stage.receive now e).2.1.sent
        phase := Network.phaseAfter (p.stage.receive now e).2.2 }
  | records {p : Process} {cause : Failure} (hphase : p.phase = .failed cause) :
    Changes [] p { p with phase := .leaving (some cause) }
  | leaves {p : Process} {failure : Option Failure} (hout : p.outbox = [])
    (hphase : p.phase = .leaving failure) :
    Changes [] p { p with inbox := [], outbox := p.broadcast [.close], phase := .closed failure }
  | aborts (p : Process) : Changes [] p p.abort

/-- The process that sends or takes something. -/
def Event.actor? : Event → Option Nat
  | .fed _ _ => none
  | .sent i _ _ | .took i _ _ => some i

/-! ## Moves -/

/-- What a stage gave out on an envelope. -/
def Event.reaction? : Event → Option Reaction
  | .took _ _ reaction => some reaction
  | _ => none

def publishedIn (log : List Event) : List (String × Batch) :=
  (log.filterMap Event.reaction?).flatMap (·.published)

def alertsIn (log : List Event) : List Alert := (log.filterMap Event.reaction?).flatMap (·.alerts)

/-- What process number `k` was given from outside. -/
def fedTo (k : Nat) (log : List Event) : List Message :=
  log.filterMap fun
    | .fed i m => if i = k then some m else none
    | _ => none

theorem fedTo_append (k : Nat) (log later : List Event) :
    fedTo k (log ++ later) = fedTo k log ++ fedTo k later :=
  List.filterMap_append

/-- The results after some more events, apart from the failure. -/
structure Results.Gains (r : Results) (log : List Event) (r' : Results) : Prop where
  cache : r'.cache = (publishedIn log).foldl (fun c e => c.publish e.1 e.2) r.cache
  alerts : r'.alerts = r.alerts ++ alertsIn log

/-- A move that is noted by some events. -/
structure Execution.Makes (x : Execution) (events : List Event) (x' : Execution) : Prop where
  log : x'.log = x.log ++ events
  processes : ∀ k, Option.Rel (Process.Changes (historyOf k events)) x.network.processes[k]?
    x'.network.processes[k]?
  /-- Only processes that are there act. -/
  actors : ∀ e ∈ events, ∀ k ∈ e.actor?, k < x.network.processes.length
  feeds : ∀ k, x.feeds k = fedTo k events ++ x'.feeds k
  results : x.network.results.Gains events x'.network.results

namespace Network

variable {capacity i : Nat} {now : Instant} {processes processes' : List Process} {e : Envelope}

theorem of_offerTo_eq_taken (h : offerTo capacity processes i e = .taken processes') :
    ∃ p, processes[i]? = some p ∧ p.phase.isOpen = true ∧
      processes' = processes.set i { p with inbox := p.inbox ++ [e] } := by
  rw [offerTo] at h
  cases hp : processes[i]? with
  | none =>
    rw [hp] at h
    cases h
  | some p =>
    rw [hp] at h
    dsimp only [Process.offer] at h
    split at h
    · rename_i hopen
      split at h
      · cases h
        exact ⟨p, rfl, hopen, rfl⟩
      · cases h
    · cases h

theorem of_offerTo_eq_gone (h : offerTo capacity processes i e = .gone) :
    ∀ p, processes[i]? = some p → p.phase.isOpen = false := by
  intro p hp
  rw [offerTo, hp] at h
  dsimp only [Process.offer] at h
  split at h
  · split at h <;> cases h
  · rename_i hclosed
    exact Bool.not_eq_true _ ▸ hclosed

/-- A step of a process, with the processes before it as they were. -/
theorem stepAt_eq (capacity : Nat) (now : Instant) (i : Nat) (r : Results)
    (processes : List Process) :
    stepAt capacity now i r processes = processes[i]?.bind fun p =>
      (stepHead capacity now r p (processes.drop (i + 1))).map fun (r, p, rest) =>
        (r, processes.take i ++ p :: rest) := by
  induction processes generalizing i with
  | nil => cases i <;> rfl
  | cons p rest ih =>
    cases i with
    | zero => rfl
    | succ i =>
      rw [stepAt, ih]
      cases hp : rest[i]? with
      | none => simp [hp]
      | some q => simp [hp, Function.comp_def]

theorem take_append_cons_drop {i : Nat} {p p' : Process} (hp : processes[i]? = some p) :
    processes.take i ++ p' :: processes.drop (i + 1) = processes.set i p' := by
  rw [List.set_eq_take_append_cons_drop, if_pos (List.getElem?_eq_some_iff.1 hp).1]

/-- Counted from the process after number `i`. -/
theorem take_append_cons_set_drop {i between : Nat} {p p' q : Process}
    (hp : processes[i]? = some p) :
    processes.take i ++ p' :: (processes.drop (i + 1)).set between q =
      (processes.set i p').set (i + 1 + between) q := by
  rw [← take_append_cons_drop hp]
  have hlength : (processes.take i).length = i :=
    List.length_take_of_le (Nat.le_of_lt (List.getElem?_eq_some_iff.1 hp).1)
  rw [List.set_append_right _ _ (by omega), hlength,
    show i + 1 + between - i = between + 1 by omega, List.set_cons_succ]

end Network

section Moves

variable {i : Nat} {now : Instant} {events : List Event} {processes processes' : List Process}
  {p p' : Process} {r r' : Results} {x x' : Execution}

theorem getElem?_set_eq_map (processes : List Process) (i : Nat) (p' : Process) (k : Nat) :
    (processes.set i p')[k]? = processes[k]?.map fun p => if k = i then p' else p := by
  rw [List.getElem?_set]
  by_cases hk : i = k
  · subst hk
    by_cases hi : i < processes.length
    · simp [hi]
    · simp [hi]
  · rw [if_neg hk]
    cases processes[k]? <;> simp [Ne.symm hk]

/-- Each process changes by itself. -/
theorem rel_of_map {f : Nat → Process → Process}
    (hmap : ∀ k, processes'[k]? = processes[k]?.map (f k))
    (h : ∀ k p, processes[k]? = some p → Process.Changes (historyOf k events) p (f k p)) (k : Nat) :
    Option.Rel (Process.Changes (historyOf k events)) processes[k]? processes'[k]? := by
  rw [hmap]
  cases hp : processes[k]? with
  | none => exact .none
  | some p => exact .some (h k p hp)

/-- One process changes, and the events are about no other one. -/
theorem rel_set (hp : processes[i]? = some p) (h : Process.Changes (historyOf i events) p p')
    (hothers : ∀ k, k ≠ i → historyOf k events = []) (k : Nat) :
    Option.Rel (Process.Changes (historyOf k events)) processes[k]? (processes.set i p')[k]? := by
  refine rel_of_map (getElem?_set_eq_map processes i p') (fun k q hq => ?_) k
  by_cases hk : k = i
  · subst hk
    rw [hp] at hq
    cases hq
    rw [if_pos rfl]
    exact h
  · rw [if_neg hk, hothers k hk]
    exact .idle q

namespace Execution

/-! ### Messages from outside -/

theorem historyOf_fed (i : Nat) (m : Message) (k : Nat) :
    historyOf k [.fed i m] = if i = k then [.arrived ⟨0, m⟩] else [] := by
  by_cases h : i = k <;> simp [historyOf, Event.incident?, h]

/-- A message from outside is lost to a process that has closed. -/
theorem rel_fed_gone {m : Message} (h : ∀ p, processes[i]? = some p → p.phase.isOpen = false)
    (k : Nat) :
    Option.Rel (Process.Changes (historyOf k [.fed i m])) processes[k]? processes[k]? := by
  refine rel_of_map (f := fun _ p => p) (fun k => by simp) (fun k p hp => ?_) k
  rw [historyOf_fed]
  split
  · rename_i hk
    exact .misses _ (h p (hk ▸ hp))
  · exact .idle p

theorem feeds_fed {m : Message} {rest : List Message} (h : x.feeds i = m :: rest) (n : Network)
    (k : Nat) : x.feeds k = fedTo k [.fed i m] ++ (x.fed i m rest n).feeds k := by
  rw [fed]
  by_cases hk : i = k
  · subst hk
    simp [fedTo, h]
  · simp [fedTo, hk, Function.update_of_ne (Ne.symm hk)]

theorem gains_of_no_reaction (r : Results) (hpublished : publishedIn events = [])
    (halerts : alertsIn events = []) : r.Gains events r :=
  ⟨by rw [hpublished]; rfl, by rw [halerts, List.append_nil]⟩

theorem makes_of_feed (h : x.move? (.feed i) = some x') : ∃ events, x.Makes events x' := by
  rw [move?] at h
  cases hfeed : x.feeds i with
  | nil =>
    rw [hfeed] at h
    cases h
  | cons m rest =>
    rw [hfeed] at h
    dsimp only [Network.offer] at h
    cases hoffer : Network.offerTo x.network.capacity x.network.processes i ⟨0, m⟩ with
    | taken processes =>
      rw [hoffer] at h
      cases h
      obtain ⟨p, hp, hopen, rfl⟩ := Network.of_offerTo_eq_taken hoffer
      refine ⟨[.fed i m], rfl, rel_set hp ?_ fun k hk => ?_, by simp [Event.actor?],
        feeds_fed hfeed _, gains_of_no_reaction _ rfl rfl⟩
      · rw [historyOf_fed, if_pos rfl]
        exact .accepts _ hopen
      · rw [historyOf_fed, if_neg (Ne.symm hk)]
    | gone =>
      rw [hoffer] at h
      cases h
      -- a message for a process that has ended is lost, and counts as given all the same
      exact ⟨[.fed i m], rfl, rel_fed_gone (Network.of_offerTo_eq_gone hoffer),
        by simp [Event.actor?], feeds_fed hfeed _, gains_of_no_reaction _ rfl rfl⟩
    | full =>
      rw [hoffer] at h
      cases h

theorem makes_of_abort (h : x.move? .abort = some x') : ∃ events, x.Makes events x' := by
  cases h
  refine ⟨[], (List.append_nil _).symm, rel_of_map (f := fun _ p => p.abort) ?_ ?_, nofun,
    fun _ => rfl, gains_of_no_reaction _ rfl rfl⟩
  · exact fun k => List.getElem?_map ..
  · exact fun _ p _ => .aborts p

/-! ### Steps -/

theorem historyOf_took (i : Nat) (e : Envelope) (reaction : Reaction) (k : Nat) :
    historyOf k [.took i e reaction] = if i = k then [.took e reaction] else [] := by
  by_cases h : i = k <;> simp [historyOf, Event.incident?, h]

theorem historyOf_sent (i : Nat) (outlet : Outlet) (m : Message) (k : Nat) :
    historyOf k [.sent i outlet m] =
      if i = k then [.sent outlet m]
      else if i + 1 + outlet.between = k then [.arrived ⟨outlet.port, m⟩] else [] := by
  by_cases h : i = k
  · simp [historyOf, Event.incident?, h]
  · by_cases h' : i + 1 + outlet.between = k <;> simp [historyOf, Event.incident?, h, h']

theorem gains_add (r : Results) (i : Nat) (e : Envelope) (reaction : Reaction) :
    r.Gains [.took i e reaction] (r.add reaction) where
  cache := by
    have hpublished : publishedIn [.took i e reaction] = reaction.published :=
      List.append_nil reaction.published
    rw [hpublished]
    rfl
  alerts := congrArg (r.alerts ++ ·) (List.append_nil reaction.alerts).symm

/-- Without anything to send, a process takes its turn. -/
theorem makes_of_turn (hp : x.network.processes[i]? = some p) (hout : p.outbox = [])
    (hturn : Network.turn now x.network.results p = some (r', p')) :
    x.Makes (p.events now i)
      ⟨{ x.network with results := r', processes := x.network.processes.set i p' }, x.feeds,
        x.log ++ p.events now i⟩ := by
  -- what is neither taken nor sent leaves no event
  have hquiet : p.events now i = [] → Process.Changes [] p p' →
      x.network.results.Gains [] r' → x.Makes (p.events now i)
        ⟨{ x.network with results := r', processes := x.network.processes.set i p' }, x.feeds,
          x.log ++ p.events now i⟩ := by
    intro hevents hchanges hgains
    rw [hevents]
    exact ⟨rfl, rel_set hp hchanges fun _ _ => rfl, nofun, fun _ => rfl, hgains⟩
  rw [Network.turn] at hturn
  split at hturn
  · rename_i hphase
    cases hin : p.inbox with
    | nil =>
      rw [hin] at hturn
      cases hturn
    | cons e inbox =>
      rw [hin] at hturn
      have hevents : p.events now i = [.took i e (p.stage.receive now e).2.1] := by
        rw [Process.events, hout, hphase, hin]
      cases hturn
      rw [hevents]
      refine ⟨rfl, rel_set hp ?_ fun k hk => ?_, ?_, fun _ => rfl, gains_add ..⟩
      · rw [historyOf_took, if_pos rfl]
        exact .takes now hout hphase hin
      · rw [historyOf_took, if_neg (Ne.symm hk)]
      · simpa [Event.actor?] using (List.getElem?_eq_some_iff.1 hp).1
  · rename_i cause hphase
    cases hturn
    exact hquiet (by rw [Process.events, hout, hphase]) (.records hphase)
      ⟨rfl, (List.append_nil _).symm⟩
  · rename_i failure hphase
    cases hturn
    exact hquiet (by rw [Process.events, hout, hphase]) (.leaves hout hphase)
      ⟨rfl, (List.append_nil _).symm⟩
  · cases hturn
  · cases hturn

/-- A message is taken by the process at the end of its way. -/
theorem rel_sent_taken {outlet : Outlet} {m : Message} {outbox : List (Outlet × Message)}
    {q : Process} (hp : processes[i]? = some p) (hout : p.outbox = (outlet, m) :: outbox)
    (hq : processes[i + 1 + outlet.between]? = some q) (hopen : q.phase.isOpen = true) (k : Nat) :
    Option.Rel (Process.Changes (historyOf k [.sent i outlet m])) processes[k]?
      ((processes.set i { p with outbox }).set (i + 1 + outlet.between)
        { q with inbox := q.inbox ++ [⟨outlet.port, m⟩] })[k]? := by
  refine rel_of_map (f := fun k => (fun p => if k = i + 1 + outlet.between then
    { q with inbox := q.inbox ++ [⟨outlet.port, m⟩] } else p) ∘
      fun p' => if k = i then { p with outbox } else p') (fun k => ?_) (fun k p' hp' => ?_) k
  · rw [getElem?_set_eq_map, getElem?_set_eq_map, Option.map_map]
  · rw [historyOf_sent]
    dsimp only [Function.comp_apply]
    by_cases hi : i = k
    · subst hi
      rw [hp] at hp'
      cases hp'
      rw [if_pos rfl, if_pos rfl, if_neg (by omega)]
      exact .sends hout
    · rw [if_neg hi, if_neg (Ne.symm hi)]
      by_cases hk : i + 1 + outlet.between = k
      · rw [hk, hp'] at hq
        cases hq
        rw [if_pos hk, if_pos hk.symm]
        exact .accepts _ hopen
      · rw [if_neg hk, if_neg (Ne.symm hk)]
        exact .idle p'

/-- A message is lost to a process that has closed. -/
theorem rel_sent_gone {outlet : Outlet} {m : Message} {outbox : List (Outlet × Message)}
    (hp : processes[i]? = some p) (hout : p.outbox = (outlet, m) :: outbox)
    (hclosed : ∀ q, processes[i + 1 + outlet.between]? = some q → q.phase.isOpen = false)
    (k : Nat) :
    Option.Rel (Process.Changes (historyOf k [.sent i outlet m])) processes[k]?
      (processes.set i { p with outbox })[k]? := by
  refine rel_of_map (getElem?_set_eq_map processes i _) (fun k p' hp' => ?_) k
  rw [historyOf_sent]
  by_cases hi : i = k
  · subst hi
    rw [hp] at hp'
    cases hp'
    rw [if_pos rfl, if_pos rfl]
    exact .sends hout
  · rw [if_neg hi, if_neg (Ne.symm hi)]
    split
    · rename_i hk
      exact .misses _ (hclosed p' (hk ▸ hp'))
    · exact .idle p'

theorem makes_of_step (h : x.move? (.step i now) = some x') : ∃ events, x.Makes events x' := by
  obtain ⟨p, hp, h⟩ := Option.bind_eq_some_iff.1 h
  obtain ⟨n, hn, h⟩ := Option.bind_eq_some_iff.1 h
  cases h
  refine ⟨p.events now i, ?_⟩
  rw [Network.step?, Network.stepAt_eq, hp, Option.bind_some, Option.map_map] at hn
  obtain ⟨⟨r', p', rest⟩, hhead, rfl⟩ := Option.map_eq_some_iff.1 hn
  have hi := (List.getElem?_eq_some_iff.1 hp).1
  cases hout : p.outbox with
  | nil =>
    rw [Network.stepHead, hout] at hhead
    obtain ⟨⟨r'', p''⟩, hturn, heq⟩ := Option.map_eq_some_iff.1 hhead
    cases heq
    have hmakes := makes_of_turn hp hout hturn
    rw [← Network.take_append_cons_drop hp] at hmakes
    exact hmakes
  | cons sending outbox =>
    obtain ⟨outlet, m⟩ := sending
    have hevents : p.events now i = [.sent i outlet m] := by
      rw [Process.events, hout]
    rw [Network.stepHead, hout] at hhead
    dsimp only at hhead
    rw [hevents]
    refine ⟨rfl, ?_, by simpa [Event.actor?] using hi, fun _ => rfl, ?_⟩
    -- a stage sends to later stages only, so positions count from the one after it
    · cases hoffer : Network.offerTo x.network.capacity (x.network.processes.drop (i + 1))
          outlet.between ⟨outlet.port, m⟩ with
      | taken rest' =>
        rw [hoffer] at hhead
        cases hhead
        obtain ⟨q, hq, hopen, rfl⟩ := Network.of_offerTo_eq_taken hoffer
        rw [List.getElem?_drop] at hq
        dsimp only [Function.comp_apply]
        rw [Network.take_append_cons_set_drop hp]
        exact rel_sent_taken hp hout hq hopen
      | gone =>
        rw [hoffer] at hhead
        cases hhead
        dsimp only [Function.comp_apply]
        rw [Network.take_append_cons_drop hp]
        refine rel_sent_gone hp hout fun q hq => ?_
        exact Network.of_offerTo_eq_gone hoffer q (by rw [List.getElem?_drop, hq])
      | full =>
        rw [hoffer] at hhead
        cases hhead
    · have hresults : r' = x.network.results := by
        split at hhead
        · cases hhead
          rfl
        · cases hhead
          rfl
        · cases hhead
      rw [hresults]
      exact gains_of_no_reaction _ rfl rfl

theorem makes_of_move? {move : Move} (h : x.move? move = some x') :
    ∃ events, x.Makes events x' := by
  cases move with
  | feed i => exact makes_of_feed h
  | step i now => exact makes_of_step h
  | abort => exact makes_of_abort h

end Execution

end Moves

end SeriesPipeline
