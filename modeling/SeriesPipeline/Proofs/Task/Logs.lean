import SeriesPipeline.Proofs.Stage.Promises
import SeriesPipeline.Proofs.Task.Execution

/-!
# Logs

What has arrived at a process, what it has taken and sent, and how that hangs together for several
processes: what arrives at a port with one outlet was sent on that outlet.
-/

namespace SeriesPipeline

def Incident.arrival? : Incident → Option Envelope
  | .arrived e => some e
  | _ => none

def Incident.taken? : Incident → Option Envelope
  | .took e _ => some e
  | _ => none

def Incident.reaction? : Incident → Option Reaction
  | .took _ reaction => some reaction
  | _ => none

def Incident.sending? : Incident → Option (Outlet × Message)
  | .sent outlet m => some (outlet, m)
  | _ => none

section Parts

variable (history later : List Incident)

def arrivals : List Envelope := history.filterMap Incident.arrival?

def takings : List Envelope := history.filterMap Incident.taken?

def reactions : List Reaction := history.filterMap Incident.reaction?

def sendings : List (Outlet × Message) := history.filterMap Incident.sending?

theorem arrivals_append : arrivals (history ++ later) = arrivals history ++ arrivals later :=
  List.filterMap_append

theorem takings_append : takings (history ++ later) = takings history ++ takings later :=
  List.filterMap_append

theorem reactions_append : reactions (history ++ later) = reactions history ++ reactions later :=
  List.filterMap_append

theorem sendings_append : sendings (history ++ later) = sendings history ++ sendings later :=
  List.filterMap_append

end Parts

/-! ## Several processes -/

section Logs

variable {log : List Event}

/-- The messages that were sent on one outlet. -/
def sentOn (outlet : Outlet) (sent : List (Outlet × Message)) : List Message :=
  (sent.filter (·.1 = outlet)).map (·.2)

theorem sentOn_append (outlet : Outlet) (sent later : List (Outlet × Message)) :
    sentOn outlet (sent ++ later) = sentOn outlet sent ++ sentOn outlet later := by
  rw [sentOn, List.filter_append, List.map_append]
  rfl

/-- Every outlet gets every message in order, as often as it is there. -/
theorem sentOn_broadcast (p : Process) (outlet : Outlet) (messages : List Message) :
    sentOn outlet (p.broadcast messages) =
      messages.flatMap (List.replicate (p.outlets.count outlet)) := by
  induction messages with
  | nil => rfl
  | cons m rest ih =>
    have hfirst : sentOn outlet (p.outlets.map (·, m)) =
        List.replicate (p.outlets.count outlet) m := by
      rw [sentOn, List.filter_map, List.map_map, List.count_eq_length_filter]
      exact List.map_const' ..
    rw [Process.broadcast, List.flatMap_cons, sentOn_append, hfirst, List.flatMap_cons, ← ih]
    rfl

theorem historyOf_cons (k : Nat) (event : Event) (log : List Event) :
    historyOf k (event :: log) = historyOf k [event] ++ historyOf k log :=
  historyOf_append k [event] log

theorem sentOn_sendings_of_sent {i k : Nat} {outlet outlet' : Outlet} {m : Message} :
    sentOn outlet (sendings (historyOf k [.sent i outlet' m])) =
      if i = k ∧ outlet' = outlet then [m] else [] := by
  rw [Execution.historyOf_sent]
  by_cases hi : i = k
  · rw [if_pos hi]
    by_cases ho : outlet' = outlet <;> simp [sendings, Incident.sending?, sentOn, hi, ho]
  · rw [if_neg hi, if_neg (c := _ ∧ _) fun h => hi h.1]
    split <;> rfl

theorem messagesAt_arrivals_of_sent {i k port : Nat} {outlet : Outlet} {m : Message} :
    messagesAt port (arrivals (historyOf k [.sent i outlet m])) =
      if i + 1 + outlet.between = k ∧ outlet.port = port then [m] else [] := by
  rw [Execution.historyOf_sent]
  by_cases hi : i = k
  · rw [if_pos hi, if_neg (by omega)]
    rfl
  · rw [if_neg hi]
    by_cases hk : i + 1 + outlet.between = k
    · by_cases hport : outlet.port = port <;>
        simp [arrivals, Incident.arrival?, messagesAt, hk, hport]
    · rw [if_neg hk, if_neg fun h => hk h.1]
      rfl

/-- Where a port has one outlet, what arrives at the port is what was sent on the outlet. -/
theorem messagesAt_arrivals (i : Nat) (outlet : Outlet)
    (hfed : ∀ m, .fed (i + 1 + outlet.between) m ∉ log)
    (hsent : ∀ i' outlet' m, .sent i' outlet' m ∈ log →
      i' + 1 + outlet'.between = i + 1 + outlet.between → outlet'.port = outlet.port → i' = i) :
    messagesAt outlet.port (arrivals (historyOf (i + 1 + outlet.between) log)) =
      sentOn outlet (sendings (historyOf i log)) := by
  induction log with
  | nil => rfl
  | cons event rest ih =>
    rw [historyOf_cons, historyOf_cons i, arrivals_append, messagesAt_append, sendings_append,
      sentOn_append, ih (fun m hm => hfed m (List.mem_cons_of_mem _ hm))
        fun i' outlet' m hm => hsent i' outlet' m (List.mem_cons_of_mem _ hm)]
    congr 1
    cases event with
    | fed k m =>
      have hk : k ≠ i + 1 + outlet.between := by
        rintro rfl
        exact hfed m List.mem_cons_self
      rw [Execution.historyOf_fed, if_neg hk, Execution.historyOf_fed]
      split <;> rfl
    | took k e reaction =>
      rw [Execution.historyOf_took, Execution.historyOf_took]
      split <;> split <;> rfl
    | sent k outlet' m =>
      rw [messagesAt_arrivals_of_sent, sentOn_sendings_of_sent]
      refine if_congr ⟨fun ⟨hk, hport⟩ => ?_, fun ⟨hk, houtlet⟩ => ?_⟩ rfl rfl
      · have hi := hsent k outlet' m List.mem_cons_self hk hport
        obtain ⟨between, port⟩ := outlet
        obtain ⟨between', port'⟩ := outlet'
        have hbetween : between' = between := by
          dsimp only at hk
          omega
        exact ⟨hi, congrArg₂ Outlet.mk hbetween hport⟩
      · rw [hk, houtlet]
        exact ⟨rfl, rfl⟩

theorem Event.eq_sent_of_incident? {event : Event} {k : Nat} {outlet : Outlet} {m : Message}
    (h : event.incident? k = some (.sent outlet m)) : event = .sent k outlet m := by
  cases event <;> simp only [incident?] at h <;> split at h <;> try cases h
  · rename_i hk
    rw [hk]
  · split at h <;> cases h

theorem Event.eq_took_of_incident? {event : Event} {k : Nat} {e : Envelope} {reaction : Reaction}
    (h : event.incident? k = some (.took e reaction)) : event = .took k e reaction := by
  cases event <;> simp only [incident?] at h <;> split at h <;> try cases h
  · split at h <;> cases h
  · rename_i hk
    rw [hk]

theorem mem_arrivals {k : Nat} {e : Envelope} (h : e ∈ arrivals (historyOf k log)) :
    (∃ m, .fed k m ∈ log ∧ e = ⟨0, m⟩) ∨
      ∃ i outlet m, .sent i outlet m ∈ log ∧ i + 1 + outlet.between = k ∧ e = ⟨outlet.port, m⟩ := by
  obtain ⟨incident, hincident, he⟩ := List.mem_filterMap.1 h
  obtain ⟨event, hevent, hk⟩ := List.mem_filterMap.1 hincident
  cases event with
  | fed i m =>
    obtain ⟨rfl, heq⟩ := Option.ite_none_right_eq_some.1 hk
    cases heq
    cases he
    exact .inl ⟨m, hevent, rfl⟩
  | took i e' reaction =>
    obtain ⟨-, heq⟩ := Option.ite_none_right_eq_some.1 hk
    cases heq
    cases he
  | sent i outlet m =>
    rw [Event.incident?] at hk
    split at hk
    · cases hk
      cases he
    · obtain ⟨hto, heq⟩ := Option.ite_none_right_eq_some.1 hk
      cases heq
      cases he
      exact .inr ⟨i, outlet, m, hevent, hto, rfl⟩

theorem mem_sendings {k : Nat} {outlet : Outlet} {m : Message} :
    (outlet, m) ∈ sendings (historyOf k log) ↔ .sent k outlet m ∈ log := by
  constructor
  · intro h
    obtain ⟨incident, hincident, hsending⟩ := List.mem_filterMap.1 h
    obtain ⟨event, hevent, hk⟩ := List.mem_filterMap.1 hincident
    cases incident with
    | sent outlet m =>
      cases hsending
      obtain rfl := Event.eq_sent_of_incident? hk
      exact hevent
    | arrived e => cases hsending
    | took e reaction => cases hsending
  · exact fun h => List.mem_filterMap.2 ⟨.sent outlet m,
      List.mem_filterMap.2 ⟨_, h, by rw [Event.incident?, if_pos rfl]⟩, rfl⟩

theorem mem_fedTo {k : Nat} {m : Message} : m ∈ fedTo k log ↔ .fed k m ∈ log := by
  refine ⟨fun h => ?_, fun h => List.mem_filterMap.2 ⟨_, h, if_pos rfl⟩⟩
  obtain ⟨event, hevent, hm⟩ := List.mem_filterMap.1 h
  cases event with
  | fed i m' =>
    obtain ⟨rfl, heq⟩ := Option.ite_none_right_eq_some.1 hm
    cases heq
    exact hevent
  | sent i outlet m' => cases hm
  | took i e reaction => cases hm

theorem mem_reactions {k : Nat} {reaction : Reaction} :
    reaction ∈ reactions (historyOf k log) ↔ ∃ e, .took k e reaction ∈ log := by
  constructor
  · intro h
    obtain ⟨incident, hincident, hreaction⟩ := List.mem_filterMap.1 h
    obtain ⟨event, hevent, hk⟩ := List.mem_filterMap.1 hincident
    cases incident with
    | took e reaction =>
      cases hreaction
      obtain rfl := Event.eq_took_of_incident? hk
      exact ⟨e, hevent⟩
    | arrived e => cases hreaction
    | sent outlet m => cases hreaction
  · rintro ⟨e, h⟩
    exact List.mem_filterMap.2 ⟨.took e reaction,
      List.mem_filterMap.2 ⟨_, h, by rw [Event.incident?, if_pos rfl]⟩, rfl⟩

/-- A process to which nothing is sent gets what it is given from outside. -/
theorem arrivals_of_not_sent {k : Nat}
    (h : ∀ i outlet m, .sent i outlet m ∈ log → i + 1 + outlet.between ≠ k) :
    arrivals (historyOf k log) = (fedTo k log).map (⟨0, ·⟩) := by
  rw [arrivals, historyOf, List.filterMap_filterMap, fedTo, List.map_filterMap]
  refine List.filterMap_congr fun event hevent => ?_
  cases event with
  | fed i m =>
    by_cases hi : i = k <;> simp [Event.incident?, hi, Incident.arrival?]
  | took i e reaction =>
    by_cases hi : i = k <;> simp [Event.incident?, hi, Incident.arrival?]
  | sent i outlet m =>
    have hk := h i outlet m hevent
    by_cases hi : i = k <;> simp [Event.incident?, hi, hk, Incident.arrival?]

/-- Where only one process gives out what is looked for, its history has all of it. -/
theorem filter_flatMap_reactions {α : Type} {f : Reaction → List α} {q : α → Bool} {k : Nat}
    (h : ∀ i e reaction, .took i e reaction ∈ log → i ≠ k → (f reaction).filter q = []) :
    ((log.filterMap Event.reaction?).flatMap f).filter q =
      ((reactions (historyOf k log)).flatMap f).filter q := by
  induction log with
  | nil => rfl
  | cons event rest ih =>
    have hrest := ih fun i e reaction hmem => h i e reaction (List.mem_cons_of_mem _ hmem)
    rw [historyOf_cons, reactions_append, List.flatMap_append, List.filter_append, ← hrest]
    cases event with
    | fed i m =>
      rw [Execution.historyOf_fed]
      split <;> rfl
    | sent i outlet m =>
      rw [Execution.historyOf_sent]
      split
      · rfl
      · split <;> rfl
    | took i e reaction =>
      have hreaction : (Event.took i e reaction).reaction? = some reaction := rfl
      rw [List.filterMap_cons_some hreaction, List.flatMap_cons, List.filter_append,
        Execution.historyOf_took]
      by_cases hi : i = k
      · rw [if_pos hi]
        exact congrArg (fun l => l.filter q ++ _) (List.append_nil _).symm
      · rw [if_neg hi, h i e reaction List.mem_cons_self hi]
        rfl

end Logs

end SeriesPipeline
