import SeriesPipeline.Proofs.Registry.Handles
import SeriesPipeline.Proofs.Task.Rejections

/-!
# Stops by name

Callers use the tasks of a registry side by side. A stop finds its task by name, closes its input,
waits until it has ended, and then forgets the name, whichever task is registered under it by then.
That is the task it has waited for, unless another stop that had found the same task forgot the name
first.
-/

namespace SeriesPipeline

/-- Whether the call of a client has returned. -/
def Client.hasReturned : Client → Bool
  | .call _ .returned => true
  | _ => false

/-- Somebody who has found a task by its name. -/
structure Caller where
  handle : TaskHandle
  client : Client
  /-- Whether the name is to be forgotten once the task has ended. -/
  stops : Bool
  /-- Whether the name has been forgotten. -/
  done : Bool

/-- A registry and all who use it. -/
structure Service where
  registry : Registry
  /-- In the order in which they found their tasks. -/
  callers : List Caller

namespace Service

inductive Move where
  | start (b : Blueprint)
  /-- Somebody finds a task and is to be its client. -/
  | use (name : String) (client : Client)
  | stop (name : String)
  /-- A caller goes on with its task. -/
  | act (caller : Nat)
  /-- A stop goes on once the task has ended. -/
  | forget (caller : Nat)
  | task (h : TaskHandle) (move : PipelineTask.Move)
  /-- Somebody sets the clock. -/
  | set (t : Instant)

def start (clock : Clock) (settings : Settings) : Service := ⟨.new clock settings, []⟩

/-- A task of the registry with some of its clients. -/
def traffic? (s : Service) (h : TaskHandle) (clients : List Client) : Option Traffic :=
  (s.registry.task? h).map fun t => ⟨s.registry.clock, t, clients, [], [], []⟩

def setTraffic (s : Service) (h : TaskHandle) (x : Traffic) : Service :=
  { s with registry := { s.registry with clock := x.clock }.setTask h x.task }

/-- Without a task under the name, nothing comes of it. -/
def enter (s : Service) (name : String) (client : Client) (stops : Bool) : Service :=
  match s.registry.find name with
  | .ok handle => { s with callers := s.callers ++ [⟨handle, client, stops, false⟩] }
  | .error _ => s

def move? (s : Service) : Move → Option Service
  | .start b =>
    match s.registry.start b with
    | .ok (registry, _) => some { s with registry }
    | .error _ => some s
  | .use name client => some (s.enter name client false)
  | .stop name => some (s.enter name (.call .close .fresh) true)
  | .act i => do
    let c ← s.callers[i]?
    let x ← (← s.traffic? c.handle [c.client]).move? (.client 0)
    let client ← x.clients.head?
    return { s.setTraffic c.handle x with callers := s.callers.set i { c with client } }
  | .forget i => do
    let c ← s.callers[i]?
    let t ← s.registry.task? c.handle
    if c.stops && !c.done && c.client.hasReturned && t.finished then
      return ⟨s.registry.release c.handle.name, s.callers.set i { c with done := true }⟩
    else none
  | .task h move => do
    let x ← (← s.traffic? h []).move? (.task move)
    return s.setTraffic h x
  | .set t => some { s with registry := s.registry.setClock t }

/-- Makes moves one after the other, if all of them can be made. -/
def run (s : Service) (moves : List Move) : Option Service := moves.foldlM move? s

/-- What a move comes to. -/
inductive Moves (s : Service) : Service → Prop where
  | stays : Moves s s
  | starts {registry : Registry} {name : String} {t : PipelineTask}
    (hstarts : s.registry.Starts registry name t) : Moves s { s with registry }
  | enters {c : Caller} (hfind : s.registry.find c.handle.name = .ok c.handle)
    (hdone : c.done = false) : Moves s { s with callers := s.callers ++ [c] }
  | acts {i : Nat} {c : Caller} {t : PipelineTask} {x : Traffic} {client : Client}
    (hc : s.callers[i]? = some c) (ht : s.registry.task? c.handle = some t)
    (hlater : t.Later x.task) :
    Moves s { s.setTraffic c.handle x with callers := s.callers.set i { c with client } }
  | forgets {i : Nat} {c : Caller} {t : PipelineTask} (hc : s.callers[i]? = some c)
    (hstops : c.stops = true) (hdone : c.done = false)
    (ht : s.registry.task? c.handle = some t) (hfinished : t.finished = true) :
    Moves s ⟨s.registry.release c.handle.name, s.callers.set i { c with done := true }⟩
  | goes {h : TaskHandle} {t : PipelineTask} {x : Traffic} (ht : s.registry.task? h = some t)
    (hlater : t.Later x.task) : Moves s (s.setTraffic h x)
  | sets (t : Instant) : Moves s { s with registry := s.registry.setClock t }

variable {s s' : Service} {h : TaskHandle}

theorem moves_enter (s : Service) (name : String) (client : Client) (stops : Bool) :
    s.Moves (s.enter name client stops) := by
  unfold enter
  cases hfind : s.registry.find name with
  | error cause => exact .stays
  | ok handle =>
    obtain rfl := (Registry.find_eq_ok_iff.1 hfind).1
    exact .enters hfind rfl

theorem later_of_traffic? {clients : List Client} {x x' : Traffic} {move : Traffic.Move}
    (hx : s.traffic? h clients = some x) (hmove : x.move? move = some x') :
    ∃ t, s.registry.task? h = some t ∧ t.Later x'.task := by
  obtain ⟨t, ht, rfl⟩ := Option.map_eq_some_iff.1 hx
  exact ⟨t, ht, (Traffic.moves_of_move? hmove).later⟩

theorem moves_of_move? {move : Move} (hmove : s.move? move = some s') : s.Moves s' := by
  cases move with
  | start b =>
    rw [move?] at hmove
    cases hstart : s.registry.start b with
    | ok started =>
      rw [hstart] at hmove
      cases hmove
      exact .starts (Registry.starts_of_start hstart)
    | error cause =>
      rw [hstart] at hmove
      cases hmove
      exact .stays
  | use name client =>
    cases hmove
    exact s.moves_enter name client false
  | stop name =>
    cases hmove
    exact s.moves_enter name _ true
  | act i =>
    obtain ⟨c, hc, hmove⟩ := Option.bind_eq_some_iff.1 hmove
    obtain ⟨x, hx, hmove⟩ := Option.bind_eq_some_iff.1 hmove
    obtain ⟨x', hx', hmove⟩ := Option.bind_eq_some_iff.1 hmove
    obtain ⟨client, -, hmove⟩ := Option.bind_eq_some_iff.1 hmove
    cases hmove
    obtain ⟨t, ht, hlater⟩ := later_of_traffic? hx hx'
    exact .acts hc ht hlater
  | forget i =>
    obtain ⟨c, hc, hmove⟩ := Option.bind_eq_some_iff.1 hmove
    obtain ⟨t, ht, hmove⟩ := Option.bind_eq_some_iff.1 hmove
    obtain ⟨hends, heq⟩ := Option.ite_none_right_eq_some.1 hmove
    cases heq
    simp only [Bool.and_eq_true, Bool.not_eq_true'] at hends
    obtain ⟨⟨⟨hstops, hdone⟩, -⟩, hfinished⟩ := hends
    exact .forgets hc hstops hdone ht hfinished
  | task h move =>
    obtain ⟨x, hx, hmove⟩ := Option.bind_eq_some_iff.1 hmove
    obtain ⟨x', hx', hmove⟩ := Option.bind_eq_some_iff.1 hmove
    cases hmove
    obtain ⟨t, ht, hlater⟩ := later_of_traffic? hx hx'
    exact .goes ht hlater
  | set t =>
    cases hmove
    exact .sets t

/-! ## What lasts -/

/-- Every caller keeps its number and its task, and what it has done. -/
def Lasts (s s' : Service) : Prop :=
  ∀ (i : Nat) (c : Caller), s.callers[i]? = some c → ∃ c' : Caller, s'.callers[i]? = some c' ∧
    c'.handle = c.handle ∧ c'.stops = c.stops ∧ (c.done = true → c'.done = true)

theorem lasts_of_eq (h : s'.callers = s.callers) : s.Lasts s' :=
  fun _ c hc => ⟨c, h ▸ hc, rfl, rfl, id⟩

theorem lasts_set {i : Nat} {c c' : Caller} (hc : s.callers[i]? = some c)
    (hcallers : s'.callers = s.callers.set i c') (hhandle : c'.handle = c.handle)
    (hstops : c'.stops = c.stops) (hdone : c.done = true → c'.done = true) : s.Lasts s' := by
  intro j d hd
  rw [hcallers]
  by_cases hj : i = j
  · subst hj
    cases hc.symm.trans hd
    exact ⟨c', List.getElem?_set_self (List.getElem?_eq_some_iff.1 hc).1, hhandle, hstops, hdone⟩
  · exact ⟨d, (List.getElem?_set_ne hj).trans hd, rfl, rfl, id⟩

theorem Moves.lasts (hmoves : s.Moves s') : s.Lasts s' := by
  cases hmoves with
  | stays => exact lasts_of_eq rfl
  | starts => exact lasts_of_eq rfl
  | enters =>
    intro i c hc
    have hlt := (List.getElem?_eq_some_iff.1 hc).1
    exact ⟨c, (List.getElem?_append_left hlt).trans hc, rfl, rfl, id⟩
  | acts hc => exact lasts_set hc rfl rfl rfl id
  | forgets hc => exact lasts_set hc rfl rfl rfl fun _ => rfl
  | goes => exact lasts_of_eq rfl
  | sets => exact lasts_of_eq rfl

/-- Caller number `i` has found a task to stop it, and has forgotten its name. -/
def Forgot (s : Service) (i : Nat) (h : TaskHandle) : Prop :=
  ∃ c, s.callers[i]? = some c ∧ c.handle = h ∧ c.stops = true ∧ c.done = true

/-- Two stops found the same earlier task of a name, and both forgot the name. -/
def Overlaps (s : Service) (h : TaskHandle) : Prop :=
  ∃ earlier : TaskHandle, earlier.name = h.name ∧ earlier.number < h.number ∧
    ∃ i j : Nat, i ≠ j ∧ s.Forgot i earlier ∧ s.Forgot j earlier

/-- A task is registered, or it is known why not. -/
def Accounts (s : Service) (h : TaskHandle) : Prop :=
  s.registry.find h.name = .ok h ∨ (∃ i, s.Forgot i h) ∨ s.Overlaps h

theorem Forgot.lasts {i : Nat} (hforgot : s.Forgot i h) (hlasts : s.Lasts s') : s'.Forgot i h := by
  obtain ⟨c, hc, hhandle, hstops, hdone⟩ := hforgot
  obtain ⟨c', hc', hhandle', hstops', hdone'⟩ := hlasts i c hc
  exact ⟨c', hc', hhandle'.trans hhandle, hstops'.trans hstops, hdone' hdone⟩

theorem Overlaps.lasts (hoverlaps : s.Overlaps h) (hlasts : s.Lasts s') : s'.Overlaps h := by
  obtain ⟨earlier, hname, hnumber, i, j, hij, hi, hj⟩ := hoverlaps
  exact ⟨earlier, hname, hnumber, i, j, hij, hi.lasts hlasts, hj.lasts hlasts⟩

theorem Accounts.lasts (haccounts : s.Accounts h) (hlasts : s.Lasts s')
    (hfind : s.registry.find h.name = .ok h → s'.registry.find h.name = .ok h) : s'.Accounts h := by
  rcases haccounts with hfound | ⟨i, hi⟩ | hoverlaps
  · exact .inl (hfind hfound)
  · exact .inr (.inl ⟨i, hi.lasts hlasts⟩)
  · exact .inr (.inr (hoverlaps.lasts hlasts))

/-- All tasks of one registry are tasks of the other, further on. -/
def TasksLast (r r' : Registry) : Prop :=
  ∀ h t, r.task? h = some t → ∃ t', r'.task? h = some t' ∧ t.Later t'

theorem task?_setTraffic {t : PipelineTask} (ht : s.registry.task? h = some t) (x : Traffic)
    (h' : TaskHandle) : (s.setTraffic h x).registry.task? h' =
      if h' = h then some x.task else s.registry.task? h' :=
  Registry.task?_setTask (r := { s.registry with clock := x.clock }) ht x.task

theorem find_setTraffic {x : Traffic} {h' : TaskHandle} :
    (s.setTraffic h x).registry.find h'.name = .ok h' ↔ s.registry.find h'.name = .ok h' :=
  Registry.find_setTask (r := { s.registry with clock := x.clock })

theorem tasksLast_setTraffic {t : PipelineTask} {x : Traffic} (ht : s.registry.task? h = some t)
    (hlater : t.Later x.task) : TasksLast s.registry (s.setTraffic h x).registry := by
  intro h' t' ht'
  rw [task?_setTraffic ht]
  split
  · rename_i hh
    cases ht.symm.trans (hh ▸ ht')
    exact ⟨x.task, rfl, hlater⟩
  · exact ⟨t', ht', .refl t'⟩

theorem Moves.tasksLast (hmoves : s.Moves s') : TasksLast s.registry s'.registry := by
  have hrefl : TasksLast s.registry s.registry := fun _ t ht => ⟨t, ht, .refl t⟩
  cases hmoves with
  | stays => exact hrefl
  | starts hstarts => exact fun h t ht => ⟨t, hstarts.task? ht, .refl t⟩
  | enters => exact hrefl
  | acts _ ht hlater => exact tasksLast_setTraffic ht hlater
  | forgets => exact fun h t ht => ⟨t, (s.registry.task?_release _ h).trans ht, .refl t⟩
  | goes ht hlater => exact tasksLast_setTraffic ht hlater
  | sets => exact hrefl

/-! ## What is registered -/

/-- A caller has a task, and has forgotten its name only after the task ended. -/
def Holds (r : Registry) (c : Caller) : Prop :=
  ∃ t, r.task? c.handle = some t ∧ (c.done = true → t.finished = true)

theorem Holds.last {r r' : Registry} {c : Caller} (hholds : Holds r c) (hlast : TasksLast r r') :
    Holds r' c := by
  obtain ⟨t, ht, hfinished⟩ := hholds
  obtain ⟨t', ht', hlater⟩ := hlast c.handle t ht
  exact ⟨t', ht', fun hdone => hlater.finished (hfinished hdone)⟩

/-- All callers have tasks, and all tasks are accounted for. -/
structure Sound (s : Service) : Prop where
  held : ∀ c ∈ s.callers, Holds s.registry c
  kept : ∀ h t, s.registry.task? h = some t → s.Accounts h

theorem sound_start (clock : Clock) (settings : Settings) : (start clock settings).Sound where
  held _ hc := nomatch hc
  kept h t ht := by
    cases (Registry.task?_new clock settings h).symm.trans ht

theorem Sound.held_moves (hs : s.Sound) (hmoves : s.Moves s') :
    ∀ c ∈ s'.callers, Holds s'.registry c := by
  have hlast := hmoves.tasksLast
  have hold : ∀ c ∈ s.callers, Holds s'.registry c := fun c hc => (hs.held c hc).last hlast
  cases hmoves with
  | stays => exact hold
  | starts => exact hold
  | @enters c hfind hdone =>
    refine List.forall_mem_append.2 ⟨hold, List.forall_mem_singleton.2 ?_⟩
    obtain ⟨t, ht⟩ := Registry.task?_of_find hfind
    exact ⟨t, ht, fun h => absurd (hdone.symm.trans h) Bool.false_ne_true⟩
  | @acts i c t x client hc =>
    intro d hd
    rcases List.mem_or_eq_of_mem_set hd with hd | rfl
    · exact hold d hd
    · exact hold c (List.mem_of_getElem? hc)
  | @forgets i c t hc _ _ ht hfinished =>
    intro d hd
    rcases List.mem_or_eq_of_mem_set hd with hd | rfl
    · exact hold d hd
    · exact ⟨t, (s.registry.task?_release _ _).trans ht, fun _ => hfinished⟩
  | goes => exact hold
  | sets => exact hold

theorem Sound.accounts_setTraffic (hs : s.Sound) {t : PipelineTask} {x : Traffic}
    (ht : s.registry.task? h = some t) (hlasts : s.Lasts s')
    (hregistry : s'.registry = (s.setTraffic h x).registry) :
    ∀ h' t', s'.registry.task? h' = some t' → s'.Accounts h' := by
  intro h' t' ht'
  obtain ⟨t', ht'⟩ : ∃ t', s.registry.task? h' = some t' := by
    rw [hregistry, task?_setTraffic ht] at ht'
    split at ht'
    · rename_i hh
      exact ⟨t, hh ▸ ht⟩
    · exact ⟨t', ht'⟩
  refine (hs.kept h' t' ht').lasts hlasts fun hfind => ?_
  rw [hregistry]
  exact find_setTraffic.2 hfind

/-- A later task is registered under the name of a stop that is not done. -/
theorem Sound.overlaps_of_find (hs : s.Sound) {i : Nat} {c : Caller} {t : PipelineTask}
    (hc : s.callers[i]? = some c) (hdone : c.done = false)
    (ht : s.registry.task? c.handle = some t) (hfind : s.registry.find h.name = .ok h)
    (hname : h.name = c.handle.name) (hne : h ≠ c.handle) (hforgot : s'.Forgot i c.handle)
    (hlasts : s.Lasts s') : s'.Overlaps h := by
  have hnumber : c.handle.number < h.number := by
    obtain ⟨-, -, hlength⟩ := Registry.find_eq_ok_iff.1 hfind
    have hlt := (List.getElem?_eq_some_iff.1 ht).1
    rw [← hname, hlength] at hlt
    refine lt_of_le_of_ne (Nat.le_of_lt_succ hlt) fun heq => hne ?_
    exact (TaskHandle.mk.injEq ..).mpr ⟨hname, heq.symm⟩
  rcases hs.kept c.handle t ht with hfind' | ⟨j, hj⟩ | ⟨earlier, hname', hlt, hboth⟩
  · exact absurd (Registry.eq_of_find hfind hfind' hname) hne
  · -- the other stop is done, and this one was not
    have hij : i ≠ j := by
      rintro rfl
      obtain ⟨d, hd, -, -, hdone'⟩ := hj
      cases hc.symm.trans hd
      cases hdone.symm.trans hdone'
    exact ⟨c.handle, hname.symm, hnumber, i, j, hij, hforgot, hj.lasts hlasts⟩
  · exact Overlaps.lasts ⟨earlier, hname'.trans hname.symm, hlt.trans hnumber, hboth⟩ hlasts

/-- A stop forgets the name of its task. If a later task is registered under it, some other stop of
the same task has forgotten the name before. -/
theorem Sound.accounts_release (hs : s.Sound) {i : Nat} {c : Caller} {t : PipelineTask}
    (hc : s.callers[i]? = some c) (hdone : c.done = false)
    (ht : s.registry.task? c.handle = some t) (hforgot : s'.Forgot i c.handle)
    (hlasts : s.Lasts s') (hregistry : s'.registry = s.registry.release c.handle.name) :
    ∀ h' t', s'.registry.task? h' = some t' → s'.Accounts h' := by
  intro h' t' ht'
  rw [hregistry, Registry.task?_release] at ht'
  by_cases hname : h'.name = c.handle.name
  · rcases hs.kept h' t' ht' with hfind | ⟨j, hj⟩ | hoverlaps
    · by_cases hh : h' = c.handle
      · exact .inr (.inl ⟨i, hh ▸ hforgot⟩)
      · exact .inr (.inr (hs.overlaps_of_find hc hdone ht hfind hname hh hforgot hlasts))
    · exact .inr (.inl ⟨j, hj.lasts hlasts⟩)
    · exact .inr (.inr (hoverlaps.lasts hlasts))
  · refine (hs.kept h' t' ht').lasts hlasts fun hfind => ?_
    rw [hregistry]
    exact (Registry.find_release hname).2 hfind

theorem Sound.moves (hs : s.Sound) (hmoves : s.Moves s') : s'.Sound := by
  refine ⟨hs.held_moves hmoves, ?_⟩
  have hlasts := hmoves.lasts
  cases hmoves with
  | stays => exact hs.kept
  | @starts registry name t hstarts =>
    intro h t' ht'
    rcases hstarts.of_task? ht' with ht | hfind
    · refine (hs.kept h t' ht).lasts hlasts fun hfind => ?_
      refine (hstarts.find fun hname => ?_).2 hfind
      have hregistered := (Registry.find_eq_ok_iff.1 hfind).2.1
      rw [hname, hstarts.free] at hregistered
      cases hregistered
    · exact .inl hfind
  | enters => exact fun h t ht => (hs.kept h t ht).lasts hlasts id
  | acts _ ht => exact hs.accounts_setTraffic ht hlasts rfl
  | @forgets i c t hc hstops hdone ht =>
    have hlt := (List.getElem?_eq_some_iff.1 hc).1
    exact hs.accounts_release hc hdone ht ⟨_, List.getElem?_set_self hlt, rfl, hstops, rfl⟩
      hlasts rfl
  | goes ht => exact hs.accounts_setTraffic ht hlasts rfl
  | sets => exact hs.kept

/-- What every move keeps, all moves keep. -/
theorem run_induction {P : Service → Prop} (hmoves : ∀ s s', P s → s.Moves s' → P s') (hs : P s)
    {moves : List Move} (hrun : s.run moves = some s') : P s' := by
  induction moves generalizing s with
  | nil =>
    cases hrun
    exact hs
  | cons move rest ih =>
    rw [run, List.foldlM_cons] at hrun
    obtain ⟨next, hmove, hrest⟩ := Option.bind_eq_some_iff.1 hrun
    exact ih (hmoves s next hs (moves_of_move? hmove)) hrest

theorem sound_of_run {clock : Clock} {settings : Settings} {moves : List Move}
    (hrun : (start clock settings).run moves = some s) : s.Sound :=
  run_induction (fun _ _ hs => hs.moves) (sound_start clock settings) hrun

/-- A task that was started is registered under its name until a stop that found this very task has
waited for it to end and forgotten the name, unless two stops have found the same earlier task of
that name. Without such stops, all tasks that have not ended are registered, under names of their
own. -/
theorem find_or_forgot {clock : Clock} {settings : Settings} {moves : List Move}
    (hrun : (start clock settings).run moves = some s) :
    (∀ h t, s.registry.task? h = some t → s.registry.find h.name = .ok h ∨
      (t.finished = true ∧ ∃ i, s.Forgot i h) ∨ s.Overlaps h) ∧
    ∀ h h' t t', s.registry.task? h = some t → s.registry.task? h' = some t' →
      t.finished = false → t'.finished = false → h.name = h'.name →
      h = h' ∨ s.Overlaps h ∨ s.Overlaps h' := by
  have hs := sound_of_run hrun
  have hkept : ∀ h t, s.registry.task? h = some t → s.registry.find h.name = .ok h ∨
      (t.finished = true ∧ ∃ i, s.Forgot i h) ∨ s.Overlaps h := by
    intro h t ht
    refine (hs.kept h t ht).imp_right (Or.imp_left ?_)
    rintro ⟨i, c, hc, rfl, hstops, hdone⟩
    obtain ⟨t', ht', hfinished⟩ := hs.held c (List.mem_of_getElem? hc)
    cases ht.symm.trans ht'
    exact ⟨hfinished hdone, i, c, hc, rfl, hstops, hdone⟩
  have hfound : ∀ h t, s.registry.task? h = some t → t.finished = false →
      s.registry.find h.name = .ok h ∨ s.Overlaps h := by
    intro h t ht hunfinished
    refine (hkept h t ht).imp_right (Or.resolve_left · ?_)
    rintro ⟨hfinished, -⟩
    cases hunfinished.symm.trans hfinished
  refine ⟨hkept, fun h h' t t' ht ht' hunfinished hunfinished' hname => ?_⟩
  rcases hfound h t ht hunfinished with hfind | hoverlaps
  · rcases hfound h' t' ht' hunfinished' with hfind' | hoverlaps'
    · exact .inl (Registry.eq_of_find hfind hfind' hname)
    · exact .inr (.inr hoverlaps')
  · exact .inr (.inl hoverlaps)

/-- The first task has been stopped to the end, and another has been started. -/
theorem find_or_forgot_again :
    let moves : List Move := [.start onlySource, .stop "p"] ++ List.replicate 3 (.act 0) ++
      List.replicate 2 (.task ⟨"p", 0⟩ (.step 0)) ++
      [.task ⟨"p", 0⟩ .shut, .task ⟨"p", 0⟩ .finish, .forget 0, .start onlySource]
    ∃ s t, (start ⟨⟨0⟩⟩ .standard).run moves = some s ∧
      s.registry.task? ⟨"p", 1⟩ = some t ∧ t.finished = false ∧
      s.registry.find "p" = .ok ⟨"p", 1⟩ := by
  intro moves
  obtain ⟨s, t, hrun, ht, hunfinished, hcallers⟩ :
      ∃ s t, (start ⟨⟨0⟩⟩ .standard).run moves = some s ∧
        s.registry.task? ⟨"p", 1⟩ = some t ∧ t.finished = false ∧ s.callers.length = 1 := by
    with_unfolding_all exact ⟨_, _, rfl, rfl, rfl, rfl⟩
  refine ⟨s, t, hrun, ht, hunfinished, ?_⟩
  rcases (find_or_forgot hrun).1 ⟨"p", 1⟩ t ht with hfind | ⟨hfinished, -⟩ | hoverlaps
  · exact hfind
  · cases hunfinished.symm.trans hfinished
  · obtain ⟨-, -, -, i, j, hij, ⟨c, hc, -⟩, d, hd, -⟩ := hoverlaps
    have hi := (List.getElem?_eq_some_iff.1 hc).1
    have hj := (List.getElem?_eq_some_iff.1 hd).1
    omega

/-- Two stops find the first task. The second of them forgets the name after another task was started
under it, which nobody has closed, and a third task can be started besides. -/
theorem find_or_forgot_missing :
    let moves : List Move := [.start onlySource, .stop "p", .stop "p"] ++
      List.replicate 3 (.act 0) ++ List.replicate 2 (.act 1) ++
      List.replicate 2 (.task ⟨"p", 0⟩ (.step 0)) ++
      [.task ⟨"p", 0⟩ .shut, .task ⟨"p", 0⟩ .finish, .forget 0, .start onlySource, .forget 1]
    ∃ s t, (start ⟨⟨0⟩⟩ .standard).run moves = some s ∧
      s.registry.task? ⟨"p", 1⟩ = some t ∧ t.finished = false ∧ t.isClosed = false ∧
      (s.callers.all fun c => c.handle ≠ ⟨"p", 1⟩) = true ∧ (s.registry.find "p").isOk = false ∧
      ∃ s' t' t'', s.run [.start onlySource] = some s' ∧
        s'.registry.task? ⟨"p", 1⟩ = some t' ∧ t'.finished = false ∧
        s'.registry.task? ⟨"p", 2⟩ = some t'' ∧ t''.finished = false := by
  with_unfolding_all
    exact ⟨_, _, rfl, rfl, rfl, rfl, rfl, rfl, _, _, _, rfl, rfl, rfl, rfl, rfl⟩

end Service

end SeriesPipeline
