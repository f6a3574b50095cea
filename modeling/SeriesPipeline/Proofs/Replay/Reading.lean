import SeriesPipeline.Proofs.Replay.Drive

/-!
# What a replay has read

At any point of a drive, the calls begun by the replay and those that it has yet to make before it
turns to its next batch are the calls for the batches that it has read, whose first times do not go
back. A barrier and the close come after them in the end.
-/

namespace SeriesPipeline

/-- A clock does not go back. -/
theorem Clock.now_set (c : Clock) (t : Instant) : (c.set t).now = max c.now t := by
  rw [set, moves]
  split
  · rename_i hlt
    exact (max_eq_right (le_of_lt (of_decide_eq_true hlt))).symm
  · rename_i hle
    exact (max_eq_left (not_lt.1 fun hlt => hle (decide_eq_true hlt))).symm

namespace Replay

variable {clock clock' : Clock} {r : Replay}

/-- Batches with their numbers, from `n` on. -/
def numbered (n : Nat) (batches : List Batch) : List (Nat × Batch) :=
  (batches.zipIdx n).map fun (b, i) => (i, b)

/-- What a replay finds when it looks at its next batch, and why. -/
inductive Turns (clock : Clock) (r : Replay) : Next → Prop where
  | finished (hbatches : r.batches = []) (hending : r.ending = true) : Turns clock r .finished
  | ends (hbatches : r.batches = []) (hending : r.ending = false) :
    Turns clock r (.ready clock { r with ending := true, calls := finalCalls clock })
  | skips {i : Nat} {b : Batch} {rest : List (Nat × Batch)} (hbatches : r.batches = (i, b) :: rest)
    (hempty : b.rows = []) : Turns clock r (.ready clock { r with batches := rest })
  | outOfOrder {i : Nat} {b : Batch} {rest : List (Nat × Batch)} {first previous : Instant}
    (hbatches : r.batches = (i, b) :: rest) (hfirst : b.firstTime = some first)
    (hprevious : r.lastStart = some previous) (hlt : first < previous) :
    Turns clock r (.outOfOrder (.outOfOrder i first previous))
  | waits {i : Nat} {b : Batch} {rest : List (Nat × Batch)} {last : Instant}
    (hbatches : r.batches = (i, b) :: rest) (hlast : b.lastTime = some last)
    (hclock : clockFor? r.mode clock last = none) : Turns clock r .waiting
  | takes {i : Nat} {b : Batch} {rest : List (Nat × Batch)} {first last : Instant} {clock' : Clock}
    (hbatches : r.batches = (i, b) :: rest) (hfirst : b.firstTime = some first)
    (hlast : b.lastTime = some last) (horder : ∀ previous ∈ r.lastStart, previous ≤ first)
    (hclock : clockFor? r.mode clock last = some clock') :
    Turns clock r (.ready clock' { r with
      batches := rest, lastStart := some first, calls := batchCalls r.lastStart first b })

theorem rows_eq_nil_of_times {b : Batch}
    (h : ∀ first last, b.firstTime = some first → b.lastTime = some last → False) :
    b.rows = [] := by
  by_contra hne
  obtain ⟨row, rest, hrows⟩ := List.exists_cons_of_ne_nil hne
  have hlast : b.lastTime = some (b.rows.getLast hne).time := by
    rw [Batch.lastTime, List.getLast?_eq_some_getLast hne]
    rfl
  exact h row.time _ (by rw [Batch.firstTime, hrows]; rfl) hlast

theorem turns_next (clock : Clock) (r : Replay) : r.Turns clock (r.next clock) := by
  unfold next
  split
  · rename_i hbatches
    split
    · rename_i hending
      exact .finished hbatches hending
    · rename_i hending
      exact .ends hbatches (Bool.not_eq_true _ ▸ hending)
  · rename_i i b rest hbatches
    split
    · rename_i first last hfirst hlast
      split
      · rename_i previous hprevious
        obtain ⟨hprevious, hlt⟩ := Option.filter_eq_some_iff.1 hprevious
        exact .outOfOrder hbatches hfirst hprevious (of_decide_eq_true hlt)
      · rename_i hnone
        have horder : ∀ previous ∈ r.lastStart, previous ≤ first := fun previous hprevious =>
          not_lt.1 fun hlt => Option.filter_eq_none_iff.1 hnone previous hprevious
            (decide_eq_true hlt)
        split
        · rename_i hclock
          exact .waits hbatches hlast hclock
        · rename_i clock' hclock
          exact .takes hbatches hfirst hlast horder hclock
    · rename_i hempty
      exact .skips hbatches (rows_eq_nil_of_times hempty)

theorem mode_of_turns {r' : Replay} (h : r.Turns clock (.ready clock' r')) : r'.mode = r.mode := by
  generalize hnext : Next.ready clock' r' = next at h
  cases h <;> cases hnext <;> rfl

theorem sends_of_turns {r' : Replay} (h : r.Turns clock (.ready clock' r')) :
    r'.sends = r.sends := by
  generalize hnext : Next.ready clock' r' = next at h
  cases h <;> cases hnext <;> rfl

/-- How a replay into a task of the given name can have ended. -/
inductive Ends (task : String) (r : Replay) : Except Failure Unit → Prop where
  | rejected : Ends task r (.error (.inputClosed task))
  | done (hsends : r.sends = []) (hcalls : r.calls = []) (hbatches : r.batches = [])
    (hending : r.ending = true) : Ends task r (.ok ())
  | outOfOrder {i : Nat} {b : Batch} {rest : List (Nat × Batch)} {first previous : Instant}
    (hsends : r.sends = []) (hcalls : r.calls = []) (hbatches : r.batches = (i, b) :: rest)
    (hfirst : b.firstTime = some first) (hprevious : r.lastStart = some previous)
    (hlt : first < previous) : Ends task r (.error (.outOfOrder i first previous))

/-- A replay of `batches` has read some of them. `At` tells where the clock stands after those. -/
structure Reads (At : List Batch → Instant → Prop) (all read rest : List Batch) (clock : Clock)
    (made : List Call) (r : Replay) : Prop where
  batches : all = read ++ rest
  left : r.batches = numbered read.length rest
  lastStart : r.lastStart = (startsOf read).getLast?
  ascending : (startsOf read).Pairwise (· ≤ ·)
  time : At read clock.now
  calls : r.ending = false → made ++ r.calls = callsFor none read
  ending : r.ending = true → rest = [] ∧ ∃ t, At read t ∧
    made ++ r.calls = callsFor none read ++ [.barrier t, .close]

/-- A batch is fed with the clock at its last time, or later. -/
theorem now_of_clockFor? {mode : ReplayMode} {last : Instant}
    (h : clockFor? mode clock last = some clock') : clock'.now = max clock.now last := by
  cases mode with
  | paced =>
    obtain ⟨hle, heq⟩ := Option.ite_none_right_eq_some.1 h
    cases heq
    exact (max_eq_left hle).symm
  | driven =>
    cases h
    exact clock.now_set last

/-- Where the clock stands goes along with what is read. -/
structure Keeps (mode : ReplayMode) (At : List Batch → Instant → Prop) : Prop where
  skip : ∀ read b t, b.rows = [] → At read t → At (read ++ [b]) t
  take : ∀ read b last clock clock', b.lastTime = some last →
    clockFor? mode clock last = some clock' → At read clock.now → At (read ++ [b]) clock'.now

variable {At : List Batch → Instant → Prop} {all read rest : List Batch} {made : List Call}

theorem reads_new (mode : ReplayMode) (batches : List Batch) (h : At [] clock.now) :
    Reads At batches [] batches clock [] (.new mode batches) where
  batches := rfl
  left := rfl
  lastStart := rfl
  ascending := .nil
  time := h
  calls _ := rfl
  ending := nofun

/-- The next batch is the first of those that are left. -/
theorem Reads.of_batches_eq_cons (h : Reads At all read rest clock made r) {i : Nat} {b : Batch}
    {left : List (Nat × Batch)} (hbatches : r.batches = (i, b) :: left) :
    i = read.length ∧ ∃ rest', rest = b :: rest' ∧
      left = numbered (read ++ [b]).length rest' := by
  rw [h.left] at hbatches
  cases hrest : rest with
  | nil =>
    rw [hrest] at hbatches
    cases hbatches
  | cons b' rest' =>
    rw [hrest, numbered, List.zipIdx_cons, List.map_cons] at hbatches
    cases hbatches
    exact ⟨rfl, rest', rfl, by rw [List.length_append]; rfl⟩

/-- Nothing is left to read once no batches are left. -/
theorem Reads.rest_eq_nil (h : Reads At all read rest clock made r) (hbatches : r.batches = []) :
    rest = [] := by
  have hleft := h.left
  rw [hbatches] at hleft
  cases rest with
  | nil => rfl
  | cons b rest => cases hleft

/-- A replay turns to its next batch once it has made the calls for those before. -/
theorem Reads.turn (hkeeps : Keeps r.mode At) (h : Reads At all read rest clock made r)
    (hcalls : r.calls = []) {r' : Replay} (hturns : r.Turns clock (.ready clock' r')) :
    ∃ read rest, Reads At all read rest clock' made r' := by
  generalize hnext : Next.ready clock' r' = next at hturns
  cases hturns with
  | finished => cases hnext
  | outOfOrder => cases hnext
  | waits => cases hnext
  | ends hbatches hending =>
    cases hnext
    -- the time of the last barrier is read off the clock here
    have hrest := h.rest_eq_nil hbatches
    have hmade := h.calls hending
    rw [hcalls, List.append_nil] at hmade
    exact ⟨read, rest, h.batches, h.left, h.lastStart, h.ascending, h.time, nofun,
      fun _ => ⟨hrest, clock.now, h.time, by rw [hmade]; rfl⟩⟩
  | @skips i b _ hbatches hempty =>
    cases hnext
    obtain ⟨-, rest', rfl, hleft⟩ := h.of_batches_eq_cons hbatches
    have hnone : b.firstTime = none := by
      rw [Batch.firstTime, hempty]
      rfl
    have hstarts : startsOf (read ++ [b]) = startsOf read := by
      rw [startsOf_append, startsOf_singleton, hnone]
      exact List.append_nil _
    refine ⟨read ++ [b], rest', ?_, hleft, ?_, ?_, hkeeps.skip _ _ _ hempty h.time, ?_, ?_⟩
    · rw [h.batches, List.append_assoc]
      rfl
    · rw [hstarts]
      exact h.lastStart
    · rw [hstarts]
      exact h.ascending
    · intro hending
      rw [callsFor_append, callsFor, hnone]
      exact (h.calls hending).trans (List.append_nil _).symm
    · intro hending
      cases (h.ending hending).1
  | @takes i b _ first last _ hbatches hfirst hlast horder hclock =>
    cases hnext
    obtain ⟨-, rest', rfl, hleft⟩ := h.of_batches_eq_cons hbatches
    have hstarts : startsOf (read ++ [b]) = startsOf read ++ [first] := by
      rw [startsOf_append, startsOf_singleton, hfirst]
      rfl
    refine ⟨read ++ [b], rest', ?_, hleft, ?_, ?_,
      hkeeps.take _ _ _ _ _ hlast hclock h.time, ?_, ?_⟩
    · rw [h.batches, List.append_assoc]
      rfl
    · rw [hstarts, List.getLast?_concat]
    · -- the last start is the latest one, so it is enough that the batch was compared with that
      rw [hstarts, pairwise_concat_iff, ← h.lastStart]
      exact ⟨h.ascending, horder⟩
    · intro hending
      have hmade := h.calls hending
      rw [hcalls, List.append_nil] at hmade
      rw [hmade, callsFor_append, callsFor, hfirst, h.lastStart]
      rfl
    · intro hending
      cases (h.ending hending).1

/-- The sends of a call do not matter. -/
theorem Reads.with_sends (h : Reads At all read rest clock made r) (sends : List Send) :
    Reads At all read rest clock made { r with sends } :=
  ⟨h.batches, h.left, h.lastStart, h.ascending, h.time, h.calls, h.ending⟩

/-- A call that begins is no longer one to make. -/
theorem Reads.begin (h : Reads At all read rest clock made r) {c : Call} {calls : List Call}
    (hcalls : r.calls = c :: calls) (sends : List Send) :
    Reads At all read rest clock (made ++ [c]) { r with calls, sends } := by
  have hmade : made ++ [c] ++ calls = made ++ r.calls := by
    rw [hcalls, List.append_assoc]
    rfl
  exact ⟨h.batches, h.left, h.lastStart, h.ascending, h.time,
    fun hending => hmade ▸ h.calls hending, fun hending => hmade ▸ h.ending hending⟩

/-- The clock may stand anywhere if that does not matter. -/
theorem Reads.set (h : Reads At all read rest clock made r) {clock' : Clock}
    (htime : At read clock'.now) : Reads At all read rest clock' made r :=
  ⟨h.batches, h.left, h.lastStart, h.ascending, htime, h.calls, h.ending⟩

end Replay

namespace Drive

/-- A drive of a task for `p` whose replay reads `all`, in the given mode. -/
structure Reads (At : List Batch → Instant → Prop) (p : Plan) (mode : ReplayMode)
    (all : List Batch) (d : Drive) : Prop where
  reads : ∃ read rest, Replay.Reads At all read rest d.clock d.calls d.replay
  mode : d.replay.mode = mode
  plan : d.task.plan = p
  ends : ∀ o ∈ d.outcome, d.replay.Ends p.name o

variable {At : List Batch → Instant → Prop} {p : Plan} {mode : ReplayMode} {all : List Batch}
  {d d' : Drive} {move : Move}

theorem reads_start {clock : Clock} (h : At [] clock.now) :
    (start clock (.launch p) (.new mode all)).Reads At p mode all :=
  ⟨⟨[], all, Replay.reads_new mode all h⟩, rfl, rfl, nofun⟩

/-- What a replay finds at its next batch, with nothing left to send or to call. -/
theorem Reads.turns (hkeeps : Replay.Keeps mode At) (h : d.Reads At p mode all)
    (hnone : d.outcome = none) (hcalls : d.replay.calls = []) {clock : Clock} {replay : Replay}
    (hnext : d.replay.next d.clock = .ready clock replay) :
    ({ d with clock, replay } : Drive).Reads At p mode all := by
  obtain ⟨read, rest, hreads⟩ := h.reads
  have hturns := Replay.turns_next d.clock d.replay
  rw [hnext] at hturns
  refine ⟨hreads.turn (h.mode ▸ hkeeps) hcalls hturns, ?_, h.plan, ?_⟩
  · exact (Replay.mode_of_turns hturns).trans h.mode
  · intro o ho
    rw [hnone] at ho
    cases ho

theorem Reads.goesOn (hkeeps : Replay.Keeps mode At) (h : d.Reads At p mode all)
    (hnone : d.outcome = none) (hgoes : d.GoesOn d') : d'.Reads At p mode all := by
  have hnew : ∀ o ∈ d.outcome, d'.replay.Ends p.name o := by
    rw [hnone]
    exact nofun
  have hname : d.task.name = p.name := congrArg Plan.name h.plan
  obtain ⟨read, rest, hreads⟩ := h.reads
  cases hgoes with
  | sends => exact ⟨⟨read, rest, hreads.with_sends _⟩, h.mode, h.plan, hnew⟩
  | misses => exact ⟨⟨read, rest, hreads.with_sends _⟩, h.mode, h.plan, hnew⟩
  | rejected =>
    refine ⟨⟨read, rest, hreads.with_sends _⟩, h.mode, h.plan, ?_⟩
    rintro _ ⟨⟩
    exact hname ▸ .rejected
  | begins _ hcalls hbegin =>
    have hplan := (PipelineTask.of_begin?_eq_some hbegin).1.1
    exact ⟨⟨read, rest, hreads.begin hcalls _⟩, h.mode, hplan.trans h.plan, hnew⟩
  | refused =>
    refine ⟨⟨read, rest, hreads⟩, h.mode, h.plan, ?_⟩
    rintro _ ⟨⟩
    exact hname ▸ .rejected
  | turns _ hcalls hnext => exact h.turns hkeeps hnone hcalls hnext
  | finished hsends hcalls hnext =>
    refine ⟨⟨read, rest, hreads⟩, h.mode, h.plan, ?_⟩
    rintro _ ⟨⟩
    have hturns := Replay.turns_next d.clock d.replay
    rw [hnext] at hturns
    cases hturns with
    | finished hbatches hending => exact .done hsends hcalls hbatches hending
  | outOfOrder hsends hcalls hnext =>
    refine ⟨⟨read, rest, hreads⟩, h.mode, h.plan, ?_⟩
    rintro _ ⟨⟩
    have hturns := Replay.turns_next d.clock d.replay
    rw [hnext] at hturns
    cases hturns with
    | outOfOrder hbatches hfirst hprevious hlt =>
      exact .outOfOrder hsends hcalls hbatches hfirst hprevious hlt

/-- Only the clock is set from outside. -/
theorem Reads.moves (hkeeps : Replay.Keeps mode At) (h : d.Reads At p mode all)
    (hset : ∀ t, move = .set t → ∀ read now, At read now) (hmoves : d.Moves move d') :
    d'.Reads At p mode all := by
  cases hmoves with
  | goesOn hnone hgoes => exact h.goesOn hkeeps hnone hgoes
  | steps => exact ⟨h.reads, h.mode, h.plan, h.ends⟩
  | aborts => exact ⟨h.reads, h.mode, h.plan, h.ends⟩
  | finishes => exact ⟨h.reads, h.mode, h.plan, h.ends⟩
  | rests => exact h
  | sets t =>
    obtain ⟨read, rest, hreads⟩ := h.reads
    exact ⟨⟨read, rest, hreads.set (hset t rfl _ _)⟩, h.mode, h.plan, h.ends⟩

end Drive

end SeriesPipeline
