import SeriesPipeline.Proofs.Replay.Advance
import SeriesPipeline.Proofs.Replay.Deliveries

/-!
# What a replay sends

A replay that alone sets its clock sends the batches in order, with a barrier before each that
starts later than the one before it, and after the last one a barrier at the latest time of all and
the close. It breaks off at the first batch that starts before the one before it. Its barriers do
not go back, and no row comes after a barrier that is later.
-/

namespace SeriesPipeline

/-- All that is sent for batches whose first times do not go back, from a clock at `c₀`. -/
def wholeCalls (c₀ : Instant) (batches : List Batch) : List Call :=
  callsFor none batches ++ [.barrier ((endsOf batches).foldl max c₀), .close]

/-- The batch after `before` is the first that starts before the one before it. -/
structure StepsBack (batches before : List Batch) (first previous : Instant) : Prop where
  next : ∃ b after, batches = before ++ b :: after ∧ b.firstTime = some first
  last : (startsOf before).getLast? = some previous
  back : first < previous
  ascending : (startsOf before).Pairwise (· ≤ ·)

/-- First times go back somewhere, unless they are in order. -/
theorem ascending_or_stepsBack (batches : List Batch) :
    (startsOf batches).Pairwise (· ≤ ·) ∨
      ∃ before first previous, StepsBack batches before first previous := by
  -- from the end, as the first batch that starts too early may be the last one
  induction batches using List.reverseRecOn with
  | nil => exact .inl .nil
  | append_singleton batches b ih =>
    rcases ih with h | ⟨before, first, previous, ⟨b', after, rfl, hfirst⟩, hlast, hback, h⟩
    · cases hfirst : b.firstTime with
      | none =>
        rw [startsOf_append, startsOf_singleton, hfirst]
        exact .inl ((List.append_nil (startsOf batches)).symm ▸ h)
      | some first =>
        by_cases hle : ∀ last ∈ (startsOf batches).getLast?, last ≤ first
        · rw [startsOf_append, startsOf_singleton, hfirst]
          exact .inl (pairwise_concat_iff.2 ⟨h, hle⟩)
        · push Not at hle
          obtain ⟨previous, hprevious, hlt⟩ := hle
          exact .inr ⟨batches, first, previous, ⟨b, [], rfl, hfirst⟩, hprevious, hlt, h⟩
    · refine .inr ⟨before, first, previous, ⟨b', after ++ [b], ?_, hfirst⟩, hlast, hback, h⟩
      rw [List.append_assoc]
      rfl

namespace StepsBack

variable {batches before before' : List Batch} {first first' previous previous' : Instant}

theorem not_ascending (h : StepsBack batches before first previous) :
    ¬ (startsOf batches).Pairwise (· ≤ ·) := by
  intro hascending
  obtain ⟨b, after, rfl, hfirst⟩ := h.next
  rw [startsOf_append, startsOf, startsOf, List.filterMap_cons, hfirst] at hascending
  have hle : previous ≤ first := (List.pairwise_append.1 hascending).2.2 _
    (List.mem_of_getLast? h.last) _ List.mem_cons_self
  exact absurd h.back (not_lt.2 hle)

/-- Batches that are read while first times do not go back come before that. -/
theorem isPrefix (h : StepsBack batches before first previous) {read rest : List Batch}
    (hbatches : batches = read ++ rest) (hascending : (startsOf read).Pairwise (· ≤ ·)) :
    rest ≠ [] ∧ read <+: before := by
  obtain ⟨b, after, rfl, hfirst⟩ := h.next
  obtain ⟨between, rfl, hread⟩ | ⟨between, rfl, hrest⟩ := List.append_eq_append_iff.1 hbatches
  · cases between with
    | nil =>
      rw [List.append_nil] at hascending ⊢
      exact ⟨ne_of_eq_of_ne hread.symm (List.cons_ne_nil b after), List.prefix_refl before⟩
    | cons b' between =>
      -- the batch would have been read
      cases hread
      exact absurd hascending
        (not_ascending ⟨⟨b, between, rfl, hfirst⟩, h.last, h.back, h.ascending⟩)
  · rw [hrest]
    exact ⟨List.append_ne_nil_of_right_ne_nil _ (List.cons_ne_nil _ _), List.prefix_append _ _⟩

theorem unique (h : StepsBack batches before first previous)
    (h' : StepsBack batches before' first' previous') :
    before = before' ∧ first = first' ∧ previous = previous' := by
  obtain ⟨b, after, heq, hfirst⟩ := h.next
  obtain ⟨b', after', heq', hfirst'⟩ := h'.next
  obtain rfl : before = before' :=
    (h'.isPrefix heq h.ascending).2.eq_of_length_le (h.isPrefix heq' h'.ascending).2.length_le
  obtain ⟨-, hcons⟩ := List.append_inj (heq.symm.trans heq') rfl
  cases hcons
  exact ⟨rfl, Option.some.inj (hfirst.symm.trans hfirst'),
    Option.some.inj (h.last.symm.trans h'.last)⟩

end StepsBack

/-! ## The clock -/

namespace Replay

/-- A clock that only a replay sets stands at the latest time that was read, or at its start. -/
theorem keeps_latest (mode : ReplayMode) (c₀ : Instant) :
    Keeps mode fun read t => t = (endsOf read).foldl max c₀ where
  skip read b t hempty ht := by
    have hnone : b.lastTime = none := by
      rw [Batch.lastTime, hempty]
      rfl
    rw [endsOf_append, endsOf_singleton, hnone]
    exact (List.append_nil (endsOf read)).symm ▸ ht
  take read b last clock clock' hlast hclock ht := by
    rw [endsOf_append, endsOf_singleton, hlast, List.foldl_append, ← ht]
    exact now_of_clockFor? hclock

end Replay

/-! ## Barriers -/

/-- A batch whose rows are in order starts no later than it ends. -/
theorem Batch.firstTime_le_lastTime {b : Batch} (hsorted : b.times.Pairwise (· ≤ ·))
    {first : Instant} (hfirst : b.firstTime = some first) :
    ∃ last, b.lastTime = some last ∧ first ≤ last := by
  rw [firstTime_eq] at hfirst
  have hmem := List.mem_of_head? hfirst
  have hlast : b.times.getLast? = some (b.times.getLast (List.ne_nil_of_mem hmem)) :=
    List.getLast?_eq_some_getLast _
  refine ⟨_, ?_, hsorted.rel_getLast hmem⟩
  rw [← hlast, times, List.getLast?_map]
  rfl

theorem le_latest {c₀ : Instant} {batches : List Batch}
    (hsorted : ∀ b ∈ batches, b.times.Pairwise (· ≤ ·)) {t : Instant} (ht : t ∈ startsOf batches) :
    t ≤ (endsOf batches).foldl max c₀ := by
  obtain ⟨b, hb, hfirst⟩ := List.mem_filterMap.1 ht
  obtain ⟨last, hlast, hle⟩ := Batch.firstTime_le_lastTime (hsorted b hb) hfirst
  exact hle.trans
    ((Instant.foldl_max_le_iff.1 (le_refl _)).2 last (List.mem_filterMap.2 ⟨b, hb, hlast⟩))

/-- Barriers do not go back, and no row comes after a later barrier. -/
theorem wholeCalls_keeps {c₀ : Instant} {batches : List Batch}
    (hsorted : ∀ b ∈ batches, b.times.Pairwise (· ≤ ·))
    (hascending : (startsOf batches).Pairwise (· ≤ ·)) :
    (wholeCalls c₀ batches).Pairwise fun c later =>
      (∀ t ∈ c.message.barrier?, ∀ t' ∈ later.message.barrier?, t ≤ t') ∧
        c.message.Keeps (fun t b => b.From t) later.message := by
  refine List.pairwise_append.2 ⟨?_, ?_, ?_⟩
  · refine (callsFor_keeps hascending).imp_of_mem fun _ hlater ⟨hbarrier, hkeeps⟩ =>
      ⟨hbarrier, fun t ht b hb => hkeeps t ht b hb ?_⟩
    obtain ⟨b', hb', rfl⟩ | ⟨t', -, rfl⟩ := mem_callsFor hlater
    · cases hb
      exact hsorted b hb'
    · cases hb
  · exact List.pairwise_pair.2 ⟨fun _ _ => nofun, fun _ _ => nofun⟩
  · intro c hc later hlater
    obtain ⟨b, -, rfl⟩ | ⟨t, ht, rfl⟩ := mem_callsFor hc
    · exact ⟨nofun, nofun⟩
    · rcases List.mem_cons.1 hlater with rfl | hlater
      · refine ⟨?_, fun _ _ => nofun⟩
        rintro _ ⟨⟩ _ ⟨⟩
        exact le_latest hsorted ht
      · rw [List.mem_singleton.1 hlater]
        exact ⟨fun _ _ => nofun, fun _ _ => nofun⟩

/-! ## What is read and sent -/

namespace Replay.Reads

variable {At : List Batch → Instant → Prop} {all read rest : List Batch} {clock : Clock}
  {made : List Call} {r : Replay}

theorem all_eq (h : Reads At all read rest clock made r) (hrest : rest = []) : all = read := by
  rw [h.batches, hrest, List.append_nil]

/-- Calls are made in the order of the batches read, with the end of the input last. -/
theorem isPrefix (h : Reads At all read rest clock made r) :
    ∃ t, At read t ∧ made <+: callsFor none read ++ [.barrier t, .close] := by
  cases hending : r.ending with
  | false =>
    exact ⟨clock.now, h.time, (h.calls hending ▸ List.prefix_append made r.calls).trans
      (List.prefix_append _ _)⟩
  | true =>
    obtain ⟨-, t, ht, hcalls⟩ := h.ending hending
    exact ⟨t, ht, hcalls ▸ List.prefix_append made r.calls⟩

/-- The input does not end while batches are left. -/
theorem isPrefix_callsFor (h : Reads At all read rest clock made r) (hrest : rest ≠ []) :
    r.ending = false ∧ made <+: callsFor none read := by
  have hending : r.ending = false :=
    Bool.eq_false_iff.2 fun hending => hrest (h.ending hending).1
  exact ⟨hending, h.calls hending ▸ List.prefix_append made r.calls⟩

/-- The close is the last call. -/
theorem close_notMem (h : Reads At all read rest clock made r) {c : Call} {calls : List Call}
    (hleft : r.calls = c :: calls) : .close ∉ made := by
  intro hclose
  cases hending : r.ending with
  | false =>
    refine close_notMem_callsFor (?_ : .close ∈ callsFor none read)
    rw [← h.calls hending]
    exact List.mem_append_left _ hclose
  | true =>
    obtain ⟨-, t, -, hcalls⟩ := h.ending hending
    -- without the last call, no close is left
    have hinit : made ++ (c :: calls).dropLast = callsFor none read ++ [.barrier t] := by
      rw [← List.dropLast_append_of_ne_nil (List.cons_ne_nil c calls), ← hleft, hcalls,
        List.dropLast_append_of_ne_nil (List.cons_ne_nil _ _)]
      rfl
    have hmem : Call.close ∈ callsFor none read ++ [.barrier t] :=
      hinit ▸ List.mem_append_left _ hclose
    rcases List.mem_append.1 hmem with hmem | hmem
    · exact close_notMem_callsFor hmem
    · cases List.mem_singleton.1 hmem

/-- A replay that comes upon a batch that is out of order has read all batches before it. -/
theorem stepsBack (h : Reads At all read rest clock made r) {i : Nat} {b : Batch}
    {left : List (Nat × Batch)} {first previous : Instant} (hbatches : r.batches = (i, b) :: left)
    (hfirst : b.firstTime = some first) (hprevious : r.lastStart = some previous)
    (hlt : first < previous) : i = read.length ∧ StepsBack all read first previous := by
  obtain ⟨hi, rest', rfl, -⟩ := h.of_batches_eq_cons hbatches
  exact ⟨hi, ⟨b, rest', h.batches, hfirst⟩, h.lastStart.symm.trans hprevious, hlt, h.ascending⟩

end Replay.Reads

namespace Drive

/-- What a replay of `batches` from a clock at `c₀` brings to a task for `p`. -/
structure Conveys (p : Plan) (c₀ : Instant) (batches : List Batch) (d : Drive) : Prop where
  inOrder : (startsOf batches).Pairwise (· ≤ ·) →
    d.calls <+: wholeCalls c₀ batches ∧ ∀ o ∈ d.outcome, o = .error (.inputClosed p.name) ∨
      o = .ok () ∧ d.calls = wholeCalls c₀ batches
  stepsBack : ∀ before first previous, StepsBack batches before first previous →
    d.calls <+: callsFor none before ∧ ∀ o ∈ d.outcome, o = .error (.inputClosed p.name) ∨
      ∃ cause, cause = .outOfOrder before.length first previous ∧ cause.isFatal = true ∧
        o = .error cause ∧ (Replay.conclude d.task o).2 = .error cause ∧
        d.calls = callsFor none before
  barriers : d.calls.Pairwise fun c later =>
    (∀ t ∈ c.message.barrier?, ∀ t' ∈ later.message.barrier?, t ≤ t') ∧
      c.message.Keeps (fun t b => b.From t) later.message
  received : ∀ i ∈ p.inlets, fedTo i.process d.log <+: i.messages d.calls
  /-- A close is not missed by a task that has ended. -/
  complete : ∀ o ∈ d.outcome, o ≠ .error (.inputClosed p.name) → ∀ i ∈ p.inlets,
    fedTo i.process d.log = i.messages d.calls ∨
      d.task.finished = true ∧ fedTo i.process d.log ++ [.close] = i.messages d.calls

variable {At : List Batch → Instant → Prop} {p : Plan} {mode : ReplayMode} {all : List Batch}
  {c₀ : Instant} {d : Drive}

theorem Reads.close_notMem (h : d.Reads At p mode all) {c : Call} {calls : List Call}
    (hcalls : d.replay.calls = c :: calls) : .close ∉ d.calls := by
  obtain ⟨read, rest, hreads⟩ := h.reads
  exact hreads.close_notMem hcalls

/-- Where the clock stands that only the replay sets. -/
abbrev Latest (c₀ : Instant) (read : List Batch) (t : Instant) : Prop :=
  t = (endsOf read).foldl max c₀

theorem Reads.inOrder (h : d.Reads (Latest c₀) p mode all)
    (hascending : (startsOf all).Pairwise (· ≤ ·)) :
    d.calls <+: wholeCalls c₀ all ∧ ∀ o ∈ d.outcome, o = .error (.inputClosed p.name) ∨
      o = .ok () ∧ d.calls = wholeCalls c₀ all := by
  obtain ⟨read, rest, hreads⟩ := h.reads
  constructor
  · by_cases hrest : rest = []
    · obtain ⟨t, rfl, hcalls⟩ := hreads.isPrefix
      rw [hreads.all_eq hrest]
      exact hcalls
    · have hread : callsFor none read <+: callsFor none all := by
        rw [hreads.batches, callsFor_append]
        exact List.prefix_append _ _
      exact ((hreads.isPrefix_callsFor hrest).2.trans hread).trans (List.prefix_append _ _)
  · intro o ho
    cases h.ends o ho with
    | rejected => exact .inl rfl
    | done _ hcalls hbatches hending =>
      obtain ⟨hrest, t, rfl, hmade⟩ := hreads.ending hending
      rw [hcalls, List.append_nil] at hmade
      rw [hreads.all_eq hrest]
      exact .inr ⟨rfl, hmade⟩
    | outOfOrder _ _ hbatches hfirst hprevious hlt =>
      obtain ⟨-, hback⟩ := hreads.stepsBack hbatches hfirst hprevious hlt
      exact absurd hascending hback.not_ascending

theorem Reads.stepsBack (h : d.Reads At p mode all) {before : List Batch} {first previous : Instant}
    (hback : StepsBack all before first previous) :
    d.calls <+: callsFor none before ∧ ∀ o ∈ d.outcome, o = .error (.inputClosed p.name) ∨
      ∃ cause, cause = .outOfOrder before.length first previous ∧ cause.isFatal = true ∧
        o = .error cause ∧ (Replay.conclude d.task o).2 = .error cause ∧
        d.calls = callsFor none before := by
  obtain ⟨read, rest, hreads⟩ := h.reads
  obtain ⟨hrest, hread⟩ := hback.isPrefix hreads.batches hreads.ascending
  obtain ⟨hending, hcalls⟩ := hreads.isPrefix_callsFor hrest
  constructor
  · refine hcalls.trans ?_
    obtain ⟨between, rfl⟩ := hread
    rw [callsFor_append]
    exact List.prefix_append _ _
  · intro o ho
    cases h.ends o ho with
    | rejected => exact .inl rfl
    | done _ _ hbatches => exact absurd (hreads.rest_eq_nil hbatches) hrest
    | outOfOrder _ hleft hbatches hfirst hprevious hlt =>
      obtain ⟨rfl, hback'⟩ := hreads.stepsBack hbatches hfirst hprevious hlt
      obtain ⟨rfl, rfl, rfl⟩ := hback.unique hback'
      have hmade := hreads.calls hending
      rw [hleft, List.append_nil] at hmade
      exact .inr ⟨_, rfl, rfl, rfl, rfl, hmade⟩

theorem Reads.barriers (h : d.Reads (Latest c₀) p mode all)
    (hsorted : ∀ b ∈ all, b.times.Pairwise (· ≤ ·)) :
    d.calls.Pairwise fun c later =>
      (∀ t ∈ c.message.barrier?, ∀ t' ∈ later.message.barrier?, t ≤ t') ∧
        c.message.Keeps (fun t b => b.From t) later.message := by
  obtain ⟨read, rest, hreads⟩ := h.reads
  obtain ⟨t, rfl, hcalls⟩ := hreads.isPrefix
  refine (wholeCalls_keeps (fun b hb => hsorted b ?_) hreads.ascending).sublist hcalls.sublist
  rw [hreads.batches]
  exact List.mem_append_left _ hb

theorem Delivers.received (h : d.Delivers p) : ∀ i ∈ p.inlets,
    fedTo i.process d.log <+: i.messages d.calls := by
  intro i hi
  rcases h.delivered i hi with hdelivered | ⟨-, hdelivered⟩
  · exact ⟨_, hdelivered⟩
  · rw [List.append_assoc] at hdelivered
    exact ⟨_, hdelivered⟩

theorem Delivers.complete (h : d.Delivers p) (hsends : d.replay.sends = []) : ∀ i ∈ p.inlets,
    fedTo i.process d.log = i.messages d.calls ∨
      d.task.finished = true ∧ fedTo i.process d.log ++ [.close] = i.messages d.calls := by
  intro i hi
  have hdelivered := h.delivered i hi
  rw [hsends, sendsTo, List.filter_nil, List.map_nil, List.append_nil] at hdelivered
  exact hdelivered

end Drive

/-! ## Replays from their start -/

namespace Replay

theorem isTimely_new {mode : ReplayMode} {clock : Clock} {batches : List Batch}
    (h : mode = .driven ∨ ∀ last ∈ endsOf batches, last ≤ clock.now) :
    (Replay.new mode batches).IsTimely clock := by
  refine h.imp_right fun hpast numbered hnumbered last hlast => hpast last ?_
  obtain ⟨⟨b, i⟩, hb, rfl⟩ := List.mem_map.1 hnumbered
  exact List.mem_filterMap.2 ⟨b, List.fst_mem_of_mem_zipIdx hb, hlast⟩

/-- A replay sends what there is to send, in order, up to where first times go back. One that need
not wait for the clock can always come to its end, and does so by itself. -/
theorem conveys_of_reaches (p : Plan) (mode : ReplayMode) (c₀ : Instant) (batches : List Batch)
    (hsorted : ∀ b ∈ batches, b.times.Pairwise (· ≤ ·)) :
    let start := Drive.start ⟨c₀⟩ (.launch p) (.new mode batches)
    ((startsOf batches).Pairwise (· ≤ ·) ∨
        ∃ before first previous, StepsBack batches before first previous) ∧
      (∀ d, start.Reaches d → d.Conveys p c₀ batches) ∧
      (mode = .driven ∨ (∀ last ∈ endsOf batches, last ≤ c₀) →
        (∀ d, start.Reaches d → ∃ d', d.Reaches d' ∧ d'.outcome.isSome) ∧
          ∃ clock t o d, (Replay.new mode batches).advance ⟨c₀⟩ (.launch p) = (clock, t, .ended o) ∧
            start.Reaches d ∧ d.task = t ∧ d.outcome = some o) := by
  intro start
  refine ⟨ascending_or_stepsBack batches, ?_, ?_⟩
  · rintro d ⟨moves, hmoves, hrun⟩
    obtain ⟨hreads, hdelivers⟩ : d.Reads (Drive.Latest c₀) p mode batches ∧ d.Delivers p := by
      refine Drive.run_induction
        (P := fun d => d.Reads (Drive.Latest c₀) p mode batches ∧ d.Delivers p)
        (Q := fun move => ∀ t, .set t ≠ move) ?_ ?_ ?_ hrun
      · intro d d' move hmove ⟨hreads, hdelivers⟩ hd'
        exact ⟨hreads.moves (keeps_latest mode c₀) (fun t ht => absurd ht.symm (hmove t)) hd',
          hdelivers.moves (fun _ _ hcalls => hreads.close_notMem hcalls) hd'⟩
      · exact fun move hmove t ht => hmoves t (ht ▸ hmove)
      · exact ⟨Drive.reads_start rfl, Drive.delivers_start _ p _ rfl⟩
    refine ⟨hreads.inOrder, fun _ _ _ => hreads.stepsBack, hreads.barriers hsorted,
      hdelivers.received, fun o ho hne => hdelivers.complete ?_⟩
    cases hreads.ends o ho with
    | rejected => exact absurd rfl hne
    | done hsends => exact hsends
    | outOfOrder hsends => exact hsends
  · intro htimely
    have hstart : start.task.IsReady := PipelineTask.isReady_launch p
    have hcan : start.CanEnd := ⟨hstart.capacity, isTimely_new htimely⟩
    constructor
    · rintro d ⟨moves, -, hrun⟩
      exact (Drive.run_induction (P := Drive.CanEnd) (Q := fun _ => True)
        (fun _ _ _ _ h => h.moves) (fun _ _ => trivial) hcan hrun).exists_end
    · obtain ⟨⟨clock, t, state⟩, d, hadvance, hreaches, hshows, hend⟩ :=
        Drive.reaches_advance rfl hstart
      obtain ⟨o, rfl⟩ := hend hcan.timely
      exact ⟨clock, t, o, d, hadvance, hreaches, hshows.2.1, hshows.2.2⟩

/-- A source that takes everything. -/
def planOfSource : Plan :=
  ⟨"p", .standard, [⟨"s", "s", .source ⟨none, none, none, .empty, none⟩, []⟩], []⟩

/-- A batch of null rows at some times. -/
def batchAt (times : List Instant) : Batch := ⟨"m", ∅, ["v"], times.map (⟨·, [.null]⟩), none⟩

/-- The second batch starts while the first one is not over. -/
theorem conveys_of_reaches_overlapping :
    let batches := [batchAt [], batchAt [⟨1⟩, ⟨3⟩], batchAt [⟨2⟩]]
    ∃ d, (Drive.start ⟨⟨0⟩⟩ (.launch planOfSource) (.new .driven batches)).Reaches d ∧
      d.outcome = some (.ok ()) ∧
      fedTo 0 d.log = [.batch (batchAt [⟨1⟩, ⟨3⟩]), .barrier ⟨2⟩, .batch (batchAt [⟨2⟩]),
        .barrier ⟨3⟩, .close] := by
  intro batches
  have hruns : ∃ d, (Drive.start ⟨⟨0⟩⟩ (.launch planOfSource) (.new .driven batches)).run
      (List.replicate 15 .replay) = some d ∧
      (d.outcome.any (·.toBool) && !d.task.finished) = true := by
    rw [← Option.any_eq_true]
    with_unfolding_all decide
  obtain ⟨d, hrun, hstate⟩ := hruns
  rw [Bool.and_eq_true, Option.any_eq_true, Bool.not_eq_true'] at hstate
  obtain ⟨⟨o, ho, hok⟩, hfinished⟩ := hstate
  have hsorted : ∀ b ∈ batches, b.times.Pairwise (· ≤ ·) := by decide
  have hreaches : (Drive.start ⟨⟨0⟩⟩ (.launch planOfSource) (.new .driven batches)).Reaches d :=
    ⟨List.replicate 15 .replay, (fun _ ht => nomatch List.eq_of_mem_replicate ht), hrun⟩
  have hconveys := (conveys_of_reaches planOfSource .driven ⟨0⟩ batches hsorted).2.1 d hreaches
  cases o with
  | error cause => cases hok
  | ok =>
    have hascending : (startsOf batches).Pairwise (· ≤ ·) := by decide
    have hcalls := (((hconveys.inOrder hascending).2 _ ho).resolve_left nofun).2
    have hinlet : (⟨0, none⟩ : Inlet) ∈ planOfSource.inlets := List.mem_singleton_self _
    have hmessages := (hconveys.complete _ ho nofun _ hinlet).resolve_right fun h => by
      rw [hfinished] at h
      cases h.1
    refine ⟨d, hreaches, ho, hmessages.trans ?_⟩
    rw [hcalls]
    with_unfolding_all rfl

end Replay

end SeriesPipeline
