import Mathlib.Algebra.Order.BigOperators.Group.Finset
import SeriesPipeline.Proofs.Joining.Bookkeeping

/-!
# The horizon of joins

The horizon of a join counts alignments, each of them a window with a set of tags. A batch overflows
it when more alignments than that are left incomplete, however few their windows are. As long as
none does, the join does what it would do with any wider horizon.
-/

namespace SeriesPipeline.Joining

variable {start op : Joining} {port : Nat} {b : Batch} {key : Alignment} {r : Request}
  {requests : List Request} {wider : Nat}

/-- The alignments that lack a batch of some port once one more batch has come. -/
def outstanding (op : Joining) (port : Nat) (b : Batch) : Finset Alignment :=
  match op.alignment? b with
  | none => op.pending.keys.toFinset
  | some key =>
    if (op.slotsWith key port b).all (·.isSome) then op.pending.keys.toFinset.erase key
    else insert key op.pending.keys.toFinset

/-- Those of them that are not pending after the batch has been taken. -/
def overflow (op : Joining) (port : Nat) (b : Batch) : Finset Alignment :=
  op.outstanding port b \ (op.onBatch port b).1.pending.keys.toFinset

/-- Along a run, no more alignments are outstanding than the horizon allows. -/
def HasRoom (op : Joining) : List Request → Prop
  | [] => True
  | r :: rest =>
    (∀ e ∈ r.batch?, (op.outstanding e.1 e.2).card ≤ op.horizon) ∧ HasRoom (op.take r).1 rest

theorem outstanding_of_none (h : op.alignment? b = none) (port : Nat) :
    op.outstanding port b = op.pending.keys.toFinset := by
  rw [outstanding, h]

theorem outstanding_of_alignment (hkey : op.alignment? b = some key) (port : Nat) :
    op.outstanding port b =
      if (op.slotsWith key port b).all (·.isSome) then op.pending.keys.toFinset.erase key
      else insert key op.pending.keys.toFinset := by
  rw [outstanding, hkey]

/-! ## One more batch -/

/-- What is beyond the horizon is dropped and counted. -/
theorem overflow_accounts (hroom : op.pending.size ≤ op.horizon) (port : Nat) (b : Batch) :
    (op.overflow port b).card = (op.outstanding port b).card - op.horizon ∧
      (op.onBatch port b).1.dropped = op.dropped + (op.overflow port b).card := by
  have hcard := op.pending.size_eq_card
  cases hkey : op.alignment? b with
  | none =>
    rw [overflow, outstanding_of_none hkey, onBatch_of_none hkey, Finset.sdiff_self,
      Finset.card_empty, ← hcard, Nat.sub_eq_zero_of_le hroom]
    exact ⟨rfl, rfl⟩
  | some key =>
    rw [overflow, outstanding_of_alignment hkey, onBatch_of_alignment hkey]
    by_cases hall : (op.slotsWith key port b).all (·.isSome) = true
    · -- the completed alignment is not outstanding, and all others stay pending
      have hless : (op.pending.keys.toFinset.erase key).card ≤ op.horizon :=
        (Finset.card_erase_le.trans hcard.ge).trans hroom
      rw [if_pos hall, if_pos hall, SortedMap.toFinset_keys_erase, Finset.sdiff_self,
        Finset.card_empty, Nat.sub_eq_zero_of_le hless]
      exact ⟨rfl, rfl⟩
    · set filled := op.pending.insert key (op.slotsWith key port b) with hfilled
      have hkeys : filled.keys.toFinset = insert key op.pending.keys.toFinset :=
        SortedMap.toFinset_keys_insert _ _ _
      have hover : (filled.keys.toFinset \ (filled.keepLast op.horizon).keys.toFinset).card =
          filled.size - op.horizon := by
        rw [Finset.card_sdiff_of_subset (SortedMap.toFinset_keys_keepLast_subset _ _),
          ← SortedMap.size_eq_card, ← SortedMap.size_eq_card, SortedMap.size_keepLast]
        omega
      rw [if_neg hall, if_neg hall, ← hkeys, ← SortedMap.size_eq_card]
      exact ⟨hover, congrArg (op.dropped + ·) hover.symm⟩

/-- If some alignment overflows and no window has more than `tagSets` of those outstanding, then the
windows, each counted `tagSets` times, are more than the horizon. -/
theorem lt_windows_of_overflow {tagSets : Nat} (hroom : op.pending.size ≤ op.horizon)
    (htagSets : ∀ w, ((op.outstanding port b).filter (·.window = w)).card ≤ tagSets)
    (hoverflow : (op.overflow port b).Nonempty) :
    op.horizon < tagSets * ((op.outstanding port b).image Alignment.window).card := by
  have hpos := hoverflow.card_pos
  have hcard := (overflow_accounts hroom port b).1
  have hshare := Finset.card_le_mul_card_image (op.outstanding port b) tagSets
    fun w _ => htagSets w
  omega

/-! ## Wider horizons -/

theorem horizon_take (op : Joining) (r : Request) : (op.take r).1.horizon = op.horizon := by
  cases r with
  | batch port b =>
    rw [take]
    cases hkey : op.alignment? b with
    | none => rw [onBatch_of_none hkey]
    | some key =>
      rw [onBatch_of_alignment hkey]
      split <;> rfl
  | watermark t => rfl
  | close => rfl

/-- When the horizon has room, a wider one makes no difference. -/
theorem take_wider (hroom : ∀ e ∈ r.batch?, (op.outstanding e.1 e.2).card ≤ op.horizon)
    (hwider : op.horizon ≤ wider) :
    ({ op with horizon := wider } : Joining).take r =
      ({ (op.take r).1 with horizon := wider }, (op.take r).2) := by
  cases r with
  | batch port b =>
    have hroom := hroom (port, b) rfl
    rw [take, take]
    cases hkey : op.alignment? b with
    | none =>
      have hkey' : ({ op with horizon := wider } : Joining).alignment? b = none := hkey
      rw [onBatch_of_none hkey, onBatch_of_none hkey']
    | some key =>
      have hkey' : ({ op with horizon := wider } : Joining).alignment? b = some key := hkey
      have hwide : onBatch { op with horizon := wider } port b =
          if (op.slotsWith key port b).all (·.isSome) then
            ({ op with horizon := wider, pending := op.pending.erase key },
              some (op.combine key (op.slotsWith key port b).reduceOption))
          else
            (enforceHorizon { op with
                horizon := wider
                pending := op.pending.insert key (op.slotsWith key port b) },
              none) :=
        onBatch_of_alignment hkey' port
      rw [outstanding_of_alignment hkey] at hroom
      rw [onBatch_of_alignment hkey, hwide]
      by_cases hall : (op.slotsWith key port b).all (·.isSome) = true
      · rw [if_pos hall, if_pos hall]
      · -- neither horizon drops anything
        have hsize : (op.pending.insert key (op.slotsWith key port b)).size ≤ op.horizon := by
          rw [if_neg hall, ← SortedMap.toFinset_keys_insert, ← SortedMap.size_eq_card] at hroom
          exact hroom
        rw [if_neg hall, if_neg hall, enforceHorizon_eq (by exact hsize.trans hwider),
          enforceHorizon_eq (by exact hsize)]
  | watermark t => rfl
  | close => rfl

theorem HasRoom.run_wider (h : op.HasRoom requests) (hwider : op.horizon ≤ wider) :
    Request.run take { op with horizon := wider } requests =
      ({ (Request.run take op requests).1 with horizon := wider },
        (Request.run take op requests).2) := by
  induction requests generalizing op with
  | nil => rfl
  | cons r rest ih =>
    have hnext := ih h.2 ((horizon_take op r).trans_le hwider)
    rw [Request.run_cons, take_wider h.1 hwider, hnext, Request.run_cons]

/-! ## Whole runs -/

/-- After any run, one more batch drops as many alignments as are outstanding beyond the horizon.
With at most `tagSets` of them in each window it drops some only if the windows, each counted
`tagSets` times, are more than the horizon: with one each, if the windows are. And as long as no
more alignments are outstanding than the horizon allows, only watermarks and the end of the input
drop any: the run is that of any wider horizon. -/
theorem horizon_counts_alignments (aliases on : List String) (rename : Tags) (name : Option String)
    (horizon : Nat) (requests : List Request)
    (hports : ∀ e ∈ Request.batches requests, e.1 < aliases.length) :
    let start : Joining := ⟨aliases, on, rename, name, horizon, ∅, 0⟩
    let op := (Request.run take start requests).1
    (∀ port b,
      (op.overflow port b).card = (op.outstanding port b).card - horizon ∧
      (op.onBatch port b).1.dropped = op.dropped + (op.overflow port b).card ∧
      ∀ tagSets, (∀ w, ((op.outstanding port b).filter (·.window = w)).card ≤ tagSets) →
        (op.overflow port b).Nonempty →
          horizon < tagSets * ((op.outstanding port b).image Alignment.window).card) ∧
    (start.HasRoom requests → ∀ wider ≥ horizon,
      Request.run take { start with horizon := wider } requests =
        ({ op with horizon := wider }, (Request.run take start requests).2)) := by
  intro start op
  have hkeeps : Keeps start op _ := (keeps_new rfl).run hports
  have hhorizon : op.horizon = horizon := hkeeps.horizon_eq
  have hroom : op.pending.size ≤ op.horizon := hkeeps.room.trans_eq hhorizon.symm
  refine ⟨fun port b => ?_, fun h wider hwider => h.run_wider hwider⟩
  obtain ⟨hcard, hdropped⟩ := overflow_accounts hroom port b
  refine ⟨hhorizon ▸ hcard, hdropped, fun tagSets htagSets hoverflow => ?_⟩
  exact hhorizon ▸ lt_windows_of_overflow hroom htagSets hoverflow

/-- A batch of one row in a window, with a tag. -/
def taggedAt (start stop : Instant) (service : String) : Batch :=
  ⟨"m", .ofList [("service", service)], ["v"], [⟨start, [.null]⟩], some ⟨start, stop⟩⟩

/-- Two windows with one set of tags each are one more than a horizon of 1 allows. With room for
two, the batches of the other port are joined as they would be with any wider horizon. -/
theorem horizon_counts_alignments_of_two :
    let narrow : Joining := ⟨["a", "b"], [], ∅, none, 1, ∅, 0⟩
    let roomy : Joining := ⟨["a", "b"], [], ∅, none, 2, ∅, 0⟩
    let early := taggedAt ⟨0⟩ ⟨10⟩ "cart"
    let late := taggedAt ⟨10⟩ ⟨20⟩ "cart"
    let op := (Request.run take narrow [.batch 0 early]).1
    let both : List Request := [.batch 0 early, .batch 0 late, .batch 1 early]
    (op.onBatch 0 late).1.dropped = op.dropped + 1 ∧
      1 < ((op.outstanding 0 late).image Alignment.window).card ∧
      (Request.run take { roomy with horizon := 32 } both).2 = (Request.run take roomy both).2 := by
  intro narrow roomy early late op both
  obtain ⟨hbatch, -⟩ :=
    horizon_counts_alignments ["a", "b"] [] ∅ none 1 [.batch 0 early] (by decide)
  obtain ⟨-, hwider⟩ := horizon_counts_alignments ["a", "b"] [] ∅ none 2 both (by decide)
  obtain ⟨-, hdropped, hwindows⟩ := hbatch 0 late
  have hoverflow : (op.overflow 0 late).card = 1 := by decide +kernel
  have hapart : ∀ key ∈ op.outstanding 0 late, ∀ key' ∈ op.outstanding 0 late,
      key.window = key'.window → key = key' := by decide +kernel
  have hroom : roomy.HasRoom both := by
    refine ⟨?_, ?_, ?_, trivial⟩
    all_goals
      intro e he
      cases he
      decide +kernel
  have hone : ∀ w, ((op.outstanding 0 late).filter (·.window = w)).card ≤ 1 := by
    intro w
    rw [Finset.card_le_one]
    intro key hkey key' hkey'
    obtain ⟨hmem, rfl⟩ := Finset.mem_filter.1 hkey
    obtain ⟨hmem', hsame⟩ := Finset.mem_filter.1 hkey'
    exact hapart key hmem key' hmem' hsame.symm
  have hsome : (op.overflow 0 late).Nonempty :=
    Finset.card_pos.1 (Nat.one_pos.trans_eq hoverflow.symm)
  have hmore : 1 < ((op.outstanding 0 late).image Alignment.window).card := by
    rw [← Nat.one_mul (Finset.card _)]
    exact hwindows 1 hone hsome
  rw [hoverflow] at hdropped
  exact ⟨hdropped, hmore, by rw [hwider hroom 32 (by decide)]⟩

/-- Two sets of tags of one window overflow a horizon of 1, though there is only that window. When
both ports have delivered both of them, one of the two has been dropped twice and not joined. -/
theorem horizon_overflows_within_window :
    let start : Joining := ⟨["a", "b"], [], ∅, none, 1, ∅, 0⟩
    let cart := taggedAt ⟨0⟩ ⟨10⟩ "cart"
    let login := taggedAt ⟨0⟩ ⟨10⟩ "login"
    let op := (Request.run take start [.batch 0 cart]).1
    let all := Request.run take start [.batch 0 cart, .batch 0 login, .batch 1 cart, .batch 1 login]
    ¬ ((op.overflow 0 login).Nonempty →
        1 < ((op.outstanding 0 login).image Alignment.window).card) ∧
      (op.onBatch 0 login).1.dropped = 1 ∧ all.1.dropped = 2 ∧ all.2.length = 1 := by
  decide +kernel

end SeriesPipeline.Joining
