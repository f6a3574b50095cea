import SeriesPipeline.Proofs.Merging.Parts
import SeriesPipeline.Proofs.Merging.Windows
import SeriesPipeline.Proofs.Stage.Interleaving

/-!
# Unions of interleaved streams

A stage that merges streams sends the same batches for every interleaving: one for each window and
set of tags, with the rows of all its parts.
-/

namespace SeriesPipeline.Merging

theorem performs (now : Instant) : Performs now .merging take where
  batch _ _ _ := rfl
  watermark _ _ := rfl
  close _ := rfl

/-- The batches of an alignment, in order of the streams and as they stand in each stream. -/
def partsIn (streams : List (List Message)) (key : Alignment) : Parts :=
  (List.range streams.length).flatMap fun port =>
    ((batchesOf ((streams[port]?).getD [])).filter fun b => alignment? b = some key).map (port, ·)

variable {streams : List (List Message)} {log : List (Nat × Batch)} {key : Alignment}

theorem pairwise_partsIn (streams : List (List Message)) (key : Alignment) :
    (partsIn streams key).Pairwise fun p q => p.1 ≤ q.1 := by
  rw [partsIn, List.pairwise_flatMap]
  constructor
  · intro port _
    rw [List.pairwise_map]
    exact List.pairwise_of_forall fun _ _ => Nat.le_refl port
  · refine List.pairwise_lt_range.imp fun hlt p hp q hq => ?_
    obtain ⟨_, -, rfl⟩ := List.mem_map.1 hp
    obtain ⟨_, -, rfl⟩ := List.mem_map.1 hq
    exact Nat.le_of_lt hlt

theorem mem_partsIn {p : Nat × Batch} (h : p ∈ partsIn streams key) :
    ∃ s ∈ streams, p.2 ∈ batchesOf s := by
  obtain ⟨port, hport, hp⟩ := List.mem_flatMap.1 h
  obtain ⟨b, hb, rfl⟩ := List.mem_map.1 hp
  have hlt := List.mem_range.1 hport
  rw [List.getElem?_eq_getElem hlt, Option.getD_some] at hb
  exact ⟨_, List.getElem_mem hlt, (List.mem_filter.1 hb).1⟩

/-- The parts that arrived are those of the streams, up to the order of the ports. -/
theorem merge_partsOf (h : Carries streams log) (op : Merging) (key : Alignment) :
    op.merge key (partsOf log key) = op.merge key (partsIn streams key) := by
  apply merge_congr
  intro port
  have harrived : Request.fromPort port (partsOf log key) =
      (Request.fromPort port log).filter fun b => alignment? b = some key := by
    rw [Request.fromPort, Request.fromPort, partsOf, List.filter_filter, List.filter_map,
      List.filter_filter]
    refine congrArg _ (List.filter_congr fun e _ => ?_)
    exact Bool.and_comm _ _
  rw [harrived, h port, partsIn, Request.fromPort_flatMap_range]
  by_cases hport : port < streams.length
  · rw [if_pos hport]
  · rw [if_neg hport, List.getElem?_eq_none (Nat.le_of_not_lt hport)]
    rfl

/-- Whatever the order in which its inputs come, a stage that merges sends one batch for each window
and set of tags, and that batch holds all the rows that came for them. -/
theorem run_merges_each_key_once (now : Instant) (id : String) (name : Option String)
    (streams : List (List Message)) (inbox : List Envelope)
    (hstreams : ∀ s ∈ streams, Delivers s)
    (hrows : ∀ s ∈ streams, ∀ b ∈ batchesOf s, b.rows ≠ [])
    (hconsistent : ∀ s ∈ streams, ∀ b ∈ batchesOf s, b.checkConsistency = .ok ())
    (h : Interleaves streams inbox) :
    let op : Merging := ⟨name, ∅⟩
    let result := (Stage.new id (.merging op) streams.length).run now inbox
    (batchesOf result.2.1.sent : Multiset Batch) =
      (keysIn alignment? streams).val.map (fun key => op.merge key (partsIn streams key)) ∧
    (∀ key ∈ keysIn alignment? streams,
      let merged := op.merge key (partsIn streams key)
      merged.window = some key.window ∧ merged.tags = key.tags ∧
      merged.HoldsInOrder ((partsIn streams key).flatMap (·.2.entries))) ∧
    result.2.2 = none := by
  intro op result
  obtain ⟨front, hrequests, hclose, hinTime, hcarries⟩ := h.requests hstreams
  obtain ⟨hfollows, hnone⟩ := Stage.run_performs (performs now) id op h.port_lt
  have haligned : ∀ e ∈ Request.batches front, (alignment? e.2).isSome := by
    intro e he
    rw [alignment?, Option.isSome_map]
    exact hcarries.alignmentWindow_isSome hrows e he
  have hmerged : Merged op front _ _ := merged_run rfl haligned hinTime hclose
  have hsent := hfollows.sent
  rw [hrequests, Request.run_concat, take] at hsent
  refine ⟨?_, ?_, hnone⟩
  · rw [hsent, hmerged.out_onClose, hcarries.keysOf_eq, merged]
    exact Multiset.map_congr rfl fun key _ => merge_partsOf hcarries op key
  · intro key hkey
    refine ⟨window_merge, tags_merge, holdsInOrder_merge ?_ (pairwise_partsIn streams key)⟩
    intro p hp
    obtain ⟨s, hs, hb⟩ := mem_partsIn hp
    exact Batch.checkConsistency_eq_ok_iff.1 (hconsistent s hs p.2 hb)

/-- The second input is ahead of the first, and the rows of the first still come first. -/
theorem run_merges_each_key_once_of_two :
    let batch (column : String) (v : Value) : Batch :=
      ⟨"m", ∅, [column], [⟨⟨5⟩, [v]⟩], some ⟨⟨0⟩, ⟨10⟩⟩⟩
    let op : Merging := ⟨none, ∅⟩
    let inbox : List Envelope :=
      [⟨1, .batch (batch "b" .null)⟩, ⟨1, .barrier ⟨10⟩⟩, ⟨1, .close⟩,
        ⟨0, .batch (batch "a" (.bool true))⟩, ⟨0, .barrier ⟨10⟩⟩, ⟨0, .close⟩]
    let result := (Stage.new "union" (.merging op) 2).run .epoch inbox
    (batchesOf result.2.1.sent : Multiset Batch) = {op.merge ⟨⟨⟨0⟩, ⟨10⟩⟩, ∅⟩
      [(0, batch "a" (.bool true)), (1, batch "b" .null)]} := by
  intro batch op inbox result
  let streams : List (List Message) :=
    [[.batch (batch "a" (.bool true)), .barrier ⟨10⟩, .close],
      [.batch (batch "b" .null), .barrier ⟨10⟩, .close]]
  have hstreams : ∀ s ∈ streams, Delivers s := by
    intro s hs
    rcases List.mem_cons.1 hs with rfl | hs
    · exact ⟨⟨[_, _], by simp, rfl⟩, by decide +kernel⟩
    · rw [List.mem_singleton.1 hs]
      exact ⟨⟨[_, _], by simp, rfl⟩, by decide +kernel⟩
  have hrows : ∀ s ∈ streams, ∀ b ∈ batchesOf s, b.rows ≠ [] := by decide +kernel
  have hconsistent : ∀ s ∈ streams, ∀ b ∈ batchesOf s, b.checkConsistency = .ok () := by
    intro s hs b hb
    rcases List.mem_cons.1 hs with rfl | hs
    · rw [List.mem_singleton.1 hb]
      rfl
    · rw [List.mem_singleton.1 hs] at hb
      rw [List.mem_singleton.1 hb]
      rfl
  have hinbox : Interleaves streams inbox := by
    intro port
    match port with
    | 0 => rfl
    | 1 => rfl
    | n + 2 => simp [messagesAt, streams, inbox]
  obtain ⟨hsent, -⟩ := run_merges_each_key_once .epoch "union" none streams inbox hstreams hrows
    hconsistent hinbox
  have honce : keysIn alignment? streams = {⟨⟨⟨0⟩, ⟨10⟩⟩, ∅⟩} := by decide +kernel
  rw [honce] at hsent
  exact hsent

end SeriesPipeline.Merging
