import SeriesPipeline.Proofs.Data.Shape
import SeriesPipeline.Proofs.Joining.Slots
import SeriesPipeline.Proofs.SortedMap

/-!
# The shape of joined batches

A join holds back one batch per port for a window. Put side by side they are as long as the shortest
of them, and each row is as wide as all of them together and at a time of one of them.
-/

namespace SeriesPipeline

namespace Joining

/-- A slot per port, with batches that are held back for the window of the alignment. -/
structure ShapedSlots (enclosed : Prop) (ports : Nat) (key : Alignment) (slots : Slots) : Prop where
  length : slots.length = ports
  held : ∀ b, some b ∈ slots → b.HeldFor enclosed key.window

/-- What is pending has its shape. -/
structure Shaped (enclosed : Prop) (op : Joining) : Prop where
  aliases : op.aliases ≠ []
  pending : op.pending.All (ShapedSlots enclosed op.aliases.length)

/-- The batch has the parts side by side: it is named after the join or else after its first part,
has the tags and the window of the alignment, each column under the alias of its part and a dot, and
the `i`-th rows of all parts in one row, at the latest of their times, while every part has one. -/
structure SideBySide (op : Joining) (key : Alignment) (parts : List Batch) (joined : Batch) :
    Prop where
  name : op.name.or (parts.head?.map (·.name)) = some joined.name
  tags : joined.tags = key.tags
  window : joined.window = some key.window
  columns : joined.columns =
    (op.aliases.zip parts).flatMap fun e => e.2.columns.map fun c => e.1 ++ "." ++ c
  length : ∀ i, i < joined.rows.length ↔ ∀ p ∈ parts, i < p.rows.length
  values : ∀ (i : Nat) row, joined.rows[i]? = some row →
    row.values = parts.flatMap (·.rows[i]!.values)
  time : ∀ (i : Nat) row, joined.rows[i]? = some row →
    (∃ p ∈ parts, p.rows[i]!.time = row.time) ∧ ∀ p ∈ parts, p.rows[i]!.time ≤ row.time

variable {enclosed : Prop} {op : Joining} {key : Alignment} {parts : List Batch}
  {b b' joined : Batch} {slots : Slots} {i : Nat}

/-! ## Rows side by side -/

/-- There are as many rows as in the shortest part. -/
theorem lt_length_rows_combine_iff (op : Joining) (key : Alignment) (h : parts ≠ []) :
    i < (op.combine key parts).rows.length ↔ ∀ p ∈ parts, i < p.rows.length := by
  rw [combine, List.length_map, List.length_range]
  cases hmin : (parts.map (·.rows.length)).min? with
  | none => exact absurd (List.map_eq_nil_iff.1 (List.min?_eq_none_iff.1 hmin)) h
  | some n =>
    rw [Option.getD_some, Nat.lt_iff_add_one_le, List.le_min?_iff hmin, List.forall_mem_map]
    rfl

section Rows

variable (hi : ∀ p ∈ parts, i < p.rows.length)
include hi

theorem filterMap_rows_eq : parts.filterMap (·.rows[i]?) = parts.map (·.rows[i]!) := by
  rw [← List.filterMap_eq_map']
  refine List.filterMap_congr fun p hp => ?_
  rw [List.getElem?_eq_getElem (hi p hp), List.getElem!_eq_getElem?_getD,
    List.getElem?_eq_getElem (hi p hp)]
  rfl

theorem getElem!_mem_rows {p : Batch} (hp : p ∈ parts) : p.rows[i]! ∈ p.rows := by
  rw [getElem!_pos p.rows i (hi p hp)]
  exact List.getElem_mem _

/-- A combined row is at the latest of the times of its rows. -/
theorem time_combinedRow (h : parts ≠ []) :
    (∃ p ∈ parts, p.rows[i]!.time = (combinedRow parts i).time) ∧
      ∀ p ∈ parts, p.rows[i]!.time ≤ (combinedRow parts i).time := by
  have htime : (combinedRow parts i).time =
      (parts.map (·.rows[i]!.time)).foldl max .least := by
    rw [combinedRow, filterMap_rows_eq hi, List.foldl_map, List.foldl_map]
  have hle : ∀ p ∈ parts, p.rows[i]!.time ≤ (combinedRow parts i).time := fun p hp =>
    (Instant.foldl_max_le_iff.1 htime.ge).2 _ (List.mem_map_of_mem hp)
  refine ⟨?_, hle⟩
  have hmem := Instant.foldl_max_mem (parts.map (·.rows[i]!.time)) .least
  rw [← htime] at hmem
  rcases List.mem_cons.1 hmem with hleast | hmem
  · -- at the least instant, all of the rows are at that one
    obtain ⟨p, hp⟩ := List.exists_mem_of_ne_nil _ h
    exact ⟨p, hp, le_antisymm (hle p hp) (hleast ▸ (p.rows[i]!.time).bounds.1)⟩
  · exact List.mem_map.1 hmem

end Rows

theorem sideBySide_combine (op : Joining) (key : Alignment) (h : parts ≠ []) :
    op.SideBySide key parts (op.combine key parts) := by
  have hrow : ∀ (i : Nat) row, (op.combine key parts).rows[i]? = some row →
      row = combinedRow parts i ∧ ∀ p ∈ parts, i < p.rows.length := by
    intro i row hrow
    obtain ⟨hi, rfl⟩ := List.getElem?_eq_some_iff.1 hrow
    refine ⟨?_, (lt_length_rows_combine_iff op key h).1 hi⟩
    simp only [combine, List.getElem_map, List.getElem_range]
  refine ⟨?_, rfl, rfl, rfl, fun i => lt_length_rows_combine_iff op key h, fun i row hrow' => ?_,
    fun i row hrow' => ?_⟩
  · obtain ⟨first, rest, rfl⟩ := List.exists_cons_of_ne_nil h
    rw [combine]
    cases op.name <;> rfl
  · obtain ⟨rfl, hi⟩ := hrow i row hrow'
    rw [combinedRow, filterMap_rows_eq hi, List.flatMap_map]
  · obtain ⟨rfl, hi⟩ := hrow i row hrow'
    exact time_combinedRow hi h

namespace SideBySide

variable (h : op.SideBySide key parts joined)
include h

/-- Every part has a row for each row of the batch. -/
theorem lt_length {row : Row} (hrow : joined.rows[i]? = some row) :
    ∀ p ∈ parts, i < p.rows.length :=
  (h.length i).1 (List.getElem?_eq_some_iff.1 hrow).1

/-- Each row is at the time of a row of some part. -/
theorem exists_time_eq {t : Instant} (ht : t ∈ joined.times) :
    ∃ p ∈ parts, t ∈ p.times := by
  obtain ⟨row, hmem, rfl⟩ := List.mem_map.1 ht
  obtain ⟨i, hrow⟩ := List.mem_iff_getElem?.1 hmem
  obtain ⟨⟨p, hp, htime⟩, -⟩ := h.time i row hrow
  rw [← htime]
  exact ⟨p, hp, List.mem_map_of_mem (getElem!_mem_rows (h.lt_length hrow) hp)⟩

theorem rectangular (hlength : op.aliases.length = parts.length)
    (hparts : ∀ p ∈ parts, p.Rectangular) : joined.Rectangular := by
  intro row hmem
  obtain ⟨i, hrow⟩ := List.mem_iff_getElem?.1 hmem
  have hvalues : parts.map (fun p => p.rows[i]!.values.length) =
      parts.map (·.columns.length) :=
    List.map_congr_left fun p hp => hparts p hp _ (getElem!_mem_rows (h.lt_length hrow) hp)
  have hcolumns : (op.aliases.zip parts).map
      (fun e => (e.2.columns.map fun c => e.1 ++ "." ++ c).length) =
        parts.map (·.columns.length) := by
    -- there are as many aliases as parts, so no part is left out
    rw [← List.map_snd_zip hlength.ge, List.map_map, List.map_snd_zip hlength.ge]
    exact List.map_congr_left fun e _ => List.length_map _
  rw [h.values i row hrow, h.columns, List.length_flatMap, List.length_flatMap, hvalues, hcolumns]

theorem pairwise_times (hparts : ∀ p ∈ parts, p.times.Pairwise (· ≤ ·)) :
    joined.times.Pairwise (· ≤ ·) := by
  rw [Batch.times, List.pairwise_map, List.pairwise_iff_getElem]
  intro i j hi hj hij
  -- the part that gives the earlier row its time is not later in the other row
  obtain ⟨⟨p, hp, htime⟩, -⟩ := h.time i _ (List.getElem?_eq_getElem hi)
  obtain ⟨-, hle⟩ := h.time j _ (List.getElem?_eq_getElem hj)
  have hi' := (h.length i).1 hi p hp
  have hj' := (h.length j).1 hj p hp
  rw [← htime]
  refine le_trans ?_ (hle p hp)
  rw [getElem!_pos p.rows i hi', getElem!_pos p.rows j hj']
  exact List.pairwise_iff_getElem.1 (List.pairwise_map.1 (hparts p hp)) i j hi' hj' hij

theorem fits (hlength : op.aliases.length = parts.length)
    (hheld : ∀ p ∈ parts, p.HeldFor enclosed key.window) : joined.Fits False enclosed := by
  have hparts : ∀ p ∈ parts, p.WellFormed := fun p hp => (hheld p hp).wellFormed
  refine ⟨⟨List.ne_nil_of_length_pos ?_, ?_, ?_⟩, False.elim, fun henclosed =>
    ⟨key.window, h.window, fun t ht => ?_⟩⟩
  · exact (h.length 0).2 fun p hp => List.length_pos_of_ne_nil (hparts p hp).nonempty
  · exact h.rectangular hlength fun p hp => (hparts p hp).width
  · exact h.pairwise_times fun p hp => (hparts p hp).ordered
  · obtain ⟨p, hp, htime⟩ := h.exists_time_eq ht
    exact (hheld p hp).contains henclosed t htime

end SideBySide

/-! ## What is pending -/

theorem shapedSlots_replicate (enclosed : Prop) (ports : Nat) (key : Alignment) :
    ShapedSlots enclosed ports key (List.replicate ports none) :=
  ⟨List.length_replicate, fun _ hb => nomatch (List.mem_replicate.1 hb).2⟩

theorem ShapedSlots.set {ports : Nat} (h : ShapedSlots enclosed ports key slots) (port : Nat)
    (hb : b.HeldFor enclosed key.window) :
    ShapedSlots enclosed ports key (slots.set port (some b)) := by
  refine ⟨(List.length_set).trans h.length, fun b' hb' => ?_⟩
  rcases List.mem_or_eq_of_mem_set hb' with hb' | hb'
  · exact h.held b' hb'
  · cases hb'
    exact hb

/-- A join that completes has as many parts as ports. -/
theorem ShapedSlots.of_complete? {ports : Nat} (h : ShapedSlots enclosed ports key slots)
    (hparts : complete? slots = some parts) :
    parts.length = ports ∧ ∀ p ∈ parts, p.HeldFor enclosed key.window := by
  rw [complete?_eq] at hparts
  split at hparts
  · rename_i hall
    cases hparts
    refine ⟨?_, fun p hp => h.held p (List.reduceOption_mem_iff.1 hp)⟩
    rw [List.reduceOption_length_eq_iff.2 fun slot hslot => List.all_eq_true.1 hall slot hslot,
      h.length]
  · cases hparts

theorem ShapedSlots.parts_ne_nil (h : ShapedSlots enclosed op.aliases.length key slots)
    (haliases : op.aliases ≠ []) (hparts : complete? slots = some parts) : parts ≠ [] :=
  List.ne_nil_of_length_pos
    ((h.of_complete? hparts).1 ▸ List.length_pos_of_ne_nil haliases)

theorem ShapedSlots.fits_combine (h : ShapedSlots enclosed op.aliases.length key slots)
    (haliases : op.aliases ≠ []) (hparts : complete? slots = some parts) :
    (op.combine key parts).Fits False enclosed := by
  obtain ⟨hlength, hheld⟩ := h.of_complete? hparts
  exact (sideBySide_combine op key (h.parts_ne_nil haliases hparts)).fits hlength.symm hheld

section Steps

variable (h : op.Shaped enclosed)
include h

theorem Shaped.onBatch {distinct : Prop} (hb : b.Fits distinct enclosed) (port : Nat) :
    (op.onBatch port b).1.Shaped enclosed ∧
      ∀ b' ∈ (op.onBatch port b).2, b'.Fits False enclosed := by
  rw [Joining.onBatch]
  cases hkey : op.alignment? b with
  | none => exact ⟨h, nofun⟩
  | some key =>
    obtain ⟨w, hw, hkey⟩ := Option.map_eq_some_iff.1 hkey
    have hheld : b.HeldFor enclosed key.window := hkey ▸ hb.heldFor hw
    have hslots := (h.pending.getD (shapedSlots_replicate enclosed _ key)).set port hheld
    dsimp only
    split
    · rename_i parts hparts
      refine ⟨⟨h.aliases, h.pending.filter _⟩, fun b' hb' => ?_⟩
      cases hb'
      exact hslots.fits_combine h.aliases hparts
    · exact ⟨⟨h.aliases, (h.pending.insert hslots).keepLast _⟩, nofun⟩

theorem Shaped.onWatermark (t : Instant) : (op.onWatermark t).Shaped enclosed :=
  ⟨h.aliases, h.pending.filter _⟩

theorem Shaped.onClose : op.onClose.Shaped enclosed := ⟨h.aliases, SortedMap.all_empty⟩

end Steps

end Joining

end SeriesPipeline
