import Mathlib.Logic.Relation
import SeriesPipeline.Proofs.Plan.Wiring

/-!
# Cycles

The search finishes a node after its readers, apart from those that it has come from, and these
reach the node. So no node is misplaced in the order of the search exactly when no node reaches
itself, and a misplaced input is on a cycle.
-/

namespace SeriesPipeline.Blueprint

open Relation

/-- A node of the id `reader` reads from the node `id`. -/
def Feeds (b : Blueprint) (id reader : String) : Prop :=
  ∃ n ∈ b.nodes, n.id = reader ∧ id ∈ n.inputs

/-- Along edges, `id` leads to `target`, or is that node. -/
abbrev Reaches (b : Blueprint) : String → String → Prop := ReflTransGen b.Feeds

/-- A node from which a path of one edge or more leads back to it. -/
def OnCycle (b : Blueprint) (id : String) : Prop := TransGen b.Feeds id id

variable {b : Blueprint} {fuel : Nat} {s t : Search} {id reader input : String}

theorem mem_readers : reader ∈ b.readers id ↔ b.Feeds id reader := by
  simp only [readers, edges, List.mem_map, List.mem_filter, List.mem_flatMap, decide_eq_true_eq]
  constructor
  · rintro ⟨_, ⟨⟨n, hn, input, hinput, rfl⟩, rfl⟩, rfl⟩
    exact ⟨n, hn, rfl, hinput⟩
  · rintro ⟨n, hn, rfl, hinput⟩
    exact ⟨(id, n.id), ⟨⟨n, hn, id, hinput, rfl⟩, rfl⟩, rfl⟩

theorem Feeds.reader_mem_ids (h : b.Feeds id reader) : reader ∈ b.ids := by
  obtain ⟨n, hn, rfl, -⟩ := h
  exact List.mem_map_of_mem hn

theorem feeds_of_mem_inputsOf (h : input ∈ b.inputsOf id) : b.Feeds input id := by
  rw [inputsOf] at h
  cases hn : b.node? id with
  | none =>
    rw [hn] at h
    cases h
  | some n =>
    rw [hn] at h
    have hid := List.find?_some (p := fun n : Node => decide (n.id = id)) hn
    exact ⟨n, List.mem_of_find?_eq_some hn, of_decide_eq_true hid, h⟩

/-! ## What the search finishes -/

/-- Every reader of a finished node was finished before that node, or reaches it. -/
def Settled (b : Blueprint) : List String → Prop
  | [] => True
  | id :: finished =>
    (∀ reader, b.Feeds id reader → reader ∈ finished ∨ b.Reaches reader id) ∧ b.Settled finished

theorem Settled.of_append {before after : List String} (h : b.Settled (before ++ id :: after))
    (hreader : b.Feeds id reader) : reader ∈ after ∨ b.Reaches reader id := by
  induction before with
  | nil => exact h.1 reader hreader
  | cons first before ih => exact ih h.2

/-- A search on its way at `id`: the nodes that are discovered and not yet finished lead to `id`,
and the fuel is enough for those that are not yet discovered. -/
structure Underway (b : Blueprint) (fuel : Nat) (s : Search) (id : String) : Prop where
  settled : b.Settled s.finished
  leads : ∀ v ∈ s.discovered, v ∈ s.finished ∨ b.Reaches v id
  fuel : b.nodes.length ≤ fuel + s.discovered.length
  distinct : s.discovered.Nodup
  known : ∀ v ∈ s.discovered, v ∈ b.ids

namespace Underway

theorem of_visits (h : b.Underway fuel s id) (hvisits : b.Visits s t)
    (hsettled : b.Settled t.finished) : b.Underway fuel t id := by
  obtain ⟨new, hdiscovered, hfinished, hknown⟩ := hvisits.balanced
  refine ⟨hsettled, fun v hv => ?_, ?_, hvisits.distinct h.distinct, fun v hv => ?_⟩
  · rw [hfinished.mem_iff, List.mem_append]
    rcases List.mem_append.1 (hdiscovered.mem_iff.1 hv) with hv | hv
    · exact .inl (.inl hv)
    · exact (h.leads v hv).imp_left .inr
  · have hlength := hdiscovered.length_eq
    rw [List.length_append] at hlength
    have hfuel := h.fuel
    omega
  · rcases List.mem_append.1 (hdiscovered.mem_iff.1 hv) with hv | hv
    · exact hknown v hv
    · exact h.known v hv

theorem feeds (h : b.Underway fuel s id) (hreader : b.Feeds id reader) :
    b.Underway fuel s reader :=
  ⟨h.settled, fun v hv => (h.leads v hv).imp_right (·.tail hreader), h.fuel, h.distinct, h.known⟩

/-- A node that has just been discovered is on the way to itself. -/
theorem enter (h : b.Underway (fuel + 1) s id) (hid : id ∈ b.ids) (hnew : id ∉ s.discovered) :
    b.Underway fuel { s with discovered := id :: s.discovered } id where
  settled := h.settled
  leads := List.forall_mem_cons.2 ⟨.inr .refl, h.leads⟩
  fuel := by
    have hfuel := h.fuel
    rw [List.length_cons]
    omega
  distinct := List.nodup_cons.2 ⟨hnew, h.distinct⟩
  known := List.forall_mem_cons.2 ⟨hid, h.known⟩

/-- Without fuel, all nodes have been discovered. -/
theorem mem_discovered (h : b.Underway 0 s id) (hid : id ∈ b.ids) : id ∈ s.discovered := by
  have hlength : b.ids.length ≤ s.discovered.length := by
    have hfuel := h.fuel
    rw [ids, List.length_map]
    omega
  have hall := (List.subperm_of_subset h.distinct h.known).perm_of_length_le hlength
  exact hall.mem_iff.2 hid

theorem foldl_readers {l : List String} (h : b.Underway fuel s id)
    (hvisit : ∀ {s : Search} {reader : String}, b.Underway fuel s reader → reader ∈ b.ids →
      b.Settled (b.visit fuel s reader).finished ∧ reader ∈ (b.visit fuel s reader).discovered)
    (hl : ∀ reader ∈ l, b.Feeds id reader) :
    b.Underway fuel (l.foldl (b.visit fuel) s) id ∧
      ∀ reader ∈ l, reader ∈ (l.foldl (b.visit fuel) s).discovered := by
  induction l generalizing s with
  | nil => exact ⟨h, nofun⟩
  | cons first rest ih =>
    have hfirst := hl first List.mem_cons_self
    have hrest : ∀ reader ∈ rest, b.Feeds id reader :=
      fun reader hreader => hl reader (List.mem_cons_of_mem _ hreader)
    obtain ⟨hsettled, hmem⟩ := hvisit (h.feeds hfirst) hfirst.reader_mem_ids
    have hvisits := visits_visit fuel s hfirst.reader_mem_ids
    obtain ⟨hdone, hall⟩ := ih (h.of_visits hvisits hsettled) hrest
    refine ⟨hdone, List.forall_mem_cons.2 ⟨?_, hall⟩⟩
    -- later visits forget nothing
    have hlater : b.Visits (b.visit fuel s first) (rest.foldl (b.visit fuel) _) :=
      visits_foldl (fun s reader hreader =>
        visits_visit fuel s (hrest reader hreader).reader_mem_ids) _
    exact hlater.discovered_subset hmem

/-- A visit discovers its node, and leaves every reader of what it finishes finished or on a path
to it. -/
theorem visit (h : b.Underway fuel s id) (hid : id ∈ b.ids) :
    b.Settled (b.visit fuel s id).finished ∧ id ∈ (b.visit fuel s id).discovered := by
  induction fuel generalizing s id with
  | zero => exact ⟨h.settled, h.mem_discovered hid⟩
  | succ fuel ih =>
    refine ⟨?_, mem_discovered_visit fuel s id⟩
    rw [Blueprint.visit]
    by_cases hseen : s.discovered.contains id = true
    · rw [if_pos hseen]
      exact h.settled
    · rw [if_neg hseen]
      have hentered := h.enter hid (by simpa using hseen)
      obtain ⟨hdone, hall⟩ := hentered.foldl_readers (fun h hid => ih h hid)
        fun reader hreader => mem_readers.1 (List.mem_reverse.1 hreader)
      refine ⟨fun reader hreader => ?_, hdone.settled⟩
      exact hdone.leads reader (hall reader (List.mem_reverse.2 (mem_readers.2 hreader)))

end Underway

theorem settled_searchOrder (b : Blueprint) : b.Settled b.searchOrder := by
  have hfold : ∀ (l : List String) (s : Search), (∀ id ∈ l, id ∈ b.ids) → b.Visits ⟨[], []⟩ s →
      b.Settled s.finished → b.Settled (l.foldl (b.visit b.nodes.length) s).finished := by
    intro l
    induction l with
    | nil => exact fun _ _ _ hsettled => hsettled
    | cons id rest ih =>
      intro s hl hvisits hsettled
      have hid := hl id List.mem_cons_self
      obtain ⟨new, hdiscovered, hfinished, hknown⟩ := hvisits.balanced
      rw [List.append_nil] at hdiscovered hfinished
      -- between two visits from the outside, all that is discovered is finished
      have hunderway : b.Underway b.nodes.length s id :=
        ⟨hsettled, fun v hv => .inl (hfinished.mem_iff.2 (hdiscovered.mem_iff.1 hv)),
          Nat.le_add_right _ _, hvisits.distinct List.nodup_nil,
          fun v hv => hknown v (hdiscovered.mem_iff.1 hv)⟩
      exact ih _ (fun id hid => hl id (List.mem_cons_of_mem _ hid))
        (hvisits.trans (visits_visit _ s hid)) (hunderway.visit hid).1
  exact hfold b.ids ⟨[], []⟩ (fun _ hid => hid) (.refl _) trivial

/-! ## Misplaced inputs -/

theorem of_misplaced?_eq_some {placed l : List String} (h : b.misplaced? placed l = some input) :
    ∃ before id after, l = before ++ id :: after ∧ input ∈ b.inputsOf id ∧
      input ∉ placed ∧ input ∉ before := by
  induction l generalizing placed with
  | nil => cases h
  | cons id rest ih =>
    rw [misplaced?] at h
    split at h
    · rename_i first hfirst
      cases h
      have hplaced := List.find?_some hfirst
      exact ⟨[], id, rest, rfl, List.mem_reverse.1 (List.mem_of_find?_eq_some hfirst),
        by simpa using hplaced, List.not_mem_nil⟩
    · obtain ⟨before, reader, after, rfl, hinput, hplaced, hbefore⟩ := ih h
      rw [List.mem_cons, not_or] at hplaced
      refine ⟨id :: before, reader, after, rfl, hinput, hplaced.2, ?_⟩
      rw [List.mem_cons, not_or]
      exact ⟨hplaced.1, hbefore⟩

section Order

variable (hids : b.ids.Nodup)
include hids

theorem mem_inputsOf_iff : input ∈ b.inputsOf id ↔ b.Feeds input id := by
  refine ⟨feeds_of_mem_inputsOf, ?_⟩
  rintro ⟨n, hn, rfl, hinput⟩
  rw [inputsOf, node?_eq_some_of_mem hids hn]
  exact hinput

/-- An input that is reported lies on a cycle. -/
theorem onCycle_of_order_eq_error (hknown : ∀ input reader, b.Feeds input reader → input ∈ b.ids)
    {cause : GraphFault} (h : b.order = .error cause) : ∃ id, cause = .cycle id ∧ b.OnCycle id := by
  rw [order] at h
  split at h
  · rename_i input hinput
    cases h
    refine ⟨input, rfl, ?_⟩
    obtain ⟨before, id, after, hsplit, hread, -, hbefore⟩ := of_misplaced?_eq_some hinput
    have hfeeds := feeds_of_mem_inputsOf hread
    have hperm := searchOrder_perm hids
    have hmem : input ∈ before ++ id :: after :=
      hsplit ▸ hperm.mem_iff.2 (hknown input id hfeeds)
    rcases List.mem_cons.1 ((List.mem_append.1 hmem).resolve_left hbefore) with rfl | hafter
    · exact .single hfeeds
    · -- the reader comes before its input, so it was finished later and reaches the input
      obtain ⟨middle, last, rfl⟩ := List.append_of_mem hafter
      have hsettled := settled_searchOrder b
      have hnodup := hperm.nodup_iff.2 hids
      rw [hsplit, ← List.cons_append, ← List.append_assoc] at hsettled hnodup
      have hid : id ∉ last := fun hid => (List.nodup_append.1 hnodup).2.2 id
        (List.mem_append_right _ List.mem_cons_self) id (List.mem_cons_of_mem _ hid) rfl
      exact .head' hfeeds ((hsettled.of_append hfeeds).resolve_left hid)
  · cases h

theorem not_onCycle_of_order_eq_ok {order : List String} (h : b.order = .ok order) :
    ¬ b.OnCycle id := by
  obtain ⟨hperm, hbefore⟩ := of_order_eq_ok hids h
  have hnodup := hperm.nodup_iff.2 hids
  -- along an edge the position in the order grows
  have hlt : ∀ input reader, b.Feeds input reader → order.idxOf input < order.idxOf reader := by
    intro input reader hfeeds
    obtain ⟨before, after, hsplit⟩ := List.append_of_mem (hperm.mem_iff.2 hfeeds.reader_mem_ids)
    have hinput := hbefore before reader after hsplit input ((mem_inputsOf_iff hids).2 hfeeds)
    rw [hsplit] at hnodup ⊢
    have hreader : reader ∉ before := fun hmem =>
      (List.nodup_append.1 hnodup).2.2 reader hmem reader List.mem_cons_self rfl
    rw [List.idxOf_append_of_mem hinput, List.idxOf_append_of_notMem hreader]
    exact Nat.lt_add_right _ (List.idxOf_lt_length_iff.2 hinput)
  intro hcycle
  have hpath : ∀ {v w}, TransGen b.Feeds v w → order.idxOf v < order.idxOf w := by
    intro v w hvw
    induction hvw with
    | single hfeeds => exact hlt _ _ hfeeds
    | tail _ hfeeds ih => exact Nat.lt_trans ih (hlt _ _ hfeeds)
  exact Nat.lt_irrefl _ (hpath hcycle)

end Order

end SeriesPipeline.Blueprint
