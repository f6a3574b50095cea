import Mathlib.Data.List.Perm.Basic
import SeriesPipeline.Plan.Order

/-!
# The order of nodes

The search finishes every node once, and an order without a misplaced node has the inputs of each
node before it.
-/

namespace SeriesPipeline.Blueprint

def ids (b : Blueprint) : List String := b.nodes.map (·.id)

variable {b : Blueprint} {s t u : Search} {id : String}

theorem mem_ids_of_mem_readers {reader : String} (h : reader ∈ b.readers id) : reader ∈ b.ids := by
  obtain ⟨edge, hedge, rfl⟩ := List.mem_map.1 h
  obtain ⟨n, hn, hinput⟩ := List.mem_flatMap.1 (List.mem_filter.1 hedge).1
  obtain ⟨input, -, rfl⟩ := List.mem_map.1 hinput
  exact List.mem_map_of_mem hn

/-- Between two states of a search some nodes were discovered, and the same nodes finished. -/
structure Visits (b : Blueprint) (s t : Search) : Prop where
  balanced : ∃ new, t.discovered.Perm (new ++ s.discovered) ∧ t.finished.Perm (new ++ s.finished) ∧
    ∀ id ∈ new, id ∈ b.ids
  distinct : s.discovered.Nodup → t.discovered.Nodup

theorem Visits.refl (s : Search) : b.Visits s s :=
  ⟨⟨[], .refl _, .refl _, fun _ h => absurd h List.not_mem_nil⟩, fun h => h⟩

theorem Visits.trans (h : b.Visits s t) (h' : b.Visits t u) : b.Visits s u := by
  obtain ⟨new, hdiscovered, hfinished, hknown⟩ := h.balanced
  obtain ⟨new', hdiscovered', hfinished', hknown'⟩ := h'.balanced
  refine ⟨⟨new' ++ new, ?_, ?_, ?_⟩, fun hs => h'.distinct (h.distinct hs)⟩
  · rw [List.append_assoc]
    exact hdiscovered'.trans (hdiscovered.append_left new')
  · rw [List.append_assoc]
    exact hfinished'.trans (hfinished.append_left new')
  · intro id hid
    rcases List.mem_append.1 hid with hid | hid
    · exact hknown' id hid
    · exact hknown id hid

theorem Visits.discovered_subset (h : b.Visits s t) (hid : id ∈ s.discovered) :
    id ∈ t.discovered := by
  obtain ⟨new, hdiscovered, -⟩ := h.balanced
  exact hdiscovered.mem_iff.2 (List.mem_append_right _ hid)

theorem visits_foldl {step : Search → String → Search} {l : List String}
    (h : ∀ s, ∀ id ∈ l, b.Visits s (step s id)) (s : Search) : b.Visits s (l.foldl step s) := by
  induction l generalizing s with
  | nil => exact .refl s
  | cons id rest ih =>
    have hfirst := h s id List.mem_cons_self
    exact hfirst.trans (ih (fun s id hid => h s id (List.mem_cons_of_mem _ hid)) _)

theorem visits_readers {fuel : Nat}
    (h : ∀ s : Search, ∀ id ∈ b.ids, b.Visits s (b.visit fuel s id)) (s : Search) (id : String) :
    b.Visits s ((b.readers id).reverse.foldl (b.visit fuel) s) := by
  refine visits_foldl (fun s reader hreader => h s reader ?_) s
  exact mem_ids_of_mem_readers (List.mem_reverse.1 hreader)

/-- A visit finishes all that it discovers, the node that it starts from last. -/
theorem visits_visit (fuel : Nat) (s : Search) (hid : id ∈ b.ids) :
    b.Visits s (b.visit fuel s id) := by
  induction fuel generalizing s id with
  | zero => exact .refl s
  | succ fuel ih =>
    rw [visit]
    by_cases hseen : s.discovered.contains id = true
    · rw [if_pos hseen]
      exact .refl s
    · rw [if_neg hseen]
      have hreaders := visits_readers (fun s id hid => ih s hid)
        { s with discovered := id :: s.discovered } id
      obtain ⟨new, hdiscovered, hfinished, hknown⟩ := hreaders.balanced
      refine ⟨⟨id :: new, ?_, hfinished.cons id, ?_⟩, fun hs => hreaders.distinct ?_⟩
      · exact hdiscovered.trans List.perm_middle
      · intro id' hid'
        rcases List.mem_cons.1 hid' with rfl | hid'
        · exact hid
        · exact hknown id' hid'
      · exact List.nodup_cons.2 ⟨by simpa using hseen, hs⟩

theorem mem_discovered_visit (fuel : Nat) (s : Search) (id : String) :
    id ∈ (b.visit (fuel + 1) s id).discovered := by
  rw [visit]
  by_cases hseen : s.discovered.contains id = true
  · rw [if_pos hseen]
    simpa using hseen
  · rw [if_neg hseen]
    have hreaders := visits_readers (b := b) (fun s id hid => visits_visit fuel s hid)
      { s with discovered := id :: s.discovered } id
    exact hreaders.discovered_subset List.mem_cons_self

/-- The search lists every node once. -/
theorem searchOrder_perm (h : b.ids.Nodup) : b.searchOrder.Perm b.ids := by
  have hvisits : ∀ (l : List String) (s : Search), (∀ id ∈ l, id ∈ b.ids) →
      b.Visits s (l.foldl (visit b b.nodes.length) s) :=
    fun l s hl => visits_foldl (fun s id hid => visits_visit _ s (hl id hid)) s
  have hall := hvisits b.ids ⟨[], []⟩ fun _ hid => hid
  obtain ⟨new, hdiscovered, hfinished, hknown⟩ := hall.balanced
  have hnew := hdiscovered.nodup_iff.1 (hall.distinct List.nodup_nil)
  rw [List.append_nil] at hdiscovered hfinished hnew
  refine hfinished.trans ((List.perm_ext_iff_of_nodup hnew h).2 fun id => ?_)
  refine ⟨hknown id, fun hid => ?_⟩
  rw [← hdiscovered.mem_iff]
  -- the visit that starts from the node discovers it, and later visits forget nothing
  obtain ⟨before, after, hsplit⟩ := List.append_of_mem hid
  have hfuel : b.nodes.length = (b.nodes.length - 1) + 1 := by
    have hlength : b.nodes.length = (before ++ id :: after).length := by
      rw [← hsplit, ids, List.length_map]
    rw [List.length_append, List.length_cons] at hlength
    omega
  rw [hsplit, List.foldl_append, List.foldl_cons]
  have hlater := hvisits after
    (b.visit b.nodes.length (before.foldl (visit b b.nodes.length) ⟨[], []⟩) id)
    fun id' hid' => hsplit ▸ List.mem_append_right _ (List.mem_cons_of_mem _ hid')
  apply hlater.discovered_subset
  rw [hfuel]
  exact mem_discovered_visit _ _ id

/-- Where no node is misplaced, its inputs come before it. -/
theorem inputs_before_of_misplaced?_eq_none {placed l : List String}
    (h : b.misplaced? placed l = none) {before after : List String} {id : String}
    (hl : l = before ++ id :: after) :
    ∀ input ∈ b.inputsOf id, input ∈ placed ∨ input ∈ before := by
  -- on the nodes before `id`, each of which is placed when the list goes on
  induction before generalizing placed l with
  | nil =>
    subst hl
    rw [List.nil_append, misplaced?] at h
    intro input hinput
    split at h
    · cases h
    · rename_i hnone
      have hplaced := List.find?_eq_none.1 hnone input (List.mem_reverse.2 hinput)
      exact .inl (by simpa using hplaced)
  | cons first before ih =>
    subst hl
    rw [List.cons_append, misplaced?] at h
    intro input hinput
    split at h
    · cases h
    · rcases ih h rfl input hinput with hplaced | hbefore
      · rcases List.mem_cons.1 hplaced with rfl | hplaced
        · exact .inr List.mem_cons_self
        · exact .inl hplaced
      · exact .inr (List.mem_cons_of_mem _ hbefore)

/-- An order lists every node once, and each node after its inputs. -/
theorem of_order_eq_ok (hids : b.ids.Nodup) {order : List String} (h : b.order = .ok order) :
    order.Perm b.ids ∧ ∀ before id after, order = before ++ id :: after →
      ∀ input ∈ b.inputsOf id, input ∈ before := by
  rw [Blueprint.order] at h
  split at h
  · cases h
  · rename_i hnone
    cases h
    refine ⟨searchOrder_perm hids, fun before id after heq input hinput => ?_⟩
    exact (inputs_before_of_misplaced?_eq_none hnone heq input hinput).resolve_left
      List.not_mem_nil

end SeriesPipeline.Blueprint
