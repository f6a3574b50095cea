import SeriesPipeline.Plan.Check
import SeriesPipeline.Proofs.Plan.Order
import SeriesPipeline.Proofs.Time.Order

/-!
# What the checks establish

A blueprint that passes has distinct ids without slashes, windows and buckets that are not empty,
and joins with aliases.
-/

namespace SeriesPipeline.Blueprint

theorem bind_eq_ok_iff {c : Checked} {rest : Unit → Checked} :
    (c >>= rest) = .ok () ↔ c = .ok () ∧ rest () = .ok () := by
  cases c with
  | error fault => exact iff_of_false nofun (fun h => nomatch h.1)
  | ok _ => exact (and_iff_right rfl).symm

theorem refuse_eq_ok_iff {bad : Bool} {fault : GraphFault} :
    refuse bad fault = .ok () ↔ bad = false := by
  cases bad
  · exact iff_of_true rfl rfl
  · exact iff_of_false nofun nofun

/-- A check of a list against what it has seen passes when every item passes by itself and no name
comes twice. -/
theorem eq_ok_iff_of_seen {α : Type} {check : List String → List α → Checked} (P : α → Prop)
    (name : α → String) (hnil : ∀ seen, check seen [] = .ok ())
    (hcons : ∀ seen a rest, check seen (a :: rest) = .ok () ↔
      (P a ∧ name a ∉ seen) ∧ check (name a :: seen) rest = .ok ())
    {seen : List String} {l : List α} :
    check seen l = .ok () ↔ (∀ a ∈ l, P a ∧ name a ∉ seen) ∧ (l.map name).Nodup := by
  induction l generalizing seen with
  | nil => exact iff_of_true (hnil seen) ⟨nofun, List.nodup_nil⟩
  | cons a rest ih =>
    rw [hcons, ih, List.map_cons, List.nodup_cons, List.forall_mem_cons]
    simp only [List.mem_cons, not_or]
    constructor
    · rintro ⟨ha, hrest, hnodup⟩
      refine ⟨⟨ha, fun a' ha' => ⟨(hrest a' ha').1, (hrest a' ha').2.2⟩⟩, ?_, hnodup⟩
      intro hmem
      obtain ⟨a', ha', heq⟩ := List.mem_map.1 hmem
      exact (hrest a' ha').2.1 heq
    · rintro ⟨⟨ha, hrest⟩, hfresh, hnodup⟩
      refine ⟨ha, fun a' ha' => ⟨(hrest a' ha').1, ?_, (hrest a' ha').2⟩, hnodup⟩
      exact fun heq => hfresh (heq ▸ List.mem_map_of_mem ha')

theorem contains_eq_false_iff {α : Type} [DecidableEq α] {l : List α} {a : α} :
    l.contains a = false ↔ a ∉ l := by
  rw [List.contains_eq_mem, decide_eq_false_iff_not]

theorem checkIds_eq_ok_iff {seen : List String} {nodes : List Node} :
    checkIds seen nodes = .ok () ↔
      (∀ n ∈ nodes, (Text.isBlankText n.id = false ∧ '/' ∉ n.id.toList) ∧ n.id ∉ seen) ∧
        (nodes.map (·.id)).Nodup := by
  refine eq_ok_iff_of_seen _ _ (fun _ => rfl) fun seen n rest => ?_
  rw [checkIds, bind_eq_ok_iff, refuse_eq_ok_iff, bind_eq_ok_iff, refuse_eq_ok_iff,
    bind_eq_ok_iff, refuse_eq_ok_iff, contains_eq_false_iff, contains_eq_false_iff, and_assoc,
    and_assoc]

/-- The ids of a checked blueprint are distinct and without slashes. -/
theorem of_check_eq_ok {b : Blueprint} (h : b.check = .ok ()) :
    b.ids.Nodup ∧ ∀ n ∈ b.nodes, '/' ∉ n.id.toList := by
  rw [check, bind_eq_ok_iff, bind_eq_ok_iff] at h
  obtain ⟨hall, hnodup⟩ := checkIds_eq_ok_iff.1 h.2.1
  exact ⟨hnodup, fun n hn => (hall n hn).1.2⟩

theorem forM_eq_ok_iff {α : Type} {f : α → Checked} {l : List α} :
    l.forM f = .ok () ↔ ∀ a ∈ l, f a = .ok () := by
  induction l with
  | nil => exact iff_of_true rfl nofun
  | cons a rest ih =>
    rw [List.forall_mem_cons, ← ih]
    exact bind_eq_ok_iff

theorem checkNode_of_check_eq_ok {b : Blueprint} (h : b.check = .ok ()) {n : Node}
    (hn : n ∈ b.nodes) : checkNode n = .ok () := by
  rw [check, bind_eq_ok_iff, bind_eq_ok_iff, bind_eq_ok_iff, bind_eq_ok_iff] at h
  exact forM_eq_ok_iff.1 h.2.2.2.1 n hn

/-! ## Parameters -/

theorem reach_pos_of_isZero {d : Span} (h : d.isZero = false) : 0 < d.reach :=
  Span.reach_pos (Nat.one_le_iff_ne_zero.2 (of_decide_eq_false h))

theorem reach_pos_of_any_isZero {d? : Option Span} (h : d?.any Span.isZero = false) :
    ∀ d ∈ d?, 0 < d.reach := by
  intro d hd
  obtain rfl : d? = some d := hd
  exact reach_pos_of_isZero h

theorem reach_pos_of_checkGrouping {id : String} {g : Grouping} (h : checkGrouping id g = .ok ()) :
    ∀ bucket ∈ g.bucket, 0 < bucket.reach :=
  reach_pos_of_any_isZero (refuse_eq_ok_iff.1 h)

/-- What operators rely on: window ends and buckets that are apart, and ports to join. -/
def Sound : NodeKind → Prop
  | .window w => 0 < w.every.reach ∧ ∀ bucket ∈ w.grouping.bucket, 0 < bucket.reach
  | .join j => j.aliases ≠ []
  | _ => True

theorem sound_of_checkNode {n : Node} (h : checkNode n = .ok ()) : Sound n.kind := by
  obtain ⟨id, kind, inputs⟩ := n
  obtain ⟨harity, hparameters⟩ := bind_eq_ok_iff.1 h
  cases kind with
  | window w =>
    obtain ⟨hperiod, hparameters⟩ := bind_eq_ok_iff.1 hparameters
    obtain ⟨hevery, hgrouping⟩ := bind_eq_ok_iff.1 hparameters
    refine ⟨?_, reach_pos_of_checkGrouping hgrouping⟩
    cases hstep : w.every? with
    | none =>
      rw [WindowNode.every, hstep]
      exact reach_pos_of_isZero (refuse_eq_ok_iff.1 hperiod)
    | some every =>
      rw [WindowNode.every, hstep]
      exact reach_pos_of_any_isZero (refuse_eq_ok_iff.1 hevery) every hstep
  | join j =>
    obtain ⟨hcount, -⟩ := bind_eq_ok_iff.1 hparameters
    -- a join has at least two inputs, and an alias for each
    have hlength : ¬ j.aliases.length ≠ inputs.length :=
      of_decide_eq_false (refuse_eq_ok_iff.1 hcount)
    have htwo : ¬ inputs.length < 2 := of_decide_eq_false (refuse_eq_ok_iff.1 harity)
    exact List.ne_nil_of_length_pos (by omega)
  | _ => trivial

theorem sound_of_source {n : Node} {s : SourceNode} (hn : n.kind = .source s)
    (h : checkNode n = .ok ()) {period : Span} (hperiod : s.period = some period) :
    Sound (.window ⟨period, none, s.grouping⟩) := by
  obtain ⟨id, kind, inputs⟩ := n
  subst hn
  obtain ⟨-, hparameters⟩ := bind_eq_ok_iff.1 h
  obtain ⟨hzero, hparameters⟩ := bind_eq_ok_iff.1 hparameters
  obtain ⟨-, hgrouping⟩ := bind_eq_ok_iff.1 hparameters
  exact ⟨reach_pos_of_any_isZero (refuse_eq_ok_iff.1 hzero) period hperiod,
    reach_pos_of_checkGrouping hgrouping⟩

end SeriesPipeline.Blueprint
