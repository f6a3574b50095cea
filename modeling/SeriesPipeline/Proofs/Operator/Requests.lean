import SeriesPipeline.Data.Batch

/-!
# Requests to operators

A request hands an operator a batch, a watermark or the end of its input. A run makes requests one
after the other and gathers the batches that they give out.
-/

namespace SeriesPipeline

/-- What is asked of an operator. -/
inductive Request where
  | batch (port : Nat) (b : Batch)
  | watermark (t : Instant)
  | close

namespace Request

/-- The batch that is handed over, with its port. -/
def batch? : Request → Option (Nat × Batch)
  | .batch port b => some (port, b)
  | _ => none

def watermark? : Request → Option Instant
  | .watermark t => some t
  | _ => none

/-- The batches handed over, in order. -/
def batches (requests : List Request) : List (Nat × Batch) := requests.filterMap batch?

/-- No batch comes after a watermark that has passed its window. -/
def InTime (requests : List Request) : Prop :=
  requests.Pairwise fun earlier later =>
    ∀ t ∈ earlier.watermark?, ∀ e ∈ later.batch?, ∀ w ∈ e.2.alignmentWindow, t < w.stop

/-- Whether some watermark has passed the end of a window. -/
def passes (requests : List Request) (stop : Instant) : Bool :=
  requests.any fun r => r.watermark?.any (stop ≤ ·)

/-- Of some batches with ports, those of one port. -/
def fromPort (port : Nat) (log : List (Nat × Batch)) : List Batch :=
  (log.filter fun e => e.1 = port).map (·.2)

theorem batches_append (requests later : List Request) :
    batches (requests ++ later) = batches requests ++ batches later :=
  List.filterMap_append

theorem batches_concat (requests : List Request) (r : Request) :
    batches (requests ++ [r]) = batches requests ++ r.batch?.toList := by
  rw [batches_append]
  cases r <;> rfl

theorem batches_batch (requests : List Request) (port : Nat) (b : Batch) :
    batches (requests ++ [.batch port b]) = batches requests ++ [(port, b)] :=
  batches_concat requests (.batch port b)

theorem forall_mem_batches_cons {P : Nat × Batch → Prop} {r : Request} {rest : List Request} :
    (∀ e ∈ batches (r :: rest), P e) ↔ (∀ e ∈ r.batch?, P e) ∧ ∀ e ∈ batches rest, P e := by
  have hcons : batches (r :: rest) = r.batch?.toList ++ batches rest := by cases r <;> rfl
  simp only [hcons, List.forall_mem_append, Option.mem_toList, Option.mem_def]

theorem batches_watermark (requests : List Request) (t : Instant) :
    batches (requests ++ [.watermark t]) = batches requests :=
  (batches_concat requests (.watermark t)).trans (List.append_nil _)

theorem fromPort_append (port : Nat) (log later : List (Nat × Batch)) :
    fromPort port (log ++ later) = fromPort port log ++ fromPort port later := by
  rw [fromPort, List.filter_append, List.map_append]
  rfl

theorem fromPort_cons (port : Nat) (e : Nat × Batch) (log : List (Nat × Batch)) :
    fromPort port (e :: log) =
      if e.1 = port then e.2 :: fromPort port log else fromPort port log := by
  rw [fromPort, List.filter_cons]
  by_cases h : e.1 = port
  · rw [if_pos (decide_eq_true h), if_pos h]
    rfl
  · rw [if_neg (by simpa using h), if_neg h]
    rfl

theorem passes_batch (requests : List Request) (port : Nat) (b : Batch) (stop : Instant) :
    passes (requests ++ [.batch port b]) stop = passes requests stop := by
  rw [passes, List.any_append]
  exact Bool.or_false _

theorem passes_watermark (requests : List Request) (t stop : Instant) :
    passes (requests ++ [.watermark t]) stop = (passes requests stop || decide (stop ≤ t)) := by
  rw [passes, List.any_append]
  exact congrArg (_ || ·) (Bool.or_false _)

theorem alignmentWindow_isSome {b : Batch} (h : b.rows ≠ []) : b.alignmentWindow.isSome := by
  obtain ⟨row, rest, hrows⟩ := List.exists_cons_of_ne_nil h
  rw [Batch.alignmentWindow, Batch.firstTime, hrows]
  cases b.window <;> rfl

theorem mem_fromPort {port : Nat} {log : List (Nat × Batch)} {b : Batch} :
    b ∈ fromPort port log ↔ (port, b) ∈ log := by
  rw [fromPort, List.mem_map]
  constructor
  · rintro ⟨e, he, rfl⟩
    obtain ⟨hmem, hport⟩ := List.mem_filter.1 he
    rw [← of_decide_eq_true hport]
    exact hmem
  · intro h
    exact ⟨_, List.mem_filter.2 ⟨h, decide_eq_true rfl⟩, rfl⟩

/-- A batch in time belongs to a window that no watermark has passed. -/
theorem InTime.passes_eq_false {requests : List Request} {port : Nat} {b : Batch} {w : Window}
    (h : InTime (requests ++ [.batch port b])) (hw : b.alignmentWindow = some w) :
    passes requests w.stop = false := by
  rw [passes, List.any_eq_false]
  have hbefore := (List.pairwise_append.1 h).2.2
  intro r hr
  cases r with
  | batch port' b' => exact Bool.false_ne_true
  | close => exact Bool.false_ne_true
  | watermark t =>
    have hlt : t < w.stop := hbefore _ hr _ List.mem_cons_self t rfl _ rfl w hw
    intro hle
    exact absurd (of_decide_eq_true hle) (Int.not_le.2 hlt)

variable {σ : Type}

/-- The state after some requests, and all the batches that they gave out. -/
def run (take : σ → Request → σ × List Batch) (op : σ) : List Request → σ × List Batch
  | [] => (op, [])
  | c :: rest =>
    let (op, out) := take op c
    let (op, later) := run take op rest
    (op, out ++ later)

@[simp] theorem run_nil (take : σ → Request → σ × List Batch) (op : σ) :
    run take op [] = (op, []) :=
  rfl

theorem run_cons (take : σ → Request → σ × List Batch) (op : σ) (c : Request)
    (rest : List Request) :
    run take op (c :: rest) =
      ((run take (take op c).1 rest).1, (take op c).2 ++ (run take (take op c).1 rest).2) :=
  rfl

theorem run_append (take : σ → Request → σ × List Batch) (op : σ)
    (requests later : List Request) :
    run take op (requests ++ later) =
      ((run take (run take op requests).1 later).1,
        (run take op requests).2 ++ (run take (run take op requests).1 later).2) := by
  induction requests generalizing op with
  | nil => rfl
  | cons c rest ih => rw [List.cons_append, run_cons, ih, run_cons, List.append_assoc]

theorem run_concat (take : σ → Request → σ × List Batch) (op : σ) (requests : List Request)
    (c : Request) :
    run take op (requests ++ [c]) =
      ((take (run take op requests).1 c).1,
        (run take op requests).2 ++ (take (run take op requests).1 c).2) := by
  rw [run_append, run_cons, run_nil, List.append_nil]

end Request

end SeriesPipeline
