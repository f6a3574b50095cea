import Mathlib.Data.List.Pairwise
import SeriesPipeline.Proofs.Stage.Rows
import SeriesPipeline.Task.Input

/-!
# Calls for batches

What a list of batches comes to as calls on the input of a task: batches in order, with a barrier
wherever their first time grows. When first times do not go back, the barriers do not either, and no
batch whose rows are in order has a row before a barrier that it follows.
-/

namespace SeriesPipeline

theorem Message.isClose_iff {m : Message} : m.isClose = true ↔ m = .close := by
  cases m <;> simp [isClose]

namespace Call

def message : Call → Message
  | .batch b => .batch b
  | .barrier t => .barrier t
  | .close => .close

/-- Whether the message of the call is for the inlet. -/
def reaches (i : Inlet) : Call → Bool
  | .batch b => i.accepts b.name
  | .barrier _ | .close => true

end Call

/-- What calls bring to an inlet. -/
def Inlet.messages (i : Inlet) (calls : List Call) : List Message :=
  (calls.filter (·.reaches i)).map Call.message

theorem Inlet.messages_append (i : Inlet) (calls later : List Call) :
    i.messages (calls ++ later) = i.messages calls ++ i.messages later := by
  rw [messages, List.filter_append, List.map_append]
  rfl

/-- What calls bring to an inlet is in the order of the calls. -/
theorem Inlet.messages_sublist (i : Inlet) (calls : List Call) :
    (i.messages calls).Sublist (calls.map Call.message) :=
  List.filter_sublist.map _

/-- The first times of the batches that are not empty. -/
def startsOf (batches : List Batch) : List Instant := batches.filterMap Batch.firstTime

/-- The last times of the batches that are not empty. -/
def endsOf (batches : List Batch) : List Instant := batches.filterMap Batch.lastTime

/-- The calls for batches that follow one that starts at `previous`. Empty batches are skipped, and
a barrier stands before a batch that starts later than the one before it. -/
def callsFor (previous : Option Instant) : List Batch → List Call
  | [] => []
  | b :: rest =>
    match b.firstTime with
    | none => callsFor previous rest
    | some first =>
      (if previous.any (· < first) then [.barrier first] else []) ++
        .batch b :: callsFor (some first) rest

/-- First times do not go back at the end of a list either. -/
theorem pairwise_concat_iff {l : List Instant} {t : Instant} :
    (l ++ [t]).Pairwise (· ≤ ·) ↔ l.Pairwise (· ≤ ·) ∧ ∀ last ∈ l.getLast?, last ≤ t := by
  rw [List.pairwise_append]
  constructor
  · rintro ⟨h, -, hle⟩
    exact ⟨h, fun last hlast => hle last (List.mem_of_getLast? hlast) t (List.mem_singleton_self t)⟩
  · rintro ⟨h, hlast⟩
    refine ⟨h, List.pairwise_singleton _ _, fun u hu t' ht' => ?_⟩
    rw [List.mem_singleton.1 ht']
    have hle : u ≤ l.getLast (List.ne_nil_of_mem hu) := h.rel_getLast hu
    exact hle.trans (hlast _ (List.getLast?_eq_some_getLast _))

theorem startsOf_append (l m : List Batch) : startsOf (l ++ m) = startsOf l ++ startsOf m :=
  List.filterMap_append

theorem endsOf_append (l m : List Batch) : endsOf (l ++ m) = endsOf l ++ endsOf m :=
  List.filterMap_append

theorem startsOf_singleton (b : Batch) : startsOf [b] = b.firstTime.toList := by
  rw [startsOf, List.filterMap_cons]
  cases b.firstTime <;> rfl

theorem endsOf_singleton (b : Batch) : endsOf [b] = b.lastTime.toList := by
  rw [endsOf, List.filterMap_cons]
  cases b.lastTime <;> rfl

theorem callsFor_append (previous : Option Instant) (l m : List Batch) :
    callsFor previous (l ++ m) =
      callsFor previous l ++ callsFor (previous.toList ++ startsOf l).getLast? m := by
  induction l generalizing previous with
  | nil =>
    cases previous <;> rfl
  | cons b rest ih =>
    rw [List.cons_append, callsFor, callsFor, startsOf, List.filterMap_cons]
    cases b.firstTime with
    | none => exact ih previous
    | some first =>
      have hlast : (previous.toList ++ first :: startsOf rest).getLast? =
          ((some first).toList ++ startsOf rest).getLast? := by
        rw [List.getLast?_append_of_ne_nil _ (List.cons_ne_nil _ _)]
        rfl
      dsimp only
      rw [ih, List.append_assoc, List.cons_append]
      exact congrArg (fun last => _ ++ .batch b :: (_ ++ callsFor last m)) hlast.symm

/-! ## Promises -/

/-- A batch whose rows are in order has none before `t`. -/
def Batch.OrderedFrom (t : Instant) (b : Batch) : Prop := b.times.Pairwise (· ≤ ·) → b.From t

theorem Batch.antitone_orderedFrom (b : Batch) : Antitone fun t => b.OrderedFrom t :=
  fun _ _ hle h hordered => b.antitone_from hle (h hordered)

theorem Batch.orderedFrom_of_le {b : Batch} {t first : Instant} (hfirst : b.firstTime = some first)
    (hle : t ≤ first) : b.OrderedFrom t := by
  intro hordered u hu
  rw [firstTime_eq] at hfirst
  cases htimes : b.times with
  | nil =>
    rw [htimes] at hu
    cases hu
  | cons first' rest =>
    rw [htimes] at hfirst hu hordered
    cases hfirst
    rcases List.mem_cons.1 hu with rfl | hu
    · exact hle
    · exact hle.trans (List.rel_of_pairwise_cons hordered hu)

section Promises

variable {previous : Option Instant} {batches : List Batch}

/-- Batches are fed as they are, and barriers stand at first times. -/
theorem mem_callsFor {c : Call} (h : c ∈ callsFor previous batches) :
    (∃ b ∈ batches, c = .batch b) ∨ ∃ t ∈ startsOf batches, c = .barrier t := by
  induction batches generalizing previous with
  | nil => cases h
  | cons b rest ih =>
    have hlater {previous : Option Instant} (h : c ∈ callsFor previous rest) :
        (∃ b' ∈ b :: rest, c = .batch b') ∨ ∃ t ∈ startsOf rest, c = .barrier t :=
      (ih h).imp_left fun ⟨b', hb', hc⟩ => ⟨b', List.mem_cons_of_mem _ hb', hc⟩
    rw [callsFor] at h
    rw [startsOf, List.filterMap_cons]
    cases hfirst : b.firstTime with
    | none =>
      rw [hfirst] at h
      exact hlater h
    | some first =>
      rw [hfirst] at h
      rcases List.mem_append.1 h with h | h
      · split at h
        · exact .inr ⟨first, List.mem_cons_self, List.mem_singleton.1 h⟩
        · cases h
      · rcases List.mem_cons.1 h with rfl | h
        · exact .inl ⟨b, List.mem_cons_self, rfl⟩
        · exact (hlater h).imp_right fun ⟨t, ht, hc⟩ => ⟨t, List.mem_cons_of_mem _ ht, hc⟩

theorem close_notMem_callsFor : .close ∉ callsFor previous batches := by
  intro h
  obtain ⟨b, -, hc⟩ | ⟨t, -, hc⟩ := mem_callsFor h <;> cases hc

/-- No call is for a time before that of the first batch, nor before `t`. -/
theorem orderedFrom_of_mem_callsFor {t : Instant} (h : ∀ first ∈ startsOf batches, t ≤ first) :
    ∀ c ∈ callsFor previous batches,
      (∀ t' ∈ c.message.barrier?, t ≤ t') ∧ ∀ b ∈ c.message.batch?, b.OrderedFrom t := by
  induction batches generalizing previous with
  | nil => exact nofun
  | cons b rest ih =>
    rw [startsOf, List.filterMap_cons] at h
    rw [callsFor]
    cases hfirst : b.firstTime with
    | none =>
      rw [hfirst] at h
      exact ih h
    | some first =>
      rw [hfirst] at h
      obtain ⟨hle, hrest⟩ := List.forall_mem_cons.1 h
      intro c hc
      rcases List.mem_append.1 hc with hc | hc
      · split at hc
        · rw [List.mem_singleton.1 hc]
          exact ⟨fun t' ht' => Option.some.inj ht' ▸ hle, nofun⟩
        · cases hc
      · rcases List.mem_cons.1 hc with rfl | hc
        · exact ⟨nofun, fun b' hb' => Option.some.inj hb' ▸ Batch.orderedFrom_of_le hfirst hle⟩
        · exact ih hrest c hc

/-- Barriers do not go back, and batches with rows in order keep those before them. -/
theorem callsFor_keeps (h : (startsOf batches).Pairwise (· ≤ ·)) :
    (callsFor previous batches).Pairwise fun c later =>
      (∀ t ∈ c.message.barrier?, ∀ t' ∈ later.message.barrier?, t ≤ t') ∧
        c.message.Keeps (fun t b => b.OrderedFrom t) later.message := by
  induction batches generalizing previous with
  | nil => exact .nil
  | cons b rest ih =>
    rw [startsOf, List.filterMap_cons] at h
    rw [callsFor]
    cases hfirst : b.firstTime with
    | none =>
      rw [hfirst] at h
      exact ih h
    | some first =>
      rw [hfirst] at h
      obtain ⟨hle, hrest⟩ := List.pairwise_cons.1 h
      have hlater : ∀ c ∈ callsFor (some first) rest, _ := orderedFrom_of_mem_callsFor hle
      have hbatch : (Call.batch b :: callsFor (some first) rest).Pairwise _ :=
        List.pairwise_cons.2 ⟨fun c _ => ⟨nofun, nofun⟩, ih hrest⟩
      dsimp only
      split
      · refine List.pairwise_cons.2 ⟨fun c hc => ?_, hbatch⟩
        rcases List.mem_cons.1 hc with rfl | hc
        · refine ⟨fun _ _ => nofun, ?_⟩
          rintro _ ⟨⟩ _ ⟨⟩
          exact Batch.orderedFrom_of_le hfirst (le_refl first)
        · obtain ⟨hbarrier, hbatch⟩ := hlater c hc
          constructor
          · rintro _ ⟨⟩
            exact hbarrier
          · rintro _ ⟨⟩
            exact hbatch
      · exact hbatch

end Promises

end SeriesPipeline
