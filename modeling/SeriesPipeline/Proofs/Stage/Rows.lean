import SeriesPipeline.Proofs.Operator.Pending
import SeriesPipeline.Proofs.Stage.Course
import SeriesPipeline.Proofs.Windowing.Buckets

/-!
# Rows and barriers

A barrier promises that no row earlier than it follows. A stage that gathers rows for a window gives
them out when the window is over, so it keeps its promises only while no barrier falls inside of a
window. Then every stage does: whatever it has not given out by a barrier is of windows that begin
at the barrier or later.
-/

namespace SeriesPipeline

/-- The window has begun before `t` and is not over. -/
def Window.CutBy (w : Window) (t : Instant) : Prop := w.start < t ∧ t < w.stop

instance (w : Window) (t : Instant) : Decidable (w.CutBy t) :=
  inferInstanceAs (Decidable (_ ∧ _))

theorem Window.le_of_not_cutBy {w : Window} {t u : Instant} (h : ¬ w.CutBy t) (ht : t < w.stop)
    (hu : w.start ≤ u) : t ≤ u :=
  (not_lt.1 fun hstart => h ⟨hstart, ht⟩).trans hu

variable {times : Instant → Prop} {t u stop : Instant} {w : Window} {b b' pane : Batch}

namespace Batch

/-- No row is earlier than `t`. -/
def From (b : Batch) (t : Instant) : Prop := ∀ u ∈ b.times, t ≤ u

instance (b : Batch) (t : Instant) : Decidable (b.From t) :=
  inferInstanceAs (Decidable (∀ u ∈ b.times, t ≤ u))

/-- While the window of the batch is not over at one of the times, no row is earlier than it. -/
def Whole (times : Instant → Prop) (b : Batch) : Prop :=
  ∀ w ∈ b.window, ∀ t, times t → t < w.stop → b.From t

/-- A batch without a window is for the instant of its first row, so that has to be the earliest. -/
structure Uncut (times : Instant → Prop) (b : Batch) : Prop where
  whole : b.Whole times
  ordered : b.window = none → b.times.Pairwise (· ≤ ·)

theorem antitone_from (b : Batch) : Antitone b.From :=
  fun _ _ hle h u hu => hle.trans (h u hu)

theorem Thins.from (h : b.Thins b') (hb : b.From t) : b'.From t :=
  fun u hu => hb u (h.times.subset hu)

theorem Thins.whole (h : b.Thins b') (hb : b.Whole times) : b'.Whole times :=
  fun w hw t ht hlt => h.from (hb w (h.window ▸ hw) t ht hlt)

theorem Thins.uncut (h : b.Thins b') (hb : b.Uncut times) : b'.Uncut times :=
  ⟨h.whole hb.whole, fun hnone => (hb.ordered (h.window ▸ hnone)).sublist h.times⟩

theorem le_of_lt_succ (h : t < u.succ) : t ≤ u := by
  have hbounds := u.bounds
  rw [Instant.lt_def, Instant.succ, Instant.toInt_clamp_eq] at h
  rw [Instant.le_def]
  omega

theorem Uncut.from (h : b.Uncut times) (ht : times t) (hw : b.alignmentWindow = some w)
    (hlt : t < w.stop) : b.From t := by
  rw [alignmentWindow] at hw
  cases hwindow : b.window with
  | some w' =>
    rw [hwindow] at hw
    cases hw
    exact h.whole w hwindow t ht hlt
  | none =>
    rw [hwindow, firstTime_eq] at hw
    obtain ⟨first, hfirst, rfl⟩ := Option.map_eq_some_iff.1 hw
    have hle : t ≤ first := le_of_lt_succ hlt
    have hordered := h.ordered hwindow
    intro u hu
    cases htimes : b.times with
    | nil =>
      rw [htimes] at hu
      cases hu
    | cons first' rest =>
      rw [htimes] at hfirst hu hordered
      cases hfirst
      rcases List.mem_cons.1 hu with rfl | hu
      · exact hle
      · exact hle.trans (List.rel_of_pairwise_cons hordered hu)

theorem uncut_of_window (hwindow : b.window = some w)
    (h : ∀ t, times t → t < w.stop → b.From t) : b.Uncut times where
  whole w' hw' t ht hlt := by
    rw [hwindow] at hw'
    cases hw'
    exact h t ht hlt
  ordered hnone := nomatch hwindow.symm.trans hnone

end Batch

/-! ## Windowing -/

namespace Windowing

/-- No window and no bucket is cut by `t`. -/
def Avoids (period every : Span) (bucket? : Option Span) (t : Instant) : Prop :=
  (∀ stop : Instant, every.reach ∣ stop.toInt → ¬ (windowAt period stop).CutBy t) ∧
    ∀ bucket ∈ bucket?, ∀ u : Instant, ¬ (bucketWindow bucket u).CutBy t

/-- Panes hold rows of windows that none of the times cuts. -/
structure Uncut (times : Instant → Prop) (op : Windowing) : Prop where
  every : 0 < op.every.reach
  buckets : ∀ bucket ∈ op.grouping.bucket, 0 < bucket.reach
  avoids : ∀ t, times t → Avoids op.period op.every op.grouping.bucket t
  panes : AllPanes (Covered op.period.reach op.every.reach) op.panes

/-- Where windows follow on each other, no window is cut at a window end. -/
theorem avoids_of_dvd {period : Span} (hperiod : 0 < period.reach) (h : period.reach ∣ t.toInt) :
    Avoids period period none t := by
  have hbounds := t.bounds
  refine ⟨fun stop hstop => ?_, nofun⟩
  rintro ⟨hstart, hlt⟩
  rw [windowAt, Instant.before, Instant.lt_def, Instant.toInt_clamp_eq] at hstart
  rw [Instant.lt_def] at hlt
  obtain ⟨m, hm⟩ := h
  obtain ⟨n, hn⟩ := hstop
  have hbelow : period.reach * (n - 1) < period.reach * m := by
    rw [Int.mul_sub, Int.mul_one]
    omega
  have habove : period.reach * m < period.reach * n := hm ▸ hn ▸ hlt
  have hle := Int.lt_of_mul_lt_mul_left hbelow hperiod.le
  have hge := Int.lt_of_mul_lt_mul_left habove hperiod.le
  omega

variable {op op' : Windowing}

section Steps

variable (h : op.Uncut times)
include h

theorem Uncut.of_advances (hadvances : Advances op op')
    (hpanes : AllPanes (Covered op.period.reach op.every.reach) op'.panes) : op'.Uncut times := by
  refine ⟨hadvances.every ▸ h.every, hadvances.grouping ▸ h.buckets, fun t ht => ?_, ?_⟩
  · rw [hadvances.period, hadvances.every, hadvances.grouping]
    exact h.avoids t ht
  · rw [hadvances.period, hadvances.every]
    exact hpanes

/-- A pane that ends after `t` begins at `t` or later. -/
theorem Uncut.from_of_mem_pieces (hpane : Covered op.period.reach op.every.reach stop pane)
    (ht : times t) (hlt : t < stop) (hb : b ∈ op.pieces stop pane) : b.From t := by
  obtain ⟨-, -, hsublist⟩ := sublist_of_mem_pieces hpane.nonempty hb
  intro u hu
  have hcovers := hpane.covers u (mem_times_of_sublist hsublist hu)
  have hstart := (Window.contains_iff.1 (contains_windowAt hcovers)).1
  exact Window.le_of_not_cutBy ((h.avoids t ht).1 stop hcovers.1) hlt hstart

theorem Uncut.uncut_of_mem_pieces (hpane : Covered op.period.reach op.every.reach stop pane)
    (hb : b ∈ op.pieces stop pane) : b.Uncut times := by
  have hfrom := fun t ht hlt => h.from_of_mem_pieces (t := t) hpane ht hlt hb
  rw [pieces] at hb
  cases hgrouping : op.grouping.bucket with
  | none =>
    rw [hgrouping] at hb
    exact Batch.uncut_of_window (w := windowAt op.period stop) (List.mem_singleton.1 hb ▸ rfl) hfrom
  | some bucket =>
    rw [hgrouping] at hb
    obtain ⟨w, hw, hsame⟩ := (isPiece_of_mem_splitRows hb).exists_window
    refine Batch.uncut_of_window hw fun t ht hlt u hu => ?_
    obtain ⟨r, hr, rfl⟩ := List.mem_map.1 hu
    rw [← hsame r hr] at hlt
    exact Window.le_of_not_cutBy ((h.avoids t ht).2 bucket hgrouping r.time) hlt
      (Instant.floor_spec (h.buckets bucket hgrouping) r.time).1

/-- What a windowing is requested to do leaves it uncut, and what comes of it is neither cut nor,
after `t`, earlier than `t`. -/
theorem Uncut.answer {r : Request} {op' : Operator} {out : Emitted} {now : Instant}
    (hanswer : (Operator.windowing op).answer now r = (op', .ok out)) :
    (∃ w, op' = .windowing w ∧ w.Uncut times) ∧ (∀ b ∈ out.batches, b.Uncut times) ∧
      ∀ t, times t → op.Awaits t → op'.Awaits t ∧ ∀ b ∈ out.batches, b.From t := by
  obtain ⟨⟨w, rfl, hadvances, hpanes⟩, hout, hafter⟩ :=
    Operator.answer_of_allPanes h.panes (fun _ _ _ _ _ => extends_covered h.every) hanswer
  refine ⟨⟨w, rfl, h.of_advances hadvances hpanes⟩, fun b hb => ?_, fun t ht hawaits => ?_⟩
  · obtain ⟨stop, pane, hpane, hb⟩ := hout b hb
    exact h.uncut_of_mem_pieces hpane hb
  · obtain ⟨hawaits', hlater⟩ := hafter t hawaits
    refine ⟨hawaits', fun b hb => ?_⟩
    obtain ⟨stop, pane, hlt, hpane, hb⟩ := hlater b hb
    exact h.from_of_mem_pieces hpane ht hlt hb

end Steps

end Windowing

/-! ## Joins and unions -/

/-- A batch that is held back for the window of an alignment, with rows that no time cuts off. -/
structure Alignment.Holds (times : Instant → Prop) (key : Alignment) (b : Batch) : Prop where
  window : b.alignmentWindow = some key.window
  uncut : b.Uncut times

namespace Joining

variable {op : Joining} {key : Alignment} {parts : List Batch}

theorem from_combine (h : ∀ p ∈ parts, p.From t) : (op.combine key parts).From t := by
  intro u hu
  obtain ⟨p, hp, hu⟩ := exists_mem_times_of_combine hu
  exact h p hp u hu

theorem uncut_combine (h : ∀ p ∈ parts, key.Holds times p) :
    (op.combine key parts).Uncut times :=
  Batch.uncut_of_window rfl fun _ ht hlt =>
    from_combine fun p hp => (h p hp).uncut.from ht (h p hp).window hlt

end Joining

namespace Merging

variable {op : Merging} {key : Alignment} {parts : Parts}

theorem from_merge (h : ∀ p ∈ parts, p.2.From t) : (op.merge key parts).From t := by
  intro u hu
  obtain ⟨p, hp, hu⟩ := mem_times_merge.1 hu
  exact h p hp u hu

theorem uncut_merge (h : ∀ p ∈ parts, key.Holds times p.2) : (op.merge key parts).Uncut times :=
  Batch.uncut_of_window window_merge fun _ ht hlt =>
    from_merge fun p hp => (h p hp).uncut.from ht (h p hp).window hlt

end Merging

namespace Operator

/-- What is held back is of windows that none of the times cuts. -/
def Uncut (times : Instant → Prop) : Operator → Prop
  | .windowing w => w.Uncut times
  | .joining j => j.AllParts (Alignment.Holds times)
  | .merging m => m.AllParts (Alignment.Holds times)
  | _ => True

/-- What an operator relies on in a batch. An intake sees to the order of rows itself. -/
def Trusts (times : Instant → Prop) : Operator → Batch → Prop
  | .intake _, b => b.Whole times
  | _, b => b.Uncut times

/-- Nothing that is held back comes to a row earlier than `t`. -/
def HoldsFrom (t : Instant) : Operator → Prop
  | .windowing w => w.Awaits t
  | .joining j => j.AllParts fun _ b => b.From t
  | .merging m => m.AllParts fun _ b => b.From t
  | _ => True

variable {op op' : Operator} {now : Instant} {out : Emitted} {r : Request} {port : Nat}

theorem trusts_answer (op : Operator) (now : Instant) (r : Request) :
    (op.answer now r).1.Trusts times = op.Trusts times := by
  cases op <;> cases r <;> rfl

/-- What becomes of an operator by an answer, where what it takes has no rows earlier than the
times for which `taken` holds. -/
structure Advances (times : Instant → Prop) (op op' : Operator) (out : Emitted)
    (taken : Instant → Prop) : Prop where
  uncut : op'.Uncut times
  emitted : ∀ b ∈ out.batches, b.Uncut times
  holds : ∀ t, times t → op.HoldsFrom t → taken t →
    op'.HoldsFrom t ∧ ∀ b ∈ out.batches, b.From t

/-- An operator that holds nothing back passes batches on with fewer rows. -/
theorem advances_of_thins (hop : op.Uncut times) (hholds : ∀ t, op.HoldsFrom t)
    (hout : ∀ b' ∈ out.batches, b.Thins b' ∧ b'.Uncut times) : Advances times op op out b.From where
  uncut := hop
  emitted b' hb' := (hout b' hb').2
  holds t _ _ hb := ⟨hholds t, fun b' hb' => (hout b' hb').1.from hb⟩

theorem advances_of_nothing {taken : Instant → Prop} (op op' : Operator) (hop : op'.Uncut times)
    (hout : out.batches = []) (hholds : ∀ t, op.HoldsFrom t → op'.HoldsFrom t) :
    Advances times op op' out taken where
  uncut := hop
  emitted := by
    rw [hout]
    exact nofun
  holds t _ hbefore _ := by
    rw [hout]
    exact ⟨hholds t hbefore, nofun⟩

theorem advances_of_windowing {w : Windowing} (h : w.Uncut times) (now : Instant)
    (hanswer : (windowing w).answer now r = (op', .ok out)) {taken : Instant → Prop} :
    Advances times (windowing w) op' out taken := by
  obtain ⟨⟨w', rfl, huncut⟩, hout, hholds⟩ := h.answer hanswer
  exact ⟨huncut, hout, fun t ht hawaits _ => hholds t ht hawaits⟩

section Steps

variable (h : op.Uncut times)
include h

theorem Uncut.onBatch (hb : op.Trusts times b) (hanswer : op.onBatch now port b = (op', .ok out)) :
    Advances times op op' out b.From := by
  cases op with
  | intake i =>
    obtain ⟨rfl, hmapped⟩ := Prod.mk.inj hanswer
    obtain ⟨result, hresult, rfl⟩ := map_eq_ok.1 hmapped
    refine advances_of_thins h (fun _ => trivial) fun b' hb' => ?_
    obtain rfl := Option.mem_toList.1 hb'
    have hthins := Intake.thins_onBatch hresult
    obtain ⟨hconsistent, rows, hrows, -, heq⟩ := Intake.of_onBatch_eq_some hresult
    refine ⟨hthins, hthins.whole hb, fun _ => ?_⟩
    exact (List.pairwise_map.2 hconsistent.ordered).sublist hthins.times
  | windowing w => exact advances_of_windowing h now (r := .batch port b) hanswer
  | joining j =>
    cases hanswer
    have hkey : ∀ key ∈ j.alignment? b, key.Holds times b := by
      intro key hkey
      obtain ⟨w, hw, rfl⟩ := Option.map_eq_some_iff.1 hkey
      exact ⟨hw, hb⟩
    obtain ⟨huncut, hout⟩ := Joining.AllParts.onBatch h port hkey
    refine ⟨huncut, fun b' hb' => ?_, fun t _ hfrom hb => ?_⟩
    · obtain ⟨key, parts, hparts, rfl⟩ := hout b' (Option.mem_toList.1 hb')
      exact Joining.uncut_combine hparts
    · obtain ⟨hkept, hjoined⟩ := Joining.AllParts.onBatch hfrom port fun _ _ => hb
      refine ⟨hkept, fun b' hb' => ?_⟩
      obtain ⟨key, parts, hparts, rfl⟩ := hjoined b' (Option.mem_toList.1 hb')
      exact Joining.from_combine hparts
  | merging m =>
    cases hanswer
    have huncut : (m.onBatch port b).AllParts (Alignment.Holds times) :=
      Merging.AllParts.onBatch h port fun w hw => ⟨hw, hb⟩
    refine ⟨huncut, nofun, fun t _ hfrom hb => ⟨?_, nofun⟩⟩
    have hparts : m.AllParts fun _ p => p.From t := hfrom
    exact hparts.onBatch port fun _ _ => hb
  | reducing m =>
    obtain ⟨rfl, hmapped⟩ := Prod.mk.inj hanswer
    obtain ⟨result, hresult, rfl⟩ := map_eq_ok.1 hmapped
    refine advances_of_thins h (fun _ => trivial) fun b' hb' => ?_
    obtain rfl := Option.mem_toList.1 hb'
    have hthins := (Reducing.of_onBatch_eq_some hresult).1
    exact ⟨hthins, hthins.uncut hb⟩
  | alerting a =>
    obtain ⟨rfl, hmapped⟩ := Prod.mk.inj hanswer
    obtain ⟨alerts, -, rfl⟩ := map_eq_ok.1 hmapped
    refine ⟨trivial, fun b' hb' => List.mem_singleton.1 hb' ▸ hb, fun t _ _ hfrom => ?_⟩
    exact ⟨trivial, fun b' hb' => List.mem_singleton.1 hb' ▸ hfrom⟩
  | publishing output =>
    cases hanswer
    refine ⟨trivial, fun b' hb' => List.mem_singleton.1 hb' ▸ hb, fun t _ _ hfrom => ?_⟩
    exact ⟨trivial, fun b' hb' => List.mem_singleton.1 hb' ▸ hfrom⟩

theorem Uncut.onWatermark (t' : Instant) {taken : Instant → Prop} :
    Advances times op (op.onWatermark t').1 (op.onWatermark t').2 taken ∧
      (times t' → (op.onWatermark t').1.HoldsFrom t') := by
  cases op with
  | windowing w =>
    exact ⟨advances_of_windowing h .epoch (r := .watermark t') rfl,
      fun _ => w.awaits_onWatermark t'⟩
  | joining j =>
    have hkept := Joining.AllParts.onWatermark h t'
    have huncut : (j.onWatermark t').AllParts (Alignment.Holds times) :=
      hkept.imp fun _ _ hb => hb.1
    refine ⟨advances_of_nothing _ (.joining _) huncut rfl fun t hfrom => ?_, fun ht' => ?_⟩
    · have hparts : j.AllParts fun _ p => p.From t := hfrom
      exact (hparts.onWatermark t').imp fun _ _ hb => hb.1
    · -- what is left is for windows after the watermark, and not cut by it
      exact hkept.imp fun _ _ hb => hb.1.uncut.from ht' hb.1.window hb.2
  | merging m =>
    obtain ⟨hkept, hout⟩ := Merging.AllParts.onWatermark h t'
    have huncut : (m.onWatermark t').1.AllParts (Alignment.Holds times) :=
      hkept.imp fun _ _ hb => hb.1
    refine ⟨⟨huncut, fun b hb => ?_, fun t _ hfrom _ => ?_⟩, fun ht' => ?_⟩
    · obtain ⟨key, parts, hparts, rfl⟩ := hout b hb
      exact Merging.uncut_merge hparts
    · have hbefore : m.AllParts fun _ p => p.From t := hfrom
      obtain ⟨hleft, hmerged⟩ := hbefore.onWatermark t'
      have hafter : (m.onWatermark t').1.AllParts fun _ p => p.From t :=
        hleft.imp fun _ _ hb => hb.1
      refine ⟨hafter, fun b hb => ?_⟩
      obtain ⟨key, parts, hparts, rfl⟩ := hmerged b hb
      exact Merging.from_merge hparts
    · exact hkept.imp fun _ _ hb => hb.1.uncut.from ht' hb.1.window hb.2
  | _ => exact ⟨advances_of_nothing _ _ (by trivial) rfl fun _ _ => (by trivial), fun _ => trivial⟩

theorem Uncut.onClose {taken : Instant → Prop} :
    Advances times op op.onClose.1 op.onClose.2 taken := by
  cases op with
  | windowing w => exact advances_of_windowing h .epoch (r := .close) rfl
  | joining j =>
    have hempty : ∀ {P}, j.onClose.AllParts P := Joining.allParts_of_pending_eq rfl
    exact advances_of_nothing _ (.joining j.onClose) hempty rfl fun _ _ => hempty
  | merging m =>
    have hbefore : m.AllParts (Alignment.Holds times) := h
    obtain ⟨huncut, hout⟩ := hbefore.onClose (Q := Alignment.Holds times)
    refine ⟨huncut, fun b hb => ?_, fun t _ hfrom _ => ?_⟩
    · obtain ⟨key, parts, hparts, rfl⟩ := hout b hb
      exact Merging.uncut_merge hparts
    · have hparts : m.AllParts fun _ p => p.From t := hfrom
      obtain ⟨hleft, hmerged⟩ := hparts.onClose (Q := fun _ p => p.From t)
      refine ⟨hleft, fun b hb => ?_⟩
      obtain ⟨key, parts, hparts, rfl⟩ := hmerged b hb
      exact Merging.from_merge hparts
  | _ => exact advances_of_nothing _ _ (by trivial) rfl fun _ _ => (by trivial)

theorem Uncut.answer (hr : ∀ e ∈ r.batch?, op.Trusts times e.2)
    (hanswer : op.answer now r = (op', .ok out)) :
    Advances times op op' out (fun t => ∀ e ∈ r.batch?, e.2.From t) ∧
      ∀ t ∈ r.watermark?, times t → op'.HoldsFrom t := by
  cases r with
  | batch port b =>
    obtain ⟨huncut, hout, hholds⟩ := h.onBatch (hr _ rfl) hanswer
    exact ⟨⟨huncut, hout, fun t ht hfrom hb => hholds t ht hfrom (hb _ rfl)⟩, nofun⟩
  | watermark t' =>
    cases hanswer
    obtain ⟨hadvances, hholds⟩ := h.onWatermark t'
    refine ⟨hadvances, ?_⟩
    rintro _ ⟨⟩
    exact hholds
  | close =>
    cases hanswer
    exact ⟨h.onClose, nofun⟩

end Steps

end Operator

/-! ## Stages -/

/-- Messages that keep their promises: no batch has a row earlier than a barrier before it. -/
structure Honest (times : Instant → Prop) (P : Batch → Prop) (messages : List Message) : Prop where
  keeps : messages.Pairwise (Message.Keeps fun t b => b.From t)
  batches : ∀ b, .batch b ∈ messages → P b
  barriers : ∀ t, .barrier t ∈ messages → times t

namespace Honest

variable {P Q : Batch → Prop} {messages later : List Message}

theorem nil : Honest times P [] := ⟨.nil, nofun, nofun⟩

theorem sublist (h : Honest times P messages) (hsub : later.Sublist messages) :
    Honest times P later where
  keeps := h.keeps.sublist hsub
  batches b hb := h.batches b (hsub.subset hb)
  barriers t ht := h.barriers t (hsub.subset ht)

theorem imp (h : Honest times P messages) (hPQ : ∀ b, P b → Q b) : Honest times Q messages :=
  ⟨h.keeps, fun b hb => hPQ b (h.batches b hb), h.barriers⟩

theorem append_close (h : Honest times P messages) : Honest times P (messages ++ [.close]) where
  keeps := pairwise_append_close h.keeps
  batches b hb :=
    h.batches b ((List.mem_append.1 hb).resolve_right fun hb => nomatch List.mem_singleton.1 hb)
  barriers t ht :=
    h.barriers t ((List.mem_append.1 ht).resolve_right fun ht => nomatch List.mem_singleton.1 ht)

end Honest

/-- What an operator answers keeps its promises if what is requested of it does. -/
theorem Operator.Uncut.honest_messages {op : Operator} {requests : List Request} {now : Instant}
    (h : op.Uncut times) (hbatches : ∀ port b, .batch port b ∈ requests → op.Trusts times b)
    (hmarks : ∀ t, .watermark t ∈ requests → times t)
    (hkeeps : requests.Pairwise (Request.Keeps fun t b => b.From t)) :
    Honest times (Batch.Uncut times) (op.messages now requests) := by
  have hfits : ∀ r ∈ requests, (∀ e ∈ r.batch?, op.Trusts times e.2) ∧
      ∀ t ∈ r.watermark?, times t := by
    intro r hr
    cases r with
    | batch port b =>
      refine ⟨?_, nofun⟩
      rintro _ ⟨⟩
      exact hbatches port b hr
    | watermark t =>
      refine ⟨nofun, ?_⟩
      rintro _ ⟨⟩
      exact hmarks t hr
    | close => exact ⟨nofun, nofun⟩
  have hstep : ∀ {op₁ op₂ : Operator} {r : Request} {out : Emitted},
      op₁.Uncut times ∧ op₁.Trusts times = op.Trusts times →
      ((∀ e ∈ r.batch?, op.Trusts times e.2) ∧ ∀ t ∈ r.watermark?, times t) →
      op₁.answer now r = (op₂, .ok out) →
      (op₂.Uncut times ∧ op₂.Trusts times = op.Trusts times) ∧
        Advances times op₁ op₂ out (fun t => ∀ e ∈ r.batch?, e.2.From t) ∧
          ∀ t ∈ r.watermark?, times t ∧ op₂.HoldsFrom t := by
    intro op₁ op₂ r out ⟨huncut, hsame⟩ ⟨hbatch, hmark⟩ hanswer
    obtain ⟨hadvances, hholds⟩ := huncut.answer (fun e he => hsame ▸ hbatch e he) hanswer
    have hkind : op₂.Trusts times = op₁.Trusts times := by
      rw [← trusts_answer op₁ now r, hanswer]
    exact ⟨⟨hadvances.uncut, hkind.trans hsame⟩, hadvances, fun t ht =>
      ⟨hmark t ht, hholds t ht (hmark t ht)⟩⟩
  refine ⟨?_, ?_, fun t ht => ?_⟩
  -- the invariant holds the demand on inputs fixed while the operator changes
  · refine pairwise_messages_of_step
      (fun op' => op'.Uncut times ∧ op'.Trusts times = op.Trusts times)
      (fun r => (∀ e ∈ r.batch?, op.Trusts times e.2) ∧ ∀ t ∈ r.watermark?, times t)
      (fun t op' => times t ∧ op'.HoldsFrom t) (fun t r => ∀ e ∈ r.batch?, e.2.From t)
      (fun hinv hfits hanswer => ?_) ⟨h, rfl⟩ hfits (hkeeps.imp fun hkeeps t ht => hkeeps t ht)
    obtain ⟨hinv', hadvances, hmark⟩ := hstep hinv hfits hanswer
    refine ⟨hinv', hmark, fun t ⟨ht, hbefore⟩ htaken => ?_⟩
    obtain ⟨hafter, hout⟩ := hadvances.holds t ht hbefore htaken
    exact ⟨⟨ht, hafter⟩, hout⟩
  · refine forall_batch_mem_messages
      (fun op' => op'.Uncut times ∧ op'.Trusts times = op.Trusts times) _
      (fun hinv hfits hanswer => ?_) ⟨h, rfl⟩ hfits
    obtain ⟨hinv', hadvances, -⟩ := hstep hinv hfits hanswer
    exact ⟨hinv', hadvances.emitted⟩
  · obtain ⟨b, hb⟩ | ⟨t', heq, hmark⟩ := mem_messages ht
    · cases hb
    · cases heq
      exact hmarks t hmark

/-- What a stage has sent at any time keeps its promises if what it takes does on every port. -/
theorem Stage.honest_course {s : Stage} {ports : Nat} (now : Instant) {taken : List Envelope}
    (hmarks : s.marks = .new ports) (h : s.operator.Uncut times)
    (htaken : ∀ port, Honest times (s.operator.Trusts times) (messagesAt port taken)) :
    Honest times (Batch.Uncut times) (s.course now taken).reaction.sent := by
  refine Honest.sublist (h.honest_messages (fun port b hb => ?_) (fun t ht => ?_) ?_)
    (s.sent_course taken).sublist
  · exact (htaken port).batches b (mem_messagesAt.2 (mem_of_batch_mem_requests hb))
  · refine forall_watermark_mem_requests (hmarks ▸ Watermarks.marked_new times ports) ?_ t ht
    intro e he t ht
    have hmem : .barrier t ∈ messagesAt e.port taken :=
      mem_messagesAt.2 (Message.eq_barrier_of_mem ht ▸ he)
    exact (htaken e.port).barriers t hmem
  · rw [hmarks]
    exact keeps_requests Batch.antitone_from ports fun port => (htaken port).keeps

end SeriesPipeline
