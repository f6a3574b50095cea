import Mathlib.Algebra.BigOperators.Group.Finset.Basic
import SeriesPipeline.Proofs.Operator.Answers
import SeriesPipeline.Proofs.SortedMap

/-!
# Notifications of groups

What an alerting does for a group is told by the readings of that group alone: the levels of its
rows, in order of arrival. Readings of other groups in between change nothing. An alert carries the
time and the cells of the row that it is for.
-/

namespace SeriesPipeline

namespace FlapDetector

theorem changes_cons_cons (first second : Level) (rest : List Level) :
    changes (first :: second :: rest) =
      changes (second :: rest) + if first ≠ second then 1 else 0 := by
  simp [changes, List.countP_cons]

theorem changes_cons_concat (first : Level) (history : List Level) (level : Level) :
    changes (first :: (history ++ [level])) =
      changes (first :: history) + if level ≠ history.getLast?.getD first then 1 else 0 := by
  induction history generalizing first with
  | nil =>
    rw [List.nil_append, changes_cons_cons]
    exact congrArg _ (if_congr ne_comm rfl rfl)
  | cons second rest ih =>
    rw [List.cons_append, changes_cons_cons, ih, changes_cons_cons, List.getLast?_cons,
      Option.getD_some, Nat.add_right_comm]

end FlapDetector

/-- A row as it was read: with its batch, the clock's time and the level that it was given. -/
structure Reading where
  now : Instant
  batch : Batch
  row : Row
  level : Level

namespace Alerting

/-- The level of a row by a predicate that does not fail. -/
def levelIn (f : Formula) (b : Batch) (row : Row) : Level :=
  match f.holdsIn b row with
  | .ok true => .alerting
  | _ => .ok

/-- The rows of some batches in order of arrival. -/
def readings (f : Formula) (calls : List (Instant × Nat × Batch)) : List Reading :=
  calls.flatMap fun (now, _, b) => b.rows.map fun row => ⟨now, b, row, levelIn f b row⟩

/-- The readings of one group. -/
def readingsOf (key : SeriesKey) (rs : List Reading) : List Reading :=
  rs.filter fun r => r.batch.key = key

def levels (rs : List Reading) : List Level := rs.map (·.level)

/-- The level after some readings of a group; a group starts at OK. -/
def latest (rs : List Reading) : Level := (levels rs).getLast?.getD .ok

/-- A new detector that has been fed the levels of some readings. -/
def detectorAfter (op : Alerting) (rs : List Reading) : Option FlapDetector :=
  op.flapping.map fun bounds => (levels rs).foldl FlapDetector.record (.new bounds op.history)

/-- What calls for an alert at reading number `i` of a group: a level that is not the one before it,
while the levels up to it are not flapping. -/
def alertAt? (op : Alerting) (rs : List Reading) (i : Nat) : Option Alert :=
  rs[i]?.bind fun r =>
    let previous := latest (rs.take i)
    if r.level ≠ previous ∧ ¬ (op.detectorAfter (rs.take (i + 1))).any (·.flapping) then
      some (op.alertOf r.now r.batch r.row previous r.level)
    else none

/-- The alert is for a reading of which the level before is `previous`: it has the levels, the time
and the cells of the row, the last one where columns share a name. -/
structure Reports (op : Alerting) (previous : Level) (r : Reading) (a : Alert) : Prop where
  task : a.task = op.task
  node : a.node = op.node
  target : a.target = op.target
  name : a.key.name = r.batch.name
  tags : a.key.tags = r.batch.tags
  previous : a.previous = previous
  level : a.level = r.level
  time : a.time = r.row.time
  observedAt : a.observedAt = r.now
  fields : ∀ column v, a.fields.get? column = some v ↔
    ∃ i : Nat, r.batch.columns[i]? = some column ∧ r.row.values[i]? = some v ∧
      ∀ j : Nat, i < j → r.batch.columns[j]? = some column → r.row.values[j]? = none

/-- The numbers of the readings of a group at which the level is not the one before, while a new
detector that has been fed the levels up to there is not flapping. -/
def notifiedAt (op : Alerting) (rs : List Reading) : List Nat :=
  (List.range rs.length).filter fun i =>
    (levels rs)[i]? ≠ some (latest (rs.take i)) ∧
      ¬ (op.detectorAfter (rs.take (i + 1))).any (·.flapping)

/-- The alerts that the readings of a group call for. -/
def alertsFor (op : Alerting) (rs : List Reading) : List Alert :=
  (List.range rs.length).filterMap (op.alertAt? rs)

/-- How often the level of a group changes. -/
def changes (rs : List Reading) : Nat := FlapDetector.changes (.ok :: levels rs)

/-- The groups that have readings. -/
def groupsIn (rs : List Reading) : Finset SeriesKey := (rs.map (·.batch.key)).toFinset

/-- What has become of an alerting by some readings. -/
structure Tracks (start : Alerting) (rs : List Reading) (op : Alerting) (alerts : List Alert) :
    Prop where
  config : op = { start with groups := op.groups, sent := op.sent, suppressed := op.suppressed }
  read : ∀ r ∈ rs, start.predicate.holdsIn r.batch r.row = .ok (r.level = .alerting)
  groups : ∀ key, op.groups.get? key = (levels (readingsOf key rs)).getLast?.map
    (⟨·, start.detectorAfter (readingsOf key rs)⟩)
  notified : ∀ key, alerts.filter (·.key = key) = start.alertsFor (readingsOf key rs)
  sent : op.sent = alerts.length
  total : op.sent + op.suppressed = ∑ key ∈ groupsIn rs, changes (readingsOf key rs)

variable {start op : Alerting} {rs : List Reading} {alerts : List Alert} {r : Reading}
  {key : SeriesKey}

/-! ## One reading more -/

theorem readingsOf_append (key : SeriesKey) (rs later : List Reading) :
    readingsOf key (rs ++ later) = readingsOf key rs ++ readingsOf key later :=
  List.filter_append _ _

theorem readingsOf_concat (key : SeriesKey) (rs : List Reading) (r : Reading) :
    readingsOf key (rs ++ [r]) =
      if r.batch.key = key then readingsOf key rs ++ [r] else readingsOf key rs := by
  rw [readingsOf_append]
  by_cases h : r.batch.key = key
  · rw [if_pos h, readingsOf, readingsOf, List.filter_cons_of_pos (by simpa using h)]
    rfl
  · rw [if_neg h, readingsOf, readingsOf, List.filter_cons_of_neg (by simpa using h)]
    exact List.append_nil _

theorem levels_concat (rs : List Reading) (r : Reading) :
    levels (rs ++ [r]) = levels rs ++ [r.level] :=
  List.map_append

theorem detectorAfter_concat (op : Alerting) (rs : List Reading) (r : Reading) :
    op.detectorAfter (rs ++ [r]) = (op.detectorAfter rs).map (·.record r.level) := by
  rw [detectorAfter, detectorAfter, Option.map_map, levels_concat]
  simp only [List.foldl_append, List.foldl_cons, List.foldl_nil, Function.comp_def]

/-- Later readings change nothing at the earlier ones. -/
theorem alertAt?_append (op : Alerting) {i : Nat} (hi : i < rs.length) (later : List Reading) :
    op.alertAt? (rs ++ later) i = op.alertAt? rs i := by
  rw [alertAt?, alertAt?, List.getElem?_append_left hi, List.take_append_of_le_length hi.le,
    List.take_append_of_le_length hi]

theorem alertsFor_concat (op : Alerting) (rs : List Reading) (r : Reading) :
    op.alertsFor (rs ++ [r]) = op.alertsFor rs ++ (op.alertAt? (rs ++ [r]) rs.length).toList := by
  rw [alertsFor, List.length_append, List.length_singleton, List.range_succ,
    List.filterMap_append]
  -- the alerts so far do not depend on the last reading
  rw [List.filterMap_congr fun i hi => op.alertAt?_append (List.mem_range.1 hi) [r]]
  cases h : op.alertAt? (rs ++ [r]) rs.length with
  | none => rw [List.filterMap_cons_none h]; rfl
  | some alert => rw [List.filterMap_cons_some h]; rfl

theorem alertAt?_length (op : Alerting) (rs : List Reading) (r : Reading) :
    op.alertAt? (rs ++ [r]) rs.length =
      if r.level ≠ latest rs ∧ ¬ (op.detectorAfter (rs ++ [r])).any (·.flapping) then
        some (op.alertOf r.now r.batch r.row (latest rs) r.level)
      else none := by
  have hlength : (rs ++ [r]).take (rs.length + 1) = rs ++ [r] := by
    rw [← List.length_singleton (a := r), ← List.length_append, List.take_length]
  rw [alertAt?, List.getElem?_concat_length, List.take_left, hlength]
  rfl

theorem changes_concat (rs : List Reading) (r : Reading) :
    changes (rs ++ [r]) = changes rs + if r.level ≠ latest rs then 1 else 0 := by
  rw [changes, levels_concat, FlapDetector.changes_cons_concat]
  rfl

/-! ## Alerts -/

theorem reports_alertOf (op : Alerting) (r : Reading) (previous : Level) :
    op.Reports previous r (op.alertOf r.now r.batch r.row previous r.level) where
  task := rfl
  node := rfl
  target := rfl
  name := rfl
  tags := rfl
  previous := rfl
  level := rfl
  time := rfl
  observedAt := rfl
  fields column v := by
    refine SortedMap.get?_ofList_eq_some_iff.trans (exists_congr fun i => ?_)
    rw [List.getElem?_zip_eq_some, and_assoc]
    refine and_congr_right' (and_congr_right' ?_)
    -- a later cell of the column would count in place of this one
    simp only [ne_eq, List.getElem?_zip_eq_some, not_and, Option.eq_none_iff_forall_ne_some]
    exact ⟨fun h j hj hcolumn w => h j w hj hcolumn, fun h j w hj hcolumn => h j hj hcolumn w⟩

theorem reports_of_alertAt? {i : Nat} {a : Alert} (h : op.alertAt? rs i = some a) :
    ∃ r, rs[i]? = some r ∧ op.Reports (latest (rs.take i)) r a := by
  obtain ⟨r, hr, hr'⟩ := Option.bind_eq_some_iff.1 h
  obtain ⟨-, ha⟩ := Option.ite_none_right_eq_some.1 hr'
  cases ha
  exact ⟨r, hr, op.reports_alertOf r _⟩

theorem notifiedAt_eq (op : Alerting) (rs : List Reading) : op.notifiedAt rs =
    (List.range rs.length).filter fun i => (op.alertAt? rs i).isSome := by
  refine List.filter_congr fun i hi => ?_
  have hget := List.getElem?_eq_getElem (List.mem_range.1 hi)
  rw [alertAt?, hget, levels, List.getElem?_map, hget, Bool.eq_iff_iff, decide_eq_true_eq]
  simp

theorem forall₂_filterMap {α β : Type} {R : α → β → Prop} {f : α → Option β} (l : List α)
    (h : ∀ a b, f a = some b → R a b) :
    List.Forall₂ R (l.filter fun a => (f a).isSome) (l.filterMap f) := by
  induction l with
  | nil => exact .nil
  | cons a rest ih =>
    cases hfa : f a with
    | none => rwa [List.filter_cons_of_neg (by simp [hfa]), List.filterMap_cons_none hfa]
    | some b =>
      rw [List.filter_cons_of_pos (by simp [hfa]), List.filterMap_cons_some hfa]
      exact .cons (h a b hfa) ih

/-- There is one alert for each change of level while the group is not flapping. -/
theorem forall₂_reports_alertsFor (op : Alerting) (rs : List Reading) :
    List.Forall₂ (fun i a => ∃ r, rs[i]? = some r ∧ op.Reports (latest (rs.take i)) r a)
      (op.notifiedAt rs) (op.alertsFor rs) :=
  op.notifiedAt_eq rs ▸ forall₂_filterMap _ fun _ _ => reports_of_alertAt?

/-! ## What has become of an alerting -/

theorem tracks_new (start : Alerting) (hgroups : start.groups = ∅) (hsent : start.sent = 0)
    (hsuppressed : start.suppressed = 0) : Tracks start [] start [] where
  config := rfl
  read := nofun
  groups key := by rw [hgroups]; rfl
  notified key := rfl
  sent := hsent
  total := by rw [hsent, hsuppressed]; rfl

/-- The state of a group is told by its readings. -/
theorem Tracks.group_eq (h : Tracks start rs op alerts) (key : SeriesKey) :
    op.group key = ⟨latest (readingsOf key rs), start.detectorAfter (readingsOf key rs)⟩ := by
  have hflapping : op.flapping = start.flapping := by rw [h.config]
  have hhistory : op.history = start.history := by rw [h.config]
  rw [group, h.groups, latest]
  cases hlast : (levels (readingsOf key rs)).getLast? with
  | some level => rfl
  | none =>
    -- a group that has no readings yet starts with a new detector
    rw [detectorAfter, List.getLast?_eq_none_iff.1 hlast, hflapping, hhistory]
    rfl

/-- One more reading counts as a change for its group if its level is a new one. -/
theorem sum_changes_concat (rs : List Reading) (r : Reading) :
    ∑ key ∈ groupsIn (rs ++ [r]), changes (readingsOf key (rs ++ [r])) =
      ∑ key ∈ groupsIn rs, changes (readingsOf key rs) +
        if r.level ≠ latest (readingsOf r.batch.key rs) then 1 else 0 := by
  have hgroups : groupsIn (rs ++ [r]) = insert r.batch.key (groupsIn rs) := by
    ext key
    simp [groupsIn, eq_comm]
  -- a group without readings counts for nothing, so the row's own group can stand in the sum before
  have hnone : r.batch.key ∉ groupsIn rs → changes (readingsOf r.batch.key rs) = 0 := by
    intro hnot
    have hnil : readingsOf r.batch.key rs = [] := by
      rw [readingsOf, List.filter_eq_nil_iff]
      intro r' hr' hkey
      exact hnot (List.mem_toFinset.2 (List.mem_map.2 ⟨r', hr', of_decide_eq_true hkey⟩))
    rw [hnil]
    rfl
  -- and no other group changes
  have hothers : ∀ key ∈ (insert r.batch.key (groupsIn rs)).erase r.batch.key,
      changes (readingsOf key (rs ++ [r])) = changes (readingsOf key rs) := by
    intro key hkey
    rw [readingsOf_concat, if_neg (Finset.ne_of_mem_erase hkey).symm]
  have hmem := Finset.mem_insert_self r.batch.key (groupsIn rs)
  have hold : ∑ key ∈ insert r.batch.key (groupsIn rs), changes (readingsOf key rs) =
      ∑ key ∈ groupsIn rs, changes (readingsOf key rs) :=
    Finset.sum_insert_of_eq_zero_if_notMem hnone
  rw [hgroups, ← hold, ← Finset.add_sum_erase _ _ hmem, Finset.sum_congr rfl hothers,
    readingsOf_concat, if_pos rfl, changes_concat,
    ← Finset.add_sum_erase _ (fun key => changes (readingsOf key rs)) hmem]
  omega

section Record

variable (h : Tracks start rs op alerts) (r : Reading)
include h

/-- The state of the row's group moves on, and a change of level is either an alert or counted. -/
theorem Tracks.recordLevel_eq :
    let own := readingsOf r.batch.key rs
    let groups := op.groups.insert r.batch.key ⟨r.level, start.detectorAfter (own ++ [r])⟩
    op.recordLevel r.now r.batch r.row r.level =
      if r.level = latest own then ({ op with groups }, none)
      else if (start.detectorAfter (own ++ [r])).any (·.flapping) then
        ({ op with groups, suppressed := op.suppressed + 1 }, none)
      else ({ op with groups, sent := op.sent + 1 },
        some (start.alertOf r.now r.batch r.row (latest own) r.level)) := by
  intro own groups
  have halert : op.alertOf r.now r.batch r.row (latest own) r.level =
      start.alertOf r.now r.batch r.row (latest own) r.level := by
    rw [h.config]
    rfl
  have hdetector := start.detectorAfter_concat own r
  rw [recordLevel, h.group_eq, ← halert]
  simp only [groups, hdetector]
  rfl

theorem Tracks.alert_recordLevel : (op.recordLevel r.now r.batch r.row r.level).2 =
    start.alertAt? (readingsOf r.batch.key rs ++ [r]) (readingsOf r.batch.key rs).length := by
  rw [h.recordLevel_eq, alertAt?_length]
  by_cases hlevel : r.level = latest (readingsOf r.batch.key rs)
  · rw [if_pos hlevel, if_neg fun hand => hand.1 hlevel]
  · by_cases hflapping : (start.detectorAfter (readingsOf r.batch.key rs ++ [r])).any (·.flapping)
    · rw [if_neg hlevel, if_pos hflapping, if_neg fun hand => hand.2 hflapping]
    · rw [if_neg hlevel, if_neg hflapping, if_pos ⟨hlevel, hflapping⟩]

/-- A row moves on the state of its group, and counts as one change if its level is a new one. -/
theorem Tracks.state_recordLevel :
    let own := readingsOf r.batch.key rs
    let result := op.recordLevel r.now r.batch r.row r.level
    result.1 = { start with
      groups := op.groups.insert r.batch.key ⟨r.level, start.detectorAfter (own ++ [r])⟩
      sent := result.1.sent
      suppressed := result.1.suppressed } ∧
    result.1.sent = op.sent + result.2.toList.length ∧
    result.1.sent + result.1.suppressed =
      op.sent + op.suppressed + if r.level ≠ latest own then 1 else 0 := by
  intro own result
  have hresult : result = _ := h.recordLevel_eq r
  have hconfig := h.config
  by_cases hlevel : r.level = latest own
  · rw [if_pos hlevel] at hresult
    rw [hresult, if_neg (not_not.2 hlevel), hconfig]
    exact ⟨rfl, rfl, rfl⟩
  · rw [if_neg hlevel] at hresult
    rw [if_pos hlevel]
    split at hresult
    · rw [hresult, hconfig]
      exact ⟨rfl, rfl, by dsimp only; omega⟩
    · rw [hresult, hconfig]
      exact ⟨rfl, rfl, by dsimp only; omega⟩

theorem Tracks.groups_recordLevel (key : SeriesKey) :
    (op.recordLevel r.now r.batch r.row r.level).1.groups.get? key =
      (levels (readingsOf key (rs ++ [r]))).getLast?.map
        (⟨·, start.detectorAfter (readingsOf key (rs ++ [r]))⟩) := by
  rw [(h.state_recordLevel r).1, SortedMap.get?_insert, readingsOf_concat]
  by_cases hkey : key = r.batch.key
  · subst hkey
    rw [if_pos rfl, if_pos rfl, levels_concat, List.getLast?_concat]
    rfl
  · rw [if_neg hkey, if_neg (Ne.symm hkey), h.groups]

theorem Tracks.notified_recordLevel (key : SeriesKey) :
    (alerts ++ (op.recordLevel r.now r.batch r.row r.level).2.toList).filter (·.key = key) =
      start.alertsFor (readingsOf key (rs ++ [r])) := by
  rw [List.filter_append, h.notified, readingsOf_concat, h.alert_recordLevel, alertAt?_length]
  by_cases hkey : r.batch.key = key
  · subst hkey
    rw [if_pos rfl, alertsFor_concat, alertAt?_length]
    split
    · exact congrArg _ (List.filter_eq_self.2 fun alert halert => by
        rw [List.mem_singleton.1 halert]
        exact decide_eq_true rfl)
    · rfl
  · -- an alert of another group is not among those of `key`
    rw [if_neg hkey]
    split
    · refine (congrArg _ (List.filter_eq_nil_iff.2 fun alert halert heq => ?_)).trans
        (List.append_nil _)
      rw [List.mem_singleton.1 halert] at heq
      exact hkey (of_decide_eq_true heq)
    · exact List.append_nil _

/-- One row more that has been read. -/
theorem Tracks.recordLevel
    (hr : start.predicate.holdsIn r.batch r.row = .ok (r.level = .alerting)) :
    Tracks start (rs ++ [r]) (op.recordLevel r.now r.batch r.row r.level).1
      (alerts ++ (op.recordLevel r.now r.batch r.row r.level).2.toList) where
  config := by
    have hconfig := (h.state_recordLevel r).1
    rw [congrArg Alerting.groups hconfig]
    exact hconfig
  read := List.forall_mem_append.2 ⟨h.read, List.forall_mem_singleton.2 hr⟩
  groups := h.groups_recordLevel r
  notified := h.notified_recordLevel r
  sent := by rw [(h.state_recordLevel r).2.1, h.sent, List.length_append]
  total := by rw [(h.state_recordLevel r).2.2, h.total, sum_changes_concat]

end Record

variable {now : Instant} {b : Batch} {rest : List Row} {row : Row}

theorem recordRows_cons_error {fault : StageFault} (h : op.predicate.holdsIn b row = .error fault) :
    recordRows now b op (row :: rest) = (op, .error fault) := by
  rw [recordRows, h]

theorem holdsIn_eq_levelIn {f : Formula} {holds : Bool} (h : f.holdsIn b row = .ok holds) :
    f.holdsIn b row = .ok (levelIn f b row = .alerting) := by
  rw [levelIn, h]
  cases holds <;> rfl

theorem recordRows_cons_ok {holds : Bool} (h : op.predicate.holdsIn b row = .ok holds) :
    let next := op.recordLevel now b row (levelIn op.predicate b row)
    recordRows now b op (row :: rest) = ((recordRows now b next.1 rest).1,
      (recordRows now b next.1 rest).2.map (next.2.toList ++ ·)) := by
  have hlevel : levelIn op.predicate b row = if holds then .alerting else .ok := by
    rw [levelIn, h]
    cases holds <;> rfl
  rw [recordRows, h, hlevel]

/-- A batch of which no row fails. -/
theorem Tracks.recordRows {rows : List Row} {as : List Alert} (h : Tracks start rs op alerts)
    (hok : (Alerting.recordRows now b op rows).2 = .ok as) :
    Tracks start (rs ++ rows.map fun row => ⟨now, b, row, levelIn start.predicate b row⟩)
      (Alerting.recordRows now b op rows).1 (alerts ++ as) := by
  induction rows generalizing rs op alerts as with
  | nil =>
    cases hok
    rw [List.map_nil, List.append_nil, List.append_nil]
    exact h
  | cons row rest ih =>
    have hpredicate : op.predicate = start.predicate := by rw [h.config]
    cases hholds : op.predicate.holdsIn b row with
    | error fault =>
      rw [recordRows_cons_error hholds] at hok
      exact nomatch hok
    | ok holds =>
      rw [recordRows_cons_ok hholds] at hok ⊢
      obtain ⟨later, hlater, rfl⟩ := map_eq_ok.1 hok
      rw [hpredicate] at hholds hlater ⊢
      have hnext := ih (h.recordLevel ⟨now, b, row, levelIn start.predicate b row⟩
        (holdsIn_eq_levelIn hholds)) hlater
      rw [List.append_assoc, List.append_assoc] at hnext
      exact hnext

/-- A run of batches of which none fails. -/
theorem Tracks.serve {calls : List (Instant × Nat × Batch)} {outs : List Emitted}
    (h : Tracks start rs op alerts)
    (hok : (Operator.serve (.alerting op)
      (calls.map fun (now, port, b) => (now, .batch port b))).2 = outs.map .ok) :
    ∃ final, (Operator.serve (.alerting op)
        (calls.map fun (now, port, b) => (now, .batch port b))).1 = .alerting final ∧
      Tracks start (rs ++ readings start.predicate calls) final
        (alerts ++ outs.flatMap (·.alerts)) ∧
      outs.map (·.batches) = calls.map fun (_, _, b) => [b] := by
  induction calls generalizing rs op alerts outs with
  | nil =>
    obtain rfl := List.map_eq_nil_iff.1 hok.symm
    exact ⟨op, rfl, by simpa [readings] using h, rfl⟩
  | cons call rest ih =>
    obtain ⟨now, port, b⟩ := call
    obtain ⟨out, later, rfl, hout, hlater⟩ := List.map_eq_cons_iff.1 hok.symm
    obtain ⟨as, has, rfl⟩ := map_eq_ok.1 hout.symm
    obtain ⟨final, hfinal, htracks, hbatches⟩ := ih (h.recordRows has) hlater.symm
    refine ⟨final, hfinal, ?_, ?_⟩
    · rw [List.append_assoc, List.append_assoc] at htracks
      exact htracks
    · rw [List.map_cons, hbatches]
      rfl

/-- What a new alerting does for a group is told by the levels of the rows of that group, whatever
other groups have rows in between: it alerts at each change of level at which a new detector fed the
levels so far is not flapping, and the alert carries that row. The other changes are counted, and
batches pass unchanged. -/
theorem serve_notifies (task node : String) (n : AlertNode) (history : Nat)
    (calls : List (Instant × Nat × Batch)) (outs : List Emitted)
    (hok : (Operator.serve (.alerting (new task node n history))
      (calls.map fun (now, port, b) => (now, .batch port b))).2 = outs.map .ok) :
    let start := new task node n history
    let rs := readings n.predicate calls
    let alerts := outs.flatMap (·.alerts)
    (∀ r ∈ rs, n.predicate.holdsIn r.batch r.row = .ok (r.level = .alerting)) ∧
    (∀ key, List.Forall₂ (fun i a => ∃ r, (readingsOf key rs)[i]? = some r ∧
        start.Reports (latest ((readingsOf key rs).take i)) r a)
      (start.notifiedAt (readingsOf key rs)) (alerts.filter (·.key = key))) ∧
    outs.map (·.batches) = calls.map (fun (_, _, b) => [b]) ∧
    ∃ final, (Operator.serve (.alerting start)
        (calls.map fun (now, port, b) => (now, .batch port b))).1 = .alerting final ∧
      (∀ key, final.levelOf key = (levels (readingsOf key rs)).getLast?) ∧
      final.sent = alerts.length ∧
      final.sent + final.suppressed = ∑ key ∈ groupsIn rs, changes (readingsOf key rs) := by
  intro start rs alerts
  obtain ⟨final, hfinal, htracks, hbatches⟩ :=
    (tracks_new start rfl rfl rfl).serve hok
  refine ⟨htracks.read, fun key => ?_, hbatches, final, hfinal, fun key => ?_, htracks.sent,
    htracks.total⟩
  · have hnotified : alerts.filter (·.key = key) = start.alertsFor (readingsOf key rs) :=
      htracks.notified key
    rw [hnotified]
    exact start.forall₂_reports_alertsFor _
  · rw [levelOf, htracks.groups, Option.map_map]
    exact Option.map_id'

/-- A group that alerts and recovers, with a row of another group in between that alerts. -/
theorem serve_notifies_of_two :
    let n : AlertNode := ⟨⟨"v", .ident "v"⟩, none, none, none⟩
    let batch (name : String) (rows : List (Instant × Bool)) : Batch :=
      ⟨name, ∅, ["v"], rows.map fun (time, v) => ⟨time, [.bool v]⟩, none⟩
    let calls : List (Instant × Nat × Batch) :=
      [(⟨7⟩, 0, batch "a" [(⟨1⟩, true), (⟨2⟩, true)]), (⟨8⟩, 0, batch "b" [(⟨2⟩, true)]),
        (⟨9⟩, 0, batch "a" [(⟨3⟩, false)])]
    ∃ (outs : List Emitted) (final : Alerting), Operator.serve (.alerting (new "t" "n" n 21))
        (calls.map fun (now, port, b) => (now, .batch port b)) =
          (.alerting final, outs.map .ok) ∧
      ((outs.flatMap (·.alerts)).filter (·.key = ⟨"a", ∅⟩)).map
          (fun alert => (alert.previous, alert.level, alert.time, alert.fields.get? "v")) =
        [(.ok, .alerting, ⟨1⟩, some (.bool true)), (.alerting, .ok, ⟨3⟩, some (.bool false))] ∧
      final.levelOf ⟨"a", ∅⟩ = some .ok ∧ final.levelOf ⟨"b", ∅⟩ = some .alerting ∧
      final.sent + final.suppressed = 3 := by
  intro n batch calls
  obtain ⟨outs, hok⟩ : ∃ outs : List Emitted, (Operator.serve (.alerting (new "t" "n" n 21))
      (calls.map fun (now, port, b) => (now, .batch port b))).2 = outs.map .ok :=
    exists_eq_map_ok (by decide +kernel)
  obtain ⟨-, hreports, -, final, hfinal, hlevels, -, htotal⟩ :=
    serve_notifies "t" "n" n 21 calls outs hok
  refine ⟨outs, final, Prod.ext hfinal hok, ?_, (hlevels _).trans (by decide +kernel),
    (hlevels _).trans (by decide +kernel), htotal.trans (by decide +kernel)⟩
  have hat : (new "t" "n" n 21).notifiedAt (readingsOf ⟨"a", ∅⟩ (readings n.predicate calls)) =
      [0, 2] := by decide +kernel
  -- the first and the third row of the group are reported
  have hown := hreports ⟨"a", ∅⟩
  rw [hat] at hown
  obtain ⟨first, alerts, ⟨r, hr, hfirst⟩, halerts, heq⟩ := List.forall₂_cons_left_iff.1 hown
  obtain ⟨third, rest, ⟨r', hr', hthird⟩, hrest, rfl⟩ := List.forall₂_cons_left_iff.1 halerts
  obtain rfl := List.forall₂_nil_left_iff.1 hrest
  cases hr
  cases hr'
  have hone : first.fields.get? "v" = some (.bool true) :=
    (hfirst.fields _ _).2 ⟨0, rfl, rfl, fun j hj _ => List.getElem?_eq_none hj⟩
  have hthree : third.fields.get? "v" = some (.bool false) :=
    (hthird.fields _ _).2 ⟨0, rfl, rfl, fun j hj _ => List.getElem?_eq_none hj⟩
  rw [heq, List.map_cons, List.map_cons, List.map_nil, hone, hthree, hfirst.previous, hfirst.level,
    hfirst.time, hthird.previous, hthird.level, hthird.time]
  rfl

end Alerting

end SeriesPipeline
