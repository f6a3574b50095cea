import SeriesPipeline.Proofs.SortedMap
import SeriesPipeline.Registry.Basic

/-!
# Handles of a registry

A handle keeps its task for ever. A name finds the latest task that was started under it, as long as
it is registered.
-/

namespace SeriesPipeline.Registry

variable {r r' : Registry} {h h' : TaskHandle} {t : PipelineTask} {name : String}

theorem task?_new (clock : Clock) (settings : Settings) (h : TaskHandle) :
    (new clock settings).task? h = none :=
  rfl

/-- What is entered under a name is found there, and nothing else changes. -/
theorem named_insert (r : Registry) (name name' : String) (v : NamedTasks) :
    ({ r with names := r.names.insert name v } : Registry).named name' =
      if name' = name then v else r.named name' := by
  rw [named, SortedMap.get?_insert]
  split <;> rfl

theorem find_eq_ok_iff : r.find name = .ok h ↔
    h.name = name ∧ (r.named name).registered = true ∧
      (r.named name).started.length = h.number + 1 := by
  obtain ⟨name', number⟩ := h
  unfold find latest?
  cases hstarted : (r.named name).started with
  | nil => simp
  | cons first rest =>
    cases (r.named name).registered with
    | true => simp [eq_comm]
    | false => simp

/-- What is found is a task. -/
theorem task?_of_find (hfind : r.find h.name = .ok h) : ∃ t, r.task? h = some t := by
  obtain ⟨-, -, hlength⟩ := find_eq_ok_iff.1 hfind
  exact ⟨_, List.getElem?_eq_getElem (by omega)⟩

/-- Whether a handle is found depends on how many tasks were started under its name, and on whether
the name is registered. -/
theorem find_congr (hregistered : (r'.named h.name).registered = (r.named h.name).registered)
    (hlength : (r'.named h.name).started.length = (r.named h.name).started.length) :
    r'.find h.name = .ok h ↔ r.find h.name = .ok h := by
  rw [find_eq_ok_iff, find_eq_ok_iff, hregistered, hlength]

theorem eq_of_find (hfind : r.find h.name = .ok h) (hfind' : r.find h'.name = .ok h')
    (hname : h.name = h'.name) : h = h' := by
  rw [hname, hfind'] at hfind
  exact (Except.ok.inj hfind).symm

/-! ## Changes of a task -/

theorem named_setTask (r : Registry) (h : TaskHandle) (t : PipelineTask) (name : String) :
    (r.setTask h t).named name = if name = h.name
      then { r.named h.name with started := (r.named h.name).started.set h.number t }
      else r.named name :=
  named_insert r h.name name _

theorem find_setTask : (r.setTask h t).find h'.name = .ok h' ↔ r.find h'.name = .ok h' := by
  apply find_congr
  · rw [named_setTask]
    split
    · rename_i hname
      rw [hname]
    · rfl
  · rw [named_setTask]
    split
    · rename_i hname
      rw [hname, List.length_set]
    · rfl

theorem task?_setTask (ht : r.task? h = some t) (t' : PipelineTask) :
    (r.setTask h t').task? h' = if h' = h then some t' else r.task? h' := by
  obtain ⟨name, number⟩ := h
  obtain ⟨name', number'⟩ := h'
  rw [task?, named_setTask]
  by_cases hname : name' = name
  · subst hname
    have hlt := (List.getElem?_eq_some_iff.1 ht).1
    by_cases hnumber : number' = number
    · subst hnumber
      rw [if_pos rfl, if_pos rfl]
      exact List.getElem?_set_self hlt
    · rw [if_pos rfl, if_neg fun heq => hnumber (congrArg TaskHandle.number heq)]
      exact List.getElem?_set_ne (Ne.symm hnumber)
  · rw [if_neg hname, if_neg fun heq => hname (congrArg TaskHandle.name heq)]
    rfl

/-! ## Starting and forgetting -/

/-- A task starts under a name that is not registered, as the latest one. -/
structure Starts (r r' : Registry) (name : String) (t : PipelineTask) : Prop where
  free : (r.named name).registered = false
  named : ∀ name', r'.named name' =
    if name' = name then ⟨(r.named name).started ++ [t], true⟩ else r.named name'

theorem starts_of_start {b : Blueprint} (hstart : r.start b = .ok (r', t)) :
    r.Starts r' b.name t := by
  unfold start at hstart
  split at hstart
  · cases hstart
  · dsimp only at hstart
    split at hstart
    · cases hstart
    · rename_i hfree
      cases hstart
      exact ⟨Bool.not_eq_true _ ▸ hfree, fun name' => named_insert r b.name name' _⟩

theorem Starts.find (hstarts : r.Starts r' name t) (hname : h.name ≠ name) :
    r'.find h.name = .ok h ↔ r.find h.name = .ok h := by
  have hnamed := hstarts.named h.name
  rw [if_neg hname] at hnamed
  exact find_congr (congrArg _ hnamed) (congrArg (·.started.length) hnamed)

/-- No task is lost. -/
theorem Starts.task? (hstarts : r.Starts r' name t) {t' : PipelineTask}
    (ht' : r.task? h = some t') : r'.task? h = some t' := by
  rw [Registry.task?, hstarts.named]
  split
  · rename_i hname
    rw [Registry.task?, hname] at ht'
    exact (List.getElem?_append_left (List.getElem?_eq_some_iff.1 ht').1).trans ht'
  · exact ht'

/-- The tasks of a registry that has started one. -/
theorem Starts.of_task? (hstarts : r.Starts r' name t) {t' : PipelineTask}
    (ht' : r'.task? h = some t') : r.task? h = some t' ∨ r'.find h.name = .ok h := by
  rw [Registry.task?, hstarts.named] at ht'
  split at ht'
  · rename_i hname
    by_cases hlt : h.number < (r.named name).started.length
    · left
      rw [List.getElem?_append_left hlt] at ht'
      rw [Registry.task?, hname, ht']
    · right
      have hle := (List.getElem?_eq_some_iff.1 ht').1
      rw [List.length_append, List.length_singleton] at hle
      rw [find_eq_ok_iff, hstarts.named, if_pos hname]
      refine ⟨rfl, rfl, ?_⟩
      rw [List.length_append, List.length_singleton]
      omega
  · exact .inl ht'

theorem named_release (r : Registry) (name name' : String) : (r.release name).named name' =
    if name' = name then { r.named name with registered := false } else r.named name' :=
  named_insert r name name' _

theorem task?_release (r : Registry) (name : String) (h : TaskHandle) :
    (r.release name).task? h = r.task? h := by
  rw [task?, named_release]
  split
  · rename_i hname
    rw [task?, hname]
  · rfl

theorem find_release (hname : h.name ≠ name) :
    (r.release name).find h.name = .ok h ↔ r.find h.name = .ok h := by
  have hnamed := named_release r name h.name
  rw [if_neg hname] at hnamed
  exact find_congr (congrArg _ hnamed) (congrArg (·.started.length) hnamed)

end SeriesPipeline.Registry
