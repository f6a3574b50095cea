import SeriesPipeline.Proofs.Data.Series
import SeriesPipeline.Proofs.SortedMap
import SeriesPipeline.Proofs.Task.Histories
import SeriesPipeline.Task.Cache

/-!
# What the result cache holds

After any publications, the cache has the batch published last under each name and key. It is the
same for all publications that agree, name by name and key by key, on the order of what was
published there.
-/

namespace SeriesPipeline

namespace ResultCache

variable {c c' : ResultCache} {entries entries' : List (String × Batch)} {name output : String}
  {key : SeriesKey}

/-- What was published under a name with a key. -/
def publishedUnder (entries : List (String × Batch)) (name : String) (key : SeriesKey) :
    List (String × Batch) :=
  entries.filter fun e => e.1 = name ∧ e.2.key = key

/-- The batch that was published last under a name with a key. -/
def lastUnder (entries : List (String × Batch)) (name : String) (key : SeriesKey) : Option Batch :=
  ((publishedUnder entries name key).getLast?).map (·.2)

theorem mem_publishedUnder {e : String × Batch} :
    e ∈ publishedUnder entries name key ↔ e ∈ entries ∧ e.1 = name ∧ e.2.key = key := by
  rw [publishedUnder, List.mem_filter, decide_eq_true_eq]

/-- Publications with different names or keys may be made in either order. -/
theorem publishedUnder_swap {e e' : String × Batch} (h : ¬ (e.1 = e'.1 ∧ e.2.key = e'.2.key))
    (front back : List (String × Batch)) (name : String) (key : SeriesKey) :
    publishedUnder (front ++ e :: e' :: back) name key =
      publishedUnder (front ++ e' :: e :: back) name key := by
  rw [publishedUnder, publishedUnder, List.filter_append, List.filter_append]
  congr 1
  by_cases he : e.1 = name ∧ e.2.key = key
  · have he' : ¬ (e'.1 = name ∧ e'.2.key = key) := fun he' =>
      h ⟨he.1.trans he'.1.symm, he.2.trans he'.2.symm⟩
    simp only [List.filter_cons, decide_eq_false he', Bool.false_eq_true, if_false]
  · simp only [List.filter_cons, decide_eq_false he, Bool.false_eq_true, if_false]

theorem lastUnder_append_singleton (e : String × Batch) :
    lastUnder (entries ++ [e]) name key =
      if e.1 = name ∧ e.2.key = key then some e.2 else lastUnder entries name key := by
  rw [lastUnder, publishedUnder, List.filter_append, List.filter_singleton]
  by_cases he : e.1 = name ∧ e.2.key = key
  · rw [if_pos he, decide_eq_true he, cond_true, List.getLast?_concat, Option.map_some]
  · rw [if_neg he, decide_eq_false he, cond_false, List.append_nil]
    rfl

theorem exists_of_lastUnder {b : Batch} (h : lastUnder entries name key = some b) :
    (name, b) ∈ entries ∧ b.key = key := by
  obtain ⟨e, he, rfl⟩ := Option.map_eq_some_iff.1 h
  obtain ⟨hmem, rfl, hkey⟩ := mem_publishedUnder.1 (List.mem_of_getLast? he)
  exact ⟨hmem, hkey⟩

theorem isSome_lastUnder_iff :
    (lastUnder entries name key).isSome ↔ ∃ e ∈ entries, e.1 = name ∧ e.2.key = key := by
  rw [lastUnder, Option.isSome_map, List.getLast?_isSome, ← List.length_pos_iff,
    List.length_pos_iff_exists_mem]
  simp only [mem_publishedUnder]

theorem exists_isSome_lastUnder_iff :
    (∃ key, (lastUnder entries name key).isSome) ↔ ∃ e ∈ entries, e.1 = name := by
  simp only [isSome_lastUnder_iff]
  exact ⟨fun ⟨_, e, he, hname, _⟩ => ⟨e, he, hname⟩, fun ⟨e, he, hname⟩ =>
    ⟨e.2.key, e, he, hname, rfl⟩⟩

/-- The cache has what it had before some publications, and the last of these. -/
structure Gains (c : ResultCache) (entries : List (String × Batch)) (c' : ResultCache) : Prop where
  isSome : ∀ name, (c'.outputs.get? name).isSome ↔
    (c.outputs.get? name).isSome ∨ ∃ e ∈ entries, e.1 = name
  get? : ∀ name key, (c'.outputs.get? name).bind (·.get? key) =
    (lastUnder entries name key).or ((c.outputs.get? name).bind (·.get? key))

theorem get?_outputs_publish (c : ResultCache) (output name : String) (b : Batch) :
    (c.publish output b).outputs.get? name = if name = output then
      some (((c.outputs.get? output).getD ∅).insert b.key b) else c.outputs.get? name :=
  SortedMap.get?_insert ..

theorem Gains.publish (h : c.Gains entries c') (e : String × Batch) :
    c.Gains (entries ++ [e]) (c'.publish e.1 e.2) where
  isSome name := by
    rw [get?_outputs_publish]
    by_cases he : name = e.1
    · simp [he]
    · rw [if_neg he, h.isSome]
      simp [Ne.symm he]
  get? name key := by
    rw [get?_outputs_publish, lastUnder_append_singleton]
    by_cases he : name = e.1
    · subst he
      have hget : ((c'.outputs.get? e.1).getD ∅).get? key =
          (c'.outputs.get? e.1).bind (·.get? key) := by
        cases c'.outputs.get? e.1 <;> rfl
      rw [if_pos rfl, Option.bind_some, SortedMap.get?_insert, hget, h.get?]
      by_cases hkey : key = e.2.key
      · rw [if_pos hkey, if_pos ⟨rfl, hkey.symm⟩, Option.some_or]
      · rw [if_neg hkey, if_neg fun h => hkey h.2.symm]
    · rw [if_neg he, if_neg fun h => he h.1.symm, h.get?]

/-- The cache after some publications. -/
theorem gains_foldl (c : ResultCache) (entries : List (String × Batch)) :
    c.Gains entries (entries.foldl (fun c e => c.publish e.1 e.2) c) := by
  induction entries using List.reverseRecOn with
  | nil => exact ⟨by simp, fun _ _ => rfl⟩
  | append_singleton entries e ih =>
    rw [List.foldl_append]
    exact ih.publish e

/-- Only the order of what is published under one name with one key matters. -/
theorem Gains.eq {d : ResultCache} (h : c.Gains entries c') (h' : c.Gains entries' d)
    (hsame : ∀ name key, publishedUnder entries name key = publishedUnder entries' name key) :
    c' = d := by
  have hlast : ∀ name key, lastUnder entries name key = lastUnder entries' name key := by
    intro name key
    rw [lastUnder, lastUnder, hsame]
  refine congrArg ResultCache.mk (SortedMap.ext_get? fun name => ?_)
  have hsome : (c'.outputs.get? name).isSome ↔ (d.outputs.get? name).isSome := by
    rw [h.isSome, h'.isSome, ← exists_isSome_lastUnder_iff, ← exists_isSome_lastUnder_iff]
    simp only [hlast]
  have hget : ∀ key, (c'.outputs.get? name).bind (·.get? key) =
      (d.outputs.get? name).bind (·.get? key) := by
    intro key
    rw [h.get?, h'.get?, hlast]
  -- a name with no groups differs from one that is not there
  cases hc : c'.outputs.get? name with
  | none =>
    cases hd : d.outputs.get? name with
    | none => rfl
    | some _ => simp [hc, hd] at hsome
  | some m =>
    cases hd : d.outputs.get? name with
    | none => simp [hc, hd] at hsome
    | some n =>
      simp only [hc, hd, Option.bind_some] at hget
      rw [SortedMap.ext_get? hget]

theorem foldl_publish_eq (c : ResultCache)
    (h : ∀ name : String, entries.filter (·.1 = name) = entries'.filter (·.1 = name)) :
    entries.foldl (fun c e => c.publish e.1 e.2) c =
      entries'.foldl (fun c e => c.publish e.1 e.2) c := by
  refine (gains_foldl c entries).eq (gains_foldl c entries') fun name key => ?_
  have hfilter : ∀ entries : List (String × Batch), publishedUnder entries name key =
      (entries.filter (·.1 = name)).filter (·.2.key = key) := by
    intro entries
    simp only [publishedUnder, List.filter_filter, Bool.and_comm, Bool.decide_and]
  rw [hfilter, hfilter, h name]

end ResultCache

/-! ## Documents -/

/-- The name and the tags of a series. -/
def Series.key (s : Series) : SeriesKey := ⟨s.name, s.tags⟩

namespace Document

open ResultCache

/-- The document has one series for each key that was published under the name, in the order of the
keys, and each is what is written of the batch published last. -/
structure ListsLast (doc : Document) (entries : List (String × Batch)) (output : String) : Prop where
  ascending : (doc.series.map Series.key).Pairwise fun j k => compare j k = .lt
  mem_keys : ∀ key, key ∈ doc.series.map Series.key ↔ ∃ e ∈ entries, e.1 = output ∧ e.2.key = key
  last : ∀ s ∈ doc.series, ∃ b, lastUnder entries output s.key = some b ∧
    s = Series.ofBatch b ∧ s.Writes b

end Document

namespace ResultCache

variable {c : ResultCache} {entries entries' : List (String × Batch)} {output : String}

theorem Gains.get?_eq_none_iff (h : empty.Gains entries c) :
    c.get? output = none ↔ ∀ e ∈ entries, e.1 ≠ output := by
  have hsome : (c.outputs.get? output).isSome ↔ ∃ e ∈ entries, e.1 = output :=
    (h.isSome output).trans ⟨fun hor => hor.resolve_left nofun, .inr⟩
  rw [ResultCache.get?, Option.map_eq_none_iff, ← Option.not_isSome_iff_eq_none, hsome]
  simp only [not_exists, not_and, ne_eq]

theorem Gains.listsLast (h : empty.Gains entries c) {doc : Document}
    (hdoc : c.get? output = some doc) : doc.ListsLast entries output := by
  obtain ⟨groups, hgroups, rfl⟩ := Option.map_eq_some_iff.1 hdoc
  have hget : ∀ key, groups.get? key = lastUnder entries output key := by
    intro key
    have hgains := h.get? output key
    rw [hgroups, Option.bind_some] at hgains
    exact hgains.trans Option.or_none
  have hentry : ∀ e ∈ groups.entries, lastUnder entries output e.1 = some e.2 := fun e he =>
    (hget e.1).symm.trans (SortedMap.get?_eq_some_iff.2 he)
  have hkeys : (Document.ofBatches groups.values).series.map Series.key = groups.keys := by
    rw [Document.ofBatches, SortedMap.values, List.map_map, List.map_map]
    exact List.map_congr_left fun e he => (exists_of_lastUnder (hentry e he)).2
  refine ⟨?_, fun key => ?_, fun s hs => ?_⟩
  · rw [hkeys]
    exact List.pairwise_map.2 groups.sorted
  · rw [hkeys, SortedMap.mem_keys_iff, ← isSome_lastUnder_iff, ← hget, Option.isSome_iff_exists]
  · obtain ⟨b, hb, rfl⟩ := List.mem_map.1 hs
    obtain ⟨e, he, rfl⟩ := List.mem_map.1 hb
    refine ⟨e.2, ?_, rfl, Series.writes_ofBatch e.2⟩
    rw [← hentry e he]
    exact congrArg _ (exists_of_lastUnder (hentry e he)).2

/-- After any publications there is a document for the names that occur, and it lists what was
published last with each key. How publications with different names or keys are interleaved does not
show. -/
theorem lists_last_published :
    (∀ (entries : List (String × Batch)) (output : String),
      let c := entries.foldl (fun c e => c.publish e.1 e.2) empty
      (c.get? output = none ↔ ∀ e ∈ entries, e.1 ≠ output) ∧
      ∀ doc, c.get? output = some doc → doc.ListsLast entries output) ∧
    ∀ entries entries' : List (String × Batch),
      (∀ name key, publishedUnder entries name key = publishedUnder entries' name key) →
      ∀ output, (entries.foldl (fun c e => c.publish e.1 e.2) empty).get? output =
        (entries'.foldl (fun c e => c.publish e.1 e.2) empty).get? output := by
  refine ⟨fun entries output => ?_, fun entries entries' hsame output => ?_⟩
  · have hgains := gains_foldl empty entries
    exact ⟨hgains.get?_eq_none_iff, fun doc hdoc => hgains.listsLast hdoc⟩
  · rw [(gains_foldl empty entries).eq (gains_foldl empty entries') hsame]

/-- Two groups whose publications are interleaved in two ways. The document has a row of the batch
that was published last for the first group. -/
theorem lists_last_published_interleaved :
    let cpu : Batch := ⟨"cpu", ∅, ["sum"], [⟨⟨1⟩, [.int 3]⟩], none⟩
    let mem : Batch := ⟨"mem", ∅, ["sum"], [⟨⟨1⟩, [.int 4]⟩], none⟩
    let later : Batch := ⟨"cpu", ∅, ["max"], [⟨⟨2⟩, [.int 5]⟩], some ⟨⟨0⟩, ⟨5⟩⟩⟩
    let published := [("out", cpu), ("out", mem), ("out", later)]
    let cache := published.foldl (fun c e => c.publish e.1 e.2) empty
    (∃ doc, cache.get? "out" = some doc ∧ ∃ s ∈ doc.series, s.name = "cpu" ∧
      s.columns = ["time", "max"] ∧
      s.values = [[.text "1970-01-01T00:00:00.000000002Z", .int 5]] ∧
      s.toBatch = .ok { later with window := none }) ∧
    cache.get? "out" =
      ([("out", cpu), ("out", later), ("out", mem)].foldl (fun c e => c.publish e.1 e.2) empty).get?
        "out" := by
  intro cpu mem later published cache
  refine ⟨?_, lists_last_published.2 _ _ (publishedUnder_swap (by decide) [_] []) "out"⟩
  obtain ⟨hnone, hlists⟩ := lists_last_published.1 published "out"
  obtain ⟨doc, hdoc⟩ : ∃ doc, cache.get? "out" = some doc :=
    Option.ne_none_iff_exists'.1 fun h => hnone.1 h _ List.mem_cons_self rfl
  obtain ⟨-, hkeys, hlast⟩ := hlists doc hdoc
  obtain ⟨s, hs, hkey⟩ := List.mem_map.1
    ((hkeys later.key).2 ⟨("out", later), by simp [published], rfl, rfl⟩)
  obtain ⟨b, hb, rfl, hwrites⟩ := hlast s hs
  rw [hkey] at hb
  obtain rfl : later = b := Option.some_inj.1 ((by rfl : some later = _).trans hb)
  exact ⟨doc, hdoc, _, hs, hwrites.name, hwrites.columns, by rfl,
    hwrites.read (by simp [Batch.Rectangular, later])⟩

end ResultCache

/-! ## Tasks -/

namespace Execution

variable {n : Network} {given : Nat → List Message} {x : Execution} {output : String}

theorem Reached.cache_gains (h : x.Reached n given) :
    n.results.cache.Gains (publishedIn x.log) x.network.results.cache :=
  h.results.cache ▸ ResultCache.gains_foldl _ _

/-- Whatever the processes of a task have done so far, its documents list what its stages published
last. -/
theorem Reached.listsLast (h : x.Reached n given) (hempty : n.results.cache = .empty) {doc : Document}
    (hdoc : x.network.results.cache.get? output = some doc) :
    doc.ListsLast (publishedIn x.log) output :=
  (hempty ▸ h.cache_gains).listsLast hdoc

end Execution

end SeriesPipeline
