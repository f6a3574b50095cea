import SeriesPipeline.Data.Lines
import SeriesPipeline.Proofs.Data.Guarded
import SeriesPipeline.Proofs.Data.Series
import SeriesPipeline.Proofs.Json.Reading
import SeriesPipeline.Proofs.SortedMap

/-!
# Batches on lines

A consistent batch without doubles is read back from the line that its series is written on, but
for its window. So are several batches from their lines, in order.
-/

namespace SeriesPipeline

namespace Value

def IsFloat : Value → Prop
  | .float _ => True
  | _ => False

variable {v : Value}

theorem exact_toJson (h : ¬ v.IsFloat) : Json.Exact v.toJson := by
  cases v with
  | null => exact .null
  | bool b => exact .bool b
  | int n =>
    have hsize : Int64.maxValue.toInt < UInt64.size := by decide
    exact .int ⟨n.minValue_le_toInt, Int.lt_of_le_of_lt n.toInt_le hsize⟩
  | float x => exact absurd trivial h
  | text s => exact .text s

theorem ofJson?_toJson (v : Value) : ofJson? v.toJson = some v := by
  cases v with
  | int n => rw [toJson, ofJson?, signedWord?_toInt]
  | _ => rfl

end Value

theorem mapM_map_eq_some {α β : Type} {f : α → β} {g : β → Option α} {l : List α}
    (h : ∀ a ∈ l, g (f a) = some a) : (l.map f).mapM g = some l := by
  rw [List.mapM_map]
  exact (mapM_eq_some_map h).trans (congrArg some (List.map_id' l))

namespace Json

theorem texts?_map_text (texts : List String) :
    (array (texts.map .text)).texts? = some texts :=
  mapM_map_eq_some fun _ _ => rfl

theorem textMap?_entries (tags : Tags) :
    (object (tags.toList.map fun e => (e.1, .text e.2))).textMap? = some tags := by
  have hentries : (tags.toList.map fun e : String × String => (e.1, text e.2)).mapM
      (fun e : String × Json => e.2.text?.map fun v => (e.1, v)) = some tags.entries :=
    mapM_map_eq_some fun _ _ => rfl
  simp only [textMap?, object?, Option.bind_eq_bind, Option.bind_some, hentries]
  exact congrArg some (SortedMap.ofList_entries tags)

end Json

namespace Series

/-- No cell is a double. -/
def FloatFree (s : Series) : Prop := ∀ cells ∈ s.values, ∀ v ∈ cells, ¬ v.IsFloat

variable {s : Series}

theorem exact_toJson (h : s.FloatFree) : Json.Exact s.toJson := by
  refine .object ?_
  simp only [List.forall_mem_cons, List.not_mem_nil, false_imp_iff, implies_true, and_true]
  refine ⟨.text s.name, .object ?_, .array ?_, .array ?_⟩
  · simp only [List.mem_map]
    rintro _ ⟨e, -, rfl⟩
    exact .text e.2
  · simp only [List.mem_map]
    rintro _ ⟨column, -, rfl⟩
    exact .text column
  · simp only [List.mem_map]
    rintro _ ⟨cells, hcells, rfl⟩
    refine .array ?_
    simp only [List.mem_map]
    rintro _ ⟨v, hv, rfl⟩
    exact Value.exact_toJson (h cells hcells v hv)

theorem rowsOfJson?_map (values : List (List Value)) :
    rowsOfJson? (.array (values.map fun cells => .array (cells.map Value.toJson))) = some values :=
  mapM_map_eq_some fun _ _ => mapM_map_eq_some fun v _ => v.ofJson?_toJson

theorem ofJson?_toJson (s : Series) : ofJson? s.toJson = some s := by
  have hparts : ofJson? s.toJson = ofParts? (some (.text s.name))
      (some (.object (s.tags.toList.map fun e => (e.1, .text e.2))))
      (some (.array (s.columns.map .text)))
      (some (.array (s.values.map fun cells => .array (cells.map Value.toJson)))) := by
    rfl
  rw [hparts]
  simp only [ofParts?, Option.bind_some, Json.text?, Json.textMap?_entries, Json.texts?_map_text,
    rowsOfJson?_map, Option.bind_eq_bind]
  rfl

end Series

namespace Batch

/-- No cell is a double. -/
def FloatFree (b : Batch) : Prop := ∀ r ∈ b.rows, ∀ v ∈ r.values, ¬ v.IsFloat

/-- The line that the batch is written on. -/
def line (b : Batch) : List Char := (Series.ofBatch b).toJson.chars

variable {b : Batch}

theorem FloatFree.ofBatch (h : b.FloatFree) : (Series.ofBatch b).FloatFree := by
  intro cells hcells
  obtain ⟨r, hr, rfl⟩ := List.mem_map.1 hcells
  exact List.forall_mem_cons.2 ⟨id, h r hr⟩

theorem exists_line_eq (b : Batch) : ∃ body, b.line = '\x7b' :: (body ++ ['\x7d']) :=
  ⟨Json.fieldChars _, by rw [line, Series.toJson, Json.chars]; rfl⟩

theorem ofLine_line (hb : b.checkConsistency = .ok ()) (hfloat : b.FloatFree) :
    ofLine b.line = .ok { b with window := none } := by
  have hread : (Json.ofChars? b.line).bind Series.ofJson? = some (Series.ofBatch b) := by
    rw [line, Json.ofChars?_chars (Series.exact_toJson hfloat.ofBatch), Option.bind_some,
      Series.ofJson?_toJson]
  have hbatch : (Series.ofBatch b).toBatch = .ok { b with window := none } :=
    Series.toBatch_ofBatch (checkConsistency_eq_ok_iff.1 hb).width
  have hcheck : checkConsistency { b with window := none } = .ok () := hb
  rw [ofLine, hread]
  show (Series.ofBatch b).toBatch.bind _ = _
  rw [hbatch, Except.bind, hcheck]
  rfl

end Batch

namespace Lines

variable {cs rest line : List Char}

/-- The text of several batches, one a line. -/
def text (batches : List Batch) : List Char := batches.flatMap fun b => b.line ++ ['\n']

theorem splitFrom_append (h : '\n' ∉ cs) (line rest : List Char) :
    splitFrom line (cs ++ '\n' :: rest) =
      withoutReturn (line.reverse ++ cs) :: splitFrom [] rest := by
  induction cs generalizing line with
  | nil =>
    rw [List.nil_append, List.append_nil, splitFrom, if_pos rfl]
  | cons c cs ih =>
    rw [List.mem_cons, not_or] at h
    rw [List.cons_append, splitFrom, if_neg (Ne.symm h.1), ih h.2, List.reverse_cons,
      List.append_assoc]
    rfl

theorem withoutReturn_concat {c : Char} (h : c ≠ '\r') (cs : List Char) :
    withoutReturn (cs ++ [c]) = cs ++ [c] := by
  rw [withoutReturn, List.reverse_append]
  split
  · rename_i heq
    cases heq
    exact absurd rfl h
  · rfl

theorem split_text {batches : List Batch} (h : ∀ b ∈ batches, b.FloatFree) :
    split (text batches) = batches.map Batch.line := by
  rw [split]
  induction batches with
  | nil => rfl
  | cons b rest ih =>
    obtain ⟨hb, hrest⟩ := List.forall_mem_cons.1 h
    obtain ⟨body, hbody⟩ := b.exists_line_eq
    have htext : text (b :: rest) = b.line ++ '\n' :: text rest := by
      rw [text, List.flatMap_cons, List.append_assoc]
      rfl
    have hline : withoutReturn b.line = b.line := by
      rw [hbody, ← List.cons_append]
      exact withoutReturn_concat (by decide) _
    have hnewline : '\n' ∉ b.line := (Series.exact_toJson hb.ofBatch).newline_notMem
    rw [htext, splitFrom_append hnewline, List.reverse_nil, List.nil_append, hline, ih hrest,
      List.map_cons]

theorem batchesFrom_lines {batches : List Batch} (h : ∀ b ∈ batches, b.checkConsistency = .ok ())
    (hfloat : ∀ b ∈ batches, b.FloatFree) (i : Nat) :
    batchesFrom i ((batches.map Batch.line).map some) =
      .ok (batches.map fun b => { b with window := none }) := by
  induction batches generalizing i with
  | nil => rfl
  | cons b rest ih =>
    obtain ⟨hb, hrest⟩ := List.forall_mem_cons.1 h
    obtain ⟨hbfloat, hrestfloat⟩ := List.forall_mem_cons.1 hfloat
    obtain ⟨body, hbody⟩ := b.exists_line_eq
    -- blank lines are skipped, and the line of a batch has its brace
    have hblank : ¬ b.line.all Text.isBlank = true := by
      rw [hbody]
      simp [Text.isBlank]
    rw [List.map_cons, List.map_cons, batchesFrom, if_neg hblank, Batch.ofLine_line hb hbfloat]
    show (batchesFrom (i + 1) ((rest.map Batch.line).map some)).bind _ = _
    rw [ih hrest hrestfloat]
    rfl

theorem decoded?_toUTF8 (s : String) : decoded? s.toUTF8.data.toList = some s.toList := by
  have hbytes : (⟨s.toUTF8.data.toList.toArray⟩ : ByteArray) = s.toUTF8 := by
    rw [Array.toArray_toList]
  rw [decoded?, hbytes, String.fromUTF8?, String.toUTF8, dif_pos s.isValidUTF8]
  rfl

theorem batchesOfBytes_text {batches : List Batch}
    (h : ∀ b ∈ batches, b.checkConsistency = .ok ()) (hfloat : ∀ b ∈ batches, b.FloatFree) :
    batchesOfBytes (String.ofList (text batches)).toUTF8.data.toList =
      .ok (batches.map fun b => { b with window := none }) := by
  rw [batchesOfBytes, decoded?_toUTF8, String.toList_ofList]
  show batchesOfText (text batches) = _
  rw [batchesOfText, split_text hfloat, batchesFrom_lines h hfloat]

/-- Consistent batches without doubles are read back from their lines, one batch from its line and
several in order from the bytes of their text. Only the windows are lost. -/
theorem lines_are_read :
    (∀ b : Batch, b.checkConsistency = .ok () → b.FloatFree →
      Batch.ofLine b.line = .ok { b with window := none }) ∧
    ∀ batches : List Batch, (∀ b ∈ batches, b.checkConsistency = .ok () ∧ b.FloatFree) →
      batchesOfBytes (String.ofList (text batches)).toUTF8.data.toList =
        .ok (batches.map fun b => { b with window := none }) := by
  refine ⟨fun _ => Batch.ofLine_line, fun batches h => ?_⟩
  exact batchesOfBytes_text (fun b hb => (h b hb).1) fun b hb => (h b hb).2

/-- A batch with a column named as that of the times and a text that needs escapes, and a batch
without rows. -/
theorem lines_are_read_of_two :
    let b : Batch := ⟨"m", SortedMap.ofList [("host", "\"a\"")], ["time", "v"],
      [⟨.least, [.null, .text "1\n\u0001é𝄞"]⟩, ⟨⟨-1⟩, [.bool true, .int (-5)]⟩], some ⟨.least, ⟨0⟩⟩⟩
    let empty : Batch := ⟨"", ∅, [], [], none⟩
    Batch.ofLine b.line = .ok { b with window := none } ∧
      batchesOfBytes (String.ofList (text [b, empty])).toUTF8.data.toList =
        .ok [{ b with window := none }, empty] := by
  intro b empty
  have hb : b.checkConsistency = .ok () := rfl
  have hbfloat : b.FloatFree := by simp [b, Batch.FloatFree, Value.IsFloat]
  have hempty : empty.checkConsistency = .ok () ∧ empty.FloatFree :=
    ⟨rfl, by simp [empty, Batch.FloatFree]⟩
  obtain ⟨hone, hseveral⟩ := lines_are_read
  refine ⟨hone b hb hbfloat, hseveral [b, empty] ?_⟩
  simp only [List.forall_mem_cons, List.not_mem_nil, false_imp_iff, implies_true, and_true]
  exact ⟨⟨hb, hbfloat⟩, hempty⟩

end Lines

end SeriesPipeline
