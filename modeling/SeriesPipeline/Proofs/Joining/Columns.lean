import Mathlib.Data.List.Pairwise
import SeriesPipeline.Proofs.Joining.Completion
import SeriesPipeline.Proofs.Joining.Shape
import SeriesPipeline.Proofs.Plan.Guarded

/-!
# Columns of joined batches

A joined batch has each column under the alias of its part and a dot. Such a name can be read in two
ways when one alias begins with another one and a dot. Where none does, the columns are distinct and
each is the column of its part; where one does, they clash for some parts.
-/

namespace SeriesPipeline

/-- Looking up a column takes the cell that stands under it. -/
theorem Batch.lookup_eq_under {b : Batch} {c : String} (hc : c ∈ b.columns) (row : Row) :
    b.lookup row c = row.under b.columns c := by
  obtain ⟨i, hi⟩ : ∃ i, b.columns.idxOf? c = some i := by
    rw [← Option.isSome_iff_exists, List.isSome_idxOf?]
    exact hc
  rw [lookup, columnIndex, hi, Row.under]
  clear hc
  -- both walk along the columns until they come to the name
  generalize b.columns = columns, row.values = values at hi
  induction columns generalizing values i with
  | nil => cases hi
  | cons d rest ih =>
    rw [List.idxOf?_cons] at hi
    cases values with
    | nil => rfl
    | cons v values =>
      rw [List.zip_cons_cons, lookup_cons_eq]
      by_cases hd : d = c
      · rw [if_pos (beq_iff_eq.2 hd)] at hi
        cases hi
        rw [if_pos hd.symm]
        rfl
      · rw [if_neg (by simpa using hd)] at hi
        obtain ⟨j, hj, rfl⟩ := Option.map_eq_some_iff.1 hi
        rw [if_neg (Ne.symm hd)]
        exact ih j values hj

namespace Joining

/-- No alias begins with another one and a dot. -/
def Unambiguous (aliases : List String) : Prop :=
  ∀ a ∈ aliases, ∀ longer ∈ aliases, ¬ (a ++ ".").toList <+: longer.toList

instance (aliases : List String) : Decidable (Unambiguous aliases) :=
  inferInstanceAs (Decidable (∀ a ∈ aliases, ∀ longer ∈ aliases, ¬ _))

/-- Every column of every part can be looked up in the joined rows. -/
def ReadsParts (op : Joining) (key : Alignment) (parts : List Batch) : Prop :=
  ∀ (i : Nat) row, (op.combine key parts).rows[i]? = some row →
    ∀ e ∈ op.aliases.zip parts, ∀ c ∈ e.2.columns, ∃ own v, e.2.rows[i]? = some own ∧
      e.2.lookup own c = some v ∧ (op.combine key parts).lookup row (e.1 ++ "." ++ c) = some v

variable {op : Joining} {key : Alignment} {aliases columns columns' : List String}
  {parts : List Batch} {sides : List (String × Batch)} {a a' c c' : String} {i : Nat}

/-! ## Dotted names -/

/-- A name with a dot is read in one way, unless one owner begins with the other and a dot. -/
theorem eq_or_isPrefix_of_dotted_eq (h : a ++ "." ++ c = a' ++ "." ++ c') :
    (a = a' ∧ c = c') ∨ (a ++ ".").toList <+: a'.toList ∨ (a' ++ ".").toList <+: a.toList := by
  have hchars : a.toList ++ '.' :: c.toList = a'.toList ++ '.' :: c'.toList := by
    simpa [String.toList_append] using congrArg String.toList h
  have hdotted : ∀ s : String, (s ++ ".").toList = s.toList ++ ['.'] := fun s =>
    String.toList_append
  rcases List.append_eq_append_iff.1 hchars with ⟨more, ha, hc⟩ | ⟨more, ha, hc⟩
  · cases more with
    | nil =>
      rw [List.append_nil] at ha
      exact .inl ⟨String.toList_inj.1 ha.symm, String.toList_inj.1 (List.cons.inj hc).2⟩
    | cons d more =>
      obtain ⟨rfl, -⟩ := List.cons.inj hc
      refine .inr (.inl ⟨more, ?_⟩)
      rw [hdotted, ha, List.append_assoc, List.singleton_append]
  · cases more with
    | nil =>
      rw [List.append_nil] at ha
      exact .inl ⟨String.toList_inj.1 ha, String.toList_inj.1 (List.cons.inj hc).2.symm⟩
    | cons d more =>
      obtain ⟨rfl, -⟩ := List.cons.inj hc
      refine .inr (.inr ⟨more, ?_⟩)
      rw [hdotted, ha, List.append_assoc, List.singleton_append]

theorem mem_qualified {name : String} :
    name ∈ qualified a columns ↔ ∃ c ∈ columns, a ++ "." ++ c = name :=
  List.mem_map

theorem nodup_qualified (h : columns.Nodup) (a : String) : (qualified a columns).Nodup :=
  h.map fun _ _ heq => (String.append_right_inj _).1 heq

theorem disjoint_qualified (h : Unambiguous aliases) (ha : a ∈ aliases) (ha' : a' ∈ aliases)
    (hne : a ≠ a') (columns columns' : List String) :
    (qualified a columns).Disjoint (qualified a' columns') := by
  intro name hname hname'
  obtain ⟨c, -, rfl⟩ := mem_qualified.1 hname
  obtain ⟨c', -, heq⟩ := mem_qualified.1 hname'
  rcases eq_or_isPrefix_of_dotted_eq heq with ⟨hsame, -⟩ | hbegins | hbegins
  · exact hne hsame.symm
  · exact h a' ha' a ha hbegins
  · exact h a ha a' ha' hbegins

/-! ## Parts side by side -/

/-- The columns of different sides are apart. -/
def Apart (e e' : String × Batch) : Prop :=
  (qualified e.1 e.2.columns).Disjoint (qualified e'.1 e'.2.columns)

instance : Std.Symm Apart := ⟨fun _ _ h => h.symm⟩

theorem pairwise_apart_zip (h : Unambiguous aliases) (haliases : aliases.Nodup)
    (hlength : parts.length = aliases.length) : (aliases.zip parts).Pairwise Apart := by
  have hne : (aliases.zip parts).Pairwise fun e e' => e.1 ≠ e'.1 := by
    rw [← List.pairwise_map (f := Prod.fst) (R := (· ≠ ·)), List.map_fst_zip hlength.ge]
    exact haliases
  refine hne.imp_of_mem fun he he' hne => ?_
  exact disjoint_qualified h (List.of_mem_zip he).1 (List.of_mem_zip he').1 hne _ _

theorem nodup_columns_combine_iff : (op.combine key parts).columns.Nodup ↔
    (∀ e ∈ op.aliases.zip parts, (qualified e.1 e.2.columns).Nodup) ∧
      (op.aliases.zip parts).Pairwise Apart :=
  List.nodup_flatMap

theorem lookup_zip_qualified (a : String) (columns : List String) (values : List Value)
    (c : String) :
    ((qualified a columns).zip values).lookup (a ++ "." ++ c) = (columns.zip values).lookup c := by
  induction columns generalizing values with
  | nil => rfl
  | cons d rest ih =>
    cases values with
    | nil => rfl
    | cons v values =>
      have htail := ih values
      rw [qualified] at htail ⊢
      rw [List.map_cons, List.zip_cons_cons, List.zip_cons_cons, lookup_cons_eq, lookup_cons_eq,
        htail]
      exact if_congr (String.append_right_inj _) rfl rfl

/-- Of values side by side, a dotted name has that of its own side. -/
theorem lookup_zip_sides (hsides : sides.Pairwise Apart) (values : Batch → List Value)
    (hwidth : ∀ e ∈ sides, (values e.2).length = e.2.columns.length) {e : String × Batch}
    (he : e ∈ sides) (hc : c ∈ e.2.columns) :
    ((sides.flatMap fun e => qualified e.1 e.2.columns).zip
        (sides.flatMap fun e => values e.2)).lookup (e.1 ++ "." ++ c) =
      (e.2.columns.zip (values e.2)).lookup c := by
  induction sides with
  | nil => cases he
  | cons first rest ih =>
    obtain ⟨hapart, hrest⟩ := List.pairwise_cons.1 hsides
    obtain ⟨hfirst, hwidth⟩ := List.forall_mem_cons.1 hwidth
    have hlength : (qualified first.1 first.2.columns).length = (values first.2).length := by
      rw [qualified, List.length_map, hfirst]
    rw [List.flatMap_cons, List.flatMap_cons, List.zip_append hlength, List.lookup_append]
    rcases List.mem_cons.1 he with rfl | he
    · obtain ⟨v, hv⟩ := Option.isSome_iff_exists.1 ((lookup_zip_isSome hfirst).2 hc)
      rw [lookup_zip_qualified, hv, Option.some_or]
    · -- the first side has no column of that name
      have hnone : ((qualified first.1 first.2.columns).zip (values first.2)).lookup
          (e.1 ++ "." ++ c) = none := by
        rw [← Option.not_isSome_iff_eq_none, lookup_zip_isSome hlength.symm]
        exact fun hmem => hapart e he hmem (mem_qualified.2 ⟨c, hc, rfl⟩)
      rw [hnone, Option.none_or]
      exact ih hrest hwidth he

/-- Without ambiguous aliases, joined rows have the values of the parts under the names of the
parts. -/
theorem readsParts_of_unambiguous (h : Unambiguous op.aliases) (haliases : op.aliases.Nodup)
    (hlength : parts.length = op.aliases.length) (hwidth : ∀ p ∈ parts, p.Rectangular)
    (key : Alignment) : op.ReadsParts key parts := by
  intro i row hrow e he c hc
  have hpart : ∀ e ∈ op.aliases.zip parts, e.2 ∈ parts := fun e he => (List.of_mem_zip he).2
  have hjoined := sideBySide_combine op key (List.ne_nil_of_mem (hpart e he))
  have hi := hjoined.lt_length hrow
  have hown : ∀ e ∈ op.aliases.zip parts,
      e.2.rows[i]!.values.length = e.2.columns.length := fun e he =>
    hwidth e.2 (hpart e he) _ (getElem!_mem_rows hi (hpart e he))
  obtain ⟨v, hv⟩ := Row.exists_under (hown e he) hc
  refine ⟨e.2.rows[i]!, v, ?_, ?_, ?_⟩
  · rw [getElem!_pos e.2.rows i (hi e.2 (hpart e he))]
    exact List.getElem?_eq_getElem _
  · rw [Batch.lookup_eq_under hc, hv]
  · have hcolumn : e.1 ++ "." ++ c ∈ (op.combine key parts).columns :=
      List.mem_flatMap.2 ⟨e, he, mem_qualified.2 ⟨c, hc, rfl⟩⟩
    have hvalues : row.values = (op.aliases.zip parts).flatMap fun e => e.2.rows[i]!.values := by
      have hzip : (op.aliases.zip parts).map (·.2) = parts := List.map_snd_zip hlength.le
      rw [hjoined.values i row hrow]
      conv_lhs => rw [← hzip]
      rw [List.flatMap_map]
    rw [Batch.lookup_eq_under hcolumn, Row.under, hvalues, ← hv]
    exact lookup_zip_sides (pairwise_apart_zip h haliases hlength) (·.rows[i]!.values) hown he hc

/-! ## Parts that clash -/

/-- A part of one row, with the same value in all of its columns. -/
def uniform (columns : List String) (v : Value) : Batch :=
  ⟨"m", ∅, columns, [⟨⟨0⟩, columns.map fun _ => v⟩], none⟩

/-- Parts for aliases of which one is `a` and another goes on with a dot and `rest`. -/
def clashing (a rest : String) (owner : String) : Batch :=
  if owner = a then uniform [rest ++ "." ++ "c"] (.bool true)
  else if owner = a ++ "." ++ rest then uniform ["c"] (.bool false)
  else uniform [] .null

theorem lookup_uniform {v : Value} {own : Row} (h : (uniform [c] v).rows[0]? = some own) :
    (uniform [c] v).lookup own c = some v := by
  cases h
  rw [Batch.lookup_eq_under List.mem_cons_self]
  exact (lookup_cons_eq c v [] c).trans (if_pos rfl)

theorem clashing_eq_uniform (a rest owner : String) : ∃ columns v,
    clashing a rest owner = uniform columns v ∧ columns.Nodup := by
  rw [clashing]
  split
  · exact ⟨_, _, rfl, List.nodup_singleton _⟩
  · split
    · exact ⟨_, _, rfl, List.nodup_singleton _⟩
    · exact ⟨_, _, rfl, List.nodup_nil⟩

/-- Ambiguous aliases are one alias and another that goes on with a dot and more. -/
theorem exists_longer (h : ¬ Unambiguous aliases) : ∃ a rest,
    a ∈ aliases ∧ a ++ "." ++ rest ∈ aliases ∧ a ++ "." ++ rest ≠ a := by
  simp only [Unambiguous, not_forall, not_not] at h
  obtain ⟨a, ha, longer, hlonger, rest, hrest⟩ := h
  have heq : longer = a ++ "." ++ String.ofList rest := by
    rw [← String.toList_inj, String.toList_append, String.toList_ofList, hrest]
  refine ⟨a, String.ofList rest, ha, heq ▸ hlonger, fun hsame => ?_⟩
  have hlength := congrArg (·.toList.length) hsame
  simp [String.toList_append] at hlength

/-- With ambiguous aliases there are parts whose columns clash, so that one name stands for two
values. -/
theorem exists_clash (h : ¬ Unambiguous op.aliases) (key : Alignment) : ∃ parts : List Batch,
    parts.length = op.aliases.length ∧ (∀ p ∈ parts, p.columns.Nodup ∧ p.Rectangular) ∧
      ¬ (op.combine key parts).columns.Nodup ∧ ¬ op.ReadsParts key parts := by
  obtain ⟨a, rest, ha, hlonger, hne⟩ := exists_longer h
  set longer := a ++ "." ++ rest with heq
  set parts := op.aliases.map (clashing a rest) with hparts
  have hmem : ∀ owner ∈ op.aliases, (owner, clashing a rest owner) ∈ op.aliases.zip parts := by
    intro owner howner
    rw [hparts, ← List.map_prod_left_eq_zip]
    exact List.mem_map_of_mem howner
  have hshort : clashing a rest a = uniform [rest ++ "." ++ "c"] (.bool true) := if_pos rfl
  have hlong : clashing a rest longer = uniform ["c"] (.bool false) :=
    (if_neg hne).trans (if_pos rfl)
  have hshortMem := hmem a ha
  have hlongMem := hmem longer hlonger
  rw [hshort] at hshortMem
  rw [hlong] at hlongMem
  have hname : a ++ "." ++ (rest ++ "." ++ "c") = longer ++ "." ++ "c" := by
    simp only [heq, String.append_assoc]
  have hone : ∀ p ∈ parts, p.rows.length = 1 ∧ p.columns.Nodup ∧ p.Rectangular := by
    intro p hp
    obtain ⟨owner, -, rfl⟩ := List.mem_map.1 hp
    obtain ⟨columns, v, hcolumns, hnodup⟩ := clashing_eq_uniform a rest owner
    rw [hcolumns]
    refine ⟨rfl, hnodup, fun r hr => ?_⟩
    rw [List.mem_singleton.1 hr]
    exact List.length_map _
  refine ⟨parts, List.length_map _, fun p hp => (hone p hp).2, fun hnodup => ?_, fun hreads => ?_⟩
  · have hapart := (nodup_columns_combine_iff.1 hnodup).2.forall hshortMem hlongMem
      fun hsame => hne (Prod.mk.inj hsame).1.symm
    exact hapart (mem_qualified.2 ⟨_, List.mem_cons_self, hname⟩)
      (mem_qualified.2 ⟨_, List.mem_cons_self, rfl⟩)
  · -- the first joined row would have both values under the one name
    have hrow := List.getElem?_eq_getElem ((lt_length_rows_combine_iff op key
      (List.ne_nil_of_mem (List.of_mem_zip hshortMem).2)).2 fun p hp =>
        Nat.one_pos.trans_eq (hone p hp).1.symm)
    obtain ⟨own, v, hown, hv, hjoined⟩ := hreads 0 _ hrow _ hshortMem _ List.mem_cons_self
    obtain ⟨own', v', hown', hv', hjoined'⟩ := hreads 0 _ hrow _ hlongMem _ List.mem_cons_self
    rw [lookup_uniform hown] at hv
    rw [lookup_uniform hown'] at hv'
    rw [hname, hjoined', ← hv, ← hv'] at hjoined
    cases hjoined

end Joining

/-! ## Joins of a blueprint -/

namespace Plan

/-- What a join of a plan puts out has distinct columns, for all parts with distinct columns,
exactly when no alias begins with another one and a dot. Exactly then its rows have the value of
each column of each part under the alias of the part and the column. -/
theorem joined_columns_distinct_iff {b : Blueprint} {settings : Settings} {p : Plan}
    (h : ofBlueprint b settings = .ok p) {n : Node} (hn : n ∈ b.nodes) {j : JoinNode}
    (hkind : n.kind = .join j) {op : Joining}
    (hop : Operator.ofNode p.name n.id p.settings n.kind = .joining op) :
    ((∀ key parts, parts.length = n.inputs.length → (∀ part ∈ parts, part.columns.Nodup) →
      (op.combine key parts).columns.Nodup) ↔ Joining.Unambiguous j.aliases) ∧
    ((∀ key parts, parts.length = n.inputs.length →
      (∀ part ∈ parts, part.columns.Nodup ∧ part.Rectangular) → op.ReadsParts key parts) ↔
        Joining.Unambiguous j.aliases) := by
  obtain ⟨order, hcheck, -, -⟩ := of_ofBlueprint_eq_ok h
  have hvalid := (Blueprint.check_eq_ok_iff.1 hcheck).parameters n hn
  rw [hkind] at hvalid hop
  obtain ⟨hlength, -, hnodup, -⟩ := hvalid
  have haliases : j.aliases = op.aliases := congrArg Joining.aliases (Operator.joining.inj hop)
  rw [haliases] at hlength hnodup ⊢
  rw [← hlength]
  refine ⟨⟨fun hall => ?_, fun hclear key parts hparts hcolumns => ?_⟩,
    ⟨fun hall => ?_, fun hclear key parts hparts hshape => ?_⟩⟩
  · by_contra hambiguous
    obtain ⟨parts, hparts, hshape, hclash, -⟩ := Joining.exists_clash hambiguous ⟨⟨⟨0⟩, ⟨0⟩⟩, ∅⟩
    exact hclash (hall _ parts hparts fun part hpart => (hshape part hpart).1)
  · refine Joining.nodup_columns_combine_iff.2 ⟨fun e he => ?_, ?_⟩
    · exact Joining.nodup_qualified (hcolumns e.2 (List.of_mem_zip he).2) e.1
    · exact Joining.pairwise_apart_zip hclear hnodup hparts
  · by_contra hambiguous
    obtain ⟨parts, hparts, hshape, -, hclash⟩ := Joining.exists_clash hambiguous ⟨⟨⟨0⟩, ⟨0⟩⟩, ∅⟩
    exact hclash (hall _ parts hparts hshape)
  · exact Joining.readsParts_of_unambiguous hclear hnodup hparts (fun part hpart =>
      (hshape part hpart).2) key

/-- A join of two parts that have a column of the same name. -/
theorem joined_columns_distinct_iff_joinOfTwo :
    let op : Joining := ⟨["x", "y"], [], ∅, none, 32, ∅, 0⟩
    let parts := [Joining.uniform ["v"] (.bool true), Joining.uniform ["v", "w"] (.bool false)]
    let key : Alignment := ⟨.instant ⟨0⟩, ∅⟩
    Joining.Unambiguous op.aliases ∧ (op.combine key parts).columns.Nodup ∧
      op.ReadsParts key parts := by
  intro op parts key
  have hplan : ofBlueprint joinOfTwo .standard = .ok planOfJoin := by
    with_unfolding_all rfl
  let n : Node := ⟨"j", .join ⟨["x", "y"], [], ∅, none, none⟩, ["s", "t"]⟩
  have hn : n ∈ joinOfTwo.nodes := List.mem_of_getElem? (i := 2) rfl
  have hop : Operator.ofNode planOfJoin.name n.id planOfJoin.settings n.kind = .joining op := rfl
  obtain ⟨hdistinct, hreads⟩ := joined_columns_distinct_iff hplan hn rfl hop
  have hclear : Joining.Unambiguous op.aliases := by decide +kernel
  have hparts : ∀ part ∈ parts, part.columns.Nodup ∧ part.Rectangular := by
    refine List.forall_mem_cons.2 ⟨⟨by decide, ?_⟩, List.forall_mem_singleton.2 ⟨by decide, ?_⟩⟩
    · exact List.forall_mem_singleton.2 rfl
    · exact List.forall_mem_singleton.2 rfl
  exact ⟨hclear, hdistinct.2 hclear key parts rfl fun part hpart => (hparts part hpart).1,
    hreads.2 hclear key parts rfl hparts⟩

/-- A join of which one alias begins with the other and a dot. -/
def joinOfNested : Blueprint :=
  ⟨"p", [⟨"s", .source ⟨none, none, none, .empty, none⟩, []⟩,
    ⟨"t", .source ⟨none, none, none, .empty, none⟩, []⟩,
    ⟨"j", .join ⟨["a", "a.b"], [], ∅, none, none⟩, ["s", "t"]⟩]⟩

/-- The join has a plan, and its columns `b.c` of `a` and `c` of `a.b` come under one name. Looking
the name up finds the value of the first part, though the second one has another. -/
theorem joined_columns_clash :
    let op : Joining := ⟨["a", "a.b"], [], ∅, none, 32, ∅, 0⟩
    let first := Joining.uniform ["b.c"] (.bool true)
    let second := Joining.uniform ["c"] (.bool false)
    let joined := op.combine ⟨.instant ⟨0⟩, ∅⟩ [first, second]
    (∃ p, ofBlueprint joinOfNested .standard = .ok p) ∧
    Operator.ofNode "p" "j" .standard (.join ⟨["a", "a.b"], [], ∅, none, none⟩) = .joining op ∧
    (Request.run Joining.take op [.batch 0 first, .batch 1 second]).2 = [joined] ∧
    first.columns.Nodup ∧ second.columns.Nodup ∧ ¬ joined.columns.Nodup ∧
    joined.rows.map (joined.lookup · "a.b.c") = [some (.bool true)] ∧
    second.rows.map (second.lookup · "c") = [some (.bool false)] := by
  intro op first second joined
  refine ⟨⟨_, by with_unfolding_all rfl⟩, rfl, ?_, by decide, by decide, by decide, ?_, ?_⟩
  · rfl
  · rfl
  · rfl

end Plan

end SeriesPipeline
