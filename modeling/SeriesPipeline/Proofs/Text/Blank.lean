import Mathlib.Data.List.DropRight
import Mathlib.Data.List.TakeWhile
import SeriesPipeline.Text.Blank
import SeriesPipeline.Text.Numeral

/-!
# Trimming

What trimming leaves of a text is the part between white space in front and white space behind that
has none at its own ends.
-/

namespace SeriesPipeline.Text

variable {cs before core after : List Char} {c : Char}

theorem isBlank_of_isDigit (h : isDigit c = true) : isBlank c = false := by
  obtain ⟨hlow, hhigh⟩ := Char.isDigit_iff_toNat.1 h
  simp only [isBlank]
  grind

theorem trimList_eq (cs : List Char) : trimList cs = (cs.dropWhile isBlank).rdropWhile isBlank := rfl

/-- Trimming takes white space away and nothing else. -/
theorem exists_eq_trimList (cs : List Char) :
    ∃ before after, cs = before ++ trimList cs ++ after ∧ (∀ c ∈ before, isBlank c = true) ∧
      ∀ c ∈ after, isBlank c = true := by
  refine ⟨cs.takeWhile isBlank, (cs.dropWhile isBlank).rtakeWhile isBlank, ?_,
    fun c hc => List.mem_takeWhile_imp hc, fun c hc => List.mem_rtakeWhile_imp hc⟩
  rw [List.append_assoc, trimList_eq, List.rdropWhile_append_rtakeWhile,
    List.takeWhile_append_dropWhile]

/-- White space at the ends is taken away. -/
theorem trimList_append (hbefore : ∀ c ∈ before, isBlank c = true)
    (hafter : ∀ c ∈ after, isBlank c = true) (hhead : ∃ c ∈ core.head?, isBlank c = false)
    (hlast : ∀ c ∈ core.getLast?, isBlank c = false) : trimList (before ++ core ++ after) = core := by
  obtain ⟨c, hc, hblank⟩ := hhead
  have hfront : (before ++ core ++ after).dropWhile isBlank = core ++ after := by
    obtain ⟨rest, rfl⟩ : ∃ rest, core = c :: rest := ⟨_, List.eq_cons_of_mem_head? hc⟩
    rw [List.append_assoc, List.dropWhile_append_of_pos hbefore, List.cons_append,
      List.dropWhile_cons_of_neg (Bool.eq_false_iff.1 hblank)]
  have hback : (core ++ after).rdropWhile isBlank = core.rdropWhile isBlank := by
    rw [List.rdropWhile, List.rdropWhile, List.reverse_append, List.dropWhile_append_of_pos]
    exact fun c hc => hafter c (List.mem_reverse.1 hc)
  rw [trimList_eq, hfront, hback, List.rdropWhile_eq_self_iff]
  intro hne
  exact Bool.eq_false_iff.1 (hlast _ (List.getLast?_eq_some_getLast hne))

end SeriesPipeline.Text
