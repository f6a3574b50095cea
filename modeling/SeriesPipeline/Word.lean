/-!
# Words

Integers of 64 bits, and the exact integers they stand for. `signedWord?` undoes `Int64.toInt`.
-/

namespace SeriesPipeline

/-- The signed word that stands for `n`, if there is one. -/
def signedWord? (n : Int) : Option Int64 :=
  if h : Int64.minValue.toInt ≤ n ∧ n ≤ Int64.maxValue.toInt then some (Int64.ofIntLE n h.1 h.2)
  else none

theorem signedWord?_toInt (w : Int64) : signedWord? w.toInt = some w := by
  rw [signedWord?, dif_pos ⟨w.minValue_le_toInt, w.toInt_le⟩, Int64.ofIntLE_toInt]

theorem toInt_of_signedWord? {n : Int} {w : Int64} (h : signedWord? n = some w) : w.toInt = n := by
  unfold signedWord? at h
  split at h
  · cases h
    exact Int64.toInt_ofIntLE
  · simp at h

/-- Whether an unsigned word stands for `n`. -/
def isUnsignedWord (n : Int) : Bool := 0 ≤ n && n < UInt64.size

end SeriesPipeline
