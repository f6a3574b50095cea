import SeriesPipeline.Data.Series

/-!
# The result cache

For every output name and group the cache keeps the batch published last.
-/

namespace SeriesPipeline

structure ResultCache where
  outputs : SortedMap String (SortedMap SeriesKey Batch)
  deriving Inhabited

namespace ResultCache

def empty : ResultCache := ⟨∅⟩

def publish (c : ResultCache) (output : String) (b : Batch) : ResultCache :=
  ⟨c.outputs.insert output (((c.outputs.get? output).getD ∅).insert b.key b)⟩

/-- The groups of an output in order, none if nothing was published under the name. -/
def get? (c : ResultCache) (output : String) : Option Document :=
  (c.outputs.get? output).map fun groups => Document.ofBatches groups.values

def names (c : ResultCache) : List String := c.outputs.keys

end ResultCache

end SeriesPipeline
