import SeriesPipeline.Data.Batch
import SeriesPipeline.Text.Quoted

/-!
# Grouping of rows

A grouping lists the tags that make up the key of a group and, optionally, the length of time
buckets. Without tags a group keeps all of its batch's tags.
-/

namespace SeriesPipeline

structure Grouping where
  bucket : Option Span
  dimensions : List String
  deriving DecidableEq, Inhabited

namespace Grouping

inductive Fault where
  | bucket (cause : Span.Error)
  | secondBucket (term : String)
  | emptyDimension

def Fault.message : Fault → String
  | .bucket cause => cause.message
  | .secondBucket term => "group_by lists more than one time bucket ('" ++ term ++ "')"
  | .emptyDimension => "group_by contains an empty dimension"

/-- What stands between `opening` and a final closing parenthesis. -/
def enclosed? (opening : String) (term : List Char) : Option (List Char) :=
  if opening.toList.isPrefixOf term then
    match (term.drop opening.length).reverse with
    | ')' :: inner => some inner.reverse
    | _ => none
  else none

/-- Adds one term, such as `time(2s)` or the name of a tag. -/
def addTerm (g : Grouping) (term : String) : Except Fault Grouping :=
  let cs := Text.trimList term.toList
  match enclosed? "time(" cs with
  | some inner =>
    if g.bucket.isSome then .error (.secondBucket (String.ofList cs))
    else match Span.parse (String.ofList inner) with
      | .ok d => .ok { g with bucket := some d }
      | .error cause => .error (.bucket cause)
  | none =>
    if cs.isEmpty then .error .emptyDimension
    else .ok { g with dimensions := g.dimensions ++ [String.ofList cs] }

def empty : Grouping := ⟨none, []⟩

def ofTerms (terms : List String) : Except Fault Grouping := terms.foldlM addTerm empty

def isEmpty (g : Grouping) : Bool := g.bucket.isNone && g.dimensions.isEmpty

def text (g : Grouping) : String :=
  let bucket := match g.bucket with
    | some d => ["time(" ++ d.text ++ ")"]
    | none => []
  "[" ++ ", ".intercalate (bucket ++ g.dimensions.map Text.quoted) ++ "]"

end Grouping

/-- The listed tags; all of them when none is listed. -/
def projectTags (tags : Tags) (dimensions : List String) : Tags :=
  if dimensions.isEmpty then tags else tags.filter fun k _ => dimensions.contains k

def Grouping.keyFor (g : Grouping) (b : Batch) : SeriesKey :=
  ⟨b.name, projectTags b.tags g.dimensions⟩

end SeriesPipeline
