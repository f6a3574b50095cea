import SeriesPipeline.Data.Series

/-!
# Batches, one a line

A line ends at a line feed, and a carriage return before it belongs to the ending. Blank lines are
skipped but counted.
-/

namespace SeriesPipeline.Lines

/-- Why a text of lines is no list of batches. -/
inductive Fault where
  | malformed (line : Nat) (cause : SeriesFault)
  /-- A line whose bytes are no text. -/
  | notText

def Fault.message : Fault → String
  | .malformed line cause => cause.messageAt ("line " ++ toString line ++ ": ")
  | .notText => "IO error"

def withoutReturn (line : List Char) : List Char :=
  match line.reverse with
  | '\r' :: rest => rest.reverse
  | _ => line

/-- The lines of a text, the last one without its end. `line` holds what was read of the current
line, last character first. -/
def splitFrom (line : List Char) : List Char → List (List Char)
  | [] => if line.isEmpty then [] else [line.reverse]
  | c :: rest =>
    if c = '\n' then withoutReturn line.reverse :: splitFrom [] rest
    else splitFrom (c :: line) rest

def split (cs : List Char) : List (List Char) := splitFrom [] cs

/-- The batches of the lines from number `i` on. -/
def batchesFrom : Nat → List (Option (List Char)) → Except Fault (List Batch)
  | _, [] => .ok []
  | _, none :: _ => .error .notText
  | i, some line :: rest =>
    if line.all Text.isBlank then batchesFrom (i + 1) rest
    else match Batch.ofLine line with
      | .error cause => .error (.malformed i cause)
      | .ok batch => do
        let batches ← batchesFrom (i + 1) rest
        return batch :: batches

def batchesOfText (cs : List Char) : Except Fault (List Batch) :=
  batchesFrom 1 ((split cs).map some)

/-- Lines of bytes, with their ends. -/
def splitBytesFrom (line : List UInt8) : List UInt8 → List (List UInt8)
  | [] => if line.isEmpty then [] else [line.reverse]
  | b :: rest =>
    if b = 10 then (b :: line).reverse :: splitBytesFrom [] rest
    else splitBytesFrom (b :: line) rest

def decoded? (bytes : List UInt8) : Option (List Char) :=
  (String.fromUTF8? ⟨bytes.toArray⟩).map String.toList

/-- Bytes that are a text are read as that text. Otherwise each line is decoded on its own, and
those before the first bad one are read. -/
def batchesOfBytes (bytes : List UInt8) : Except Fault (List Batch) :=
  match decoded? bytes with
  | some cs => batchesOfText cs
  | none =>
    batchesFrom 1 ((splitBytesFrom [] bytes).map fun line =>
      (decoded? line).map fun cs => (split cs).headD [])

end SeriesPipeline.Lines
