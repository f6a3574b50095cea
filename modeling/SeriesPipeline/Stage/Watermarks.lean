import SeriesPipeline.Time.Instant

/-!
# Watermarks

A stage reads from several ports, and each port promises by its barriers that nothing earlier will
follow. The watermark is what all open ports promise together; when every port has closed, it is the
highest barrier of any.
-/

namespace SeriesPipeline

structure Port where
  /-- The highest barrier so far. -/
  mark : Option Instant
  isOpen : Bool

structure Watermarks where
  ports : List Port
  /-- The last watermark given out. -/
  emitted : Option Instant

namespace Watermarks

def new (ports : Nat) : Watermarks := ⟨List.replicate ports ⟨none, true⟩, none⟩

def isOpen (w : Watermarks) (port : Nat) : Bool := (w.ports[port]?).any (·.isOpen)

def allClosed (w : Watermarks) : Bool := w.ports.all (!·.isOpen)

/-- The least of some marks, if all of them are there. -/
def least? : List (Option Instant) → Option Instant
  | [] => none
  | [mark] => mark
  | mark :: rest => do return min (← mark) (← least? rest)

/-- The greatest of the marks that are there. -/
def greatest? (marks : List (Option Instant)) : Option Instant := marks.reduceOption.max?

def combined (w : Watermarks) : Option Instant :=
  let opened := w.ports.filter (·.isOpen)
  if opened.isEmpty then greatest? (w.ports.map (·.mark)) else least? (opened.map (·.mark))

/-- Gives out the watermark if it has grown. -/
def advance (w : Watermarks) : Watermarks × Option Instant :=
  match w.combined with
  | none => (w, none)
  | some t =>
    if w.emitted.all (· < t) then ({ w with emitted := some t }, some t) else (w, none)

def Port.observe (p : Port) (t : Instant) : Port :=
  { p with mark := some (match p.mark with
    | some m => max m t
    | none => t) }

def observe (w : Watermarks) (port : Nat) (t : Instant) : Watermarks × Option Instant :=
  { w with ports := w.ports.modify port (Port.observe · t) }.advance

def close (w : Watermarks) (port : Nat) : Watermarks × Option Instant :=
  { w with ports := w.ports.modify port ({ · with isOpen := false }) }.advance

end Watermarks

end SeriesPipeline
