import SeriesPipeline.Plan.Basic

/-!
# The listing of a plan

One line per stage with its number, id, kind, inputs and parameters, and a last line of outputs.
-/

namespace SeriesPipeline

open Value (messageLayout)

/-- The parameters of a node, empty when there are none to show. -/
def NodeKind.summary : NodeKind → String
  | .source s =>
    let measurement := (s.measurement.map ("measurement=" ++ ·)).toList
    let filter := (s.filter.map ("where=" ++ ·.source)).toList
    " ".intercalate (measurement ++ filter)
  | .window w =>
    "period=" ++ w.period.text ++ " every=" ++ w.every.text ++ " group_by=" ++ w.grouping.text
  | .join j => "as=" ++ Text.quotedList j.aliases ++ " on=" ++ Text.quotedList j.on
  | .reduce r => "map=" ++ r.map.name ++ " reduce=" ++ r.reduce.name ++ " -> " ++ r.column
  | .alert a =>
    let bounds := match a.flapping with
      | some f =>
        " flapping=(" ++ messageLayout.text f.low ++ ", " ++ messageLayout.text f.high ++ ")"
      | none => ""
    "when=" ++ a.predicate.source ++ bounds
  | .union _ | .cache _ | .output _ => ""

namespace Plan

def numberText (i : Nat) : String := if i < 10 then " " ++ toString i else toString i

def stageLine (stages : List PlannedStage) (i : Nat) (s : PlannedStage) : String :=
  let inputs := s.inputs.map fun u => (stages[u]?.map (·.id)).getD ""
  let sources := if inputs.isEmpty then "" else " <- " ++ ", ".intercalate inputs
  let summary := if s.kind.summary.isEmpty then "" else "  " ++ s.kind.summary
  "  " ++ numberText i ++ ". " ++ s.id ++ " [" ++ s.kind.name ++ "]" ++ sources ++ summary ++ "\n"

def listing (p : Plan) : String :=
  let header := "pipeline '" ++ p.name ++ "' (" ++ toString p.stages.length ++ " stages)\n"
  let lines := p.stages.mapIdx (stageLine p.stages)
  let outputs := if p.outputs.isEmpty then "" else "outputs: " ++ ", ".intercalate p.outputs ++ "\n"
  header ++ String.join lines ++ outputs

end Plan

end SeriesPipeline
