import SeriesPipeline.Blueprint.Basic
import SeriesPipeline.Blueprint.Settings

/-!
# What a blueprint has to satisfy

The checks run from the pipeline's name over ids, edges and single nodes to outputs, and the first
one that fails is reported.
-/

namespace SeriesPipeline

inductive GraphFault where
  | unnamed
  | noNodes (pipeline : String)
  | blankId
  | slashInId (id : String)
  | duplicateId (id : String)
  | selfLoop (id : String)
  | unknownInput (id input : String)
  | repeatedInput (id input : String)
  | sourceWithInputs (id : String) (n : Nat)
  | tooFewInputs (kind id : String) (n : Nat)
  | notOneInput (kind id : String) (n : Nat)
  | zeroSourcePeriod (id : String)
  | groupingWithoutPeriod (id : String)
  | zeroBucket (id : String)
  | zeroWindowPeriod (id : String)
  | zeroEvery (id : String)
  | aliasCount (id : String) (aliases inputs : Nat)
  | badAliases (id : String)
  | zeroHorizon (id : String)
  | unnamedUnion (id : String)
  | percentile (id : String) (p : Float)
  | noField (id reduction : String)
  | flapping (id : String) (low high : Float)
  | shortHistory (id : String)
  | unnamedCache (id : String)
  | unnamedOutput (id : String)
  | outputFeeds (output reader : String)
  | outputTwice (name : String)
  | cycle (id : String)

def GraphFault.message : GraphFault → String
  | .unnamed => "pipeline name must not be empty"
  | .noNodes pipeline => "pipeline '" ++ pipeline ++ "' has no nodes"
  | .blankId => "node ids must not be empty"
  | .slashInId id => "node id '" ++ id ++ "' must not contain '/'"
  | .duplicateId id => "duplicate node id '" ++ id ++ "'"
  | .selfLoop id => "node '" ++ id ++ "' cannot read from itself"
  | .unknownInput id input => "node '" ++ id ++ "' reads from unknown node '" ++ input ++ "'"
  | .repeatedInput id input => "node '" ++ id ++ "' lists input '" ++ input ++ "' more than once"
  | .sourceWithInputs id n => "source '" ++ id ++ "' cannot have inputs (got " ++ toString n ++ ")"
  | .tooFewInputs kind id n =>
    kind ++ " '" ++ id ++ "' needs at least two inputs (got " ++ toString n ++ ")"
  | .notOneInput kind id n =>
    kind ++ " '" ++ id ++ "' needs exactly one input (got " ++ toString n ++ ")"
  | .zeroSourcePeriod id => "source '" ++ id ++ "' has a zero period"
  | .groupingWithoutPeriod id => "source '" ++ id ++ "' sets group_by without a period"
  | .zeroBucket id => "node '" ++ id ++ "' has a zero time bucket"
  | .zeroWindowPeriod id => "window '" ++ id ++ "' has a zero period"
  | .zeroEvery id => "window '" ++ id ++ "' has a zero `every`"
  | .aliasCount id aliases inputs =>
    "join '" ++ id ++ "' has " ++ toString aliases ++ " aliases for " ++ toString inputs
      ++ " inputs"
  | .badAliases id => "join '" ++ id ++ "' aliases must be non-empty and unique"
  | .zeroHorizon id => "join '" ++ id ++ "' horizon must be >= 1"
  | .unnamedUnion id => "union '" ++ id ++ "' has an empty name"
  | .percentile id p =>
    "map_reduce '" ++ id ++ "' percentile must be within 0..=100 (got "
      ++ Value.messageLayout.text p ++ ")"
  | .noField id reduction => "map_reduce '" ++ id ++ "' needs a `field` for " ++ reduction
  | .flapping id low high =>
    "alert '" ++ id ++ "' flapping thresholds must satisfy 0 <= low <= high <= 100 (got "
      ++ Value.messageLayout.text low ++ ", " ++ Value.messageLayout.text high ++ ")"
  | .shortHistory id => "alert '" ++ id ++ "' history must be >= 2"
  | .unnamedCache id => "cache '" ++ id ++ "' has an empty name"
  | .unnamedOutput id => "output '" ++ id ++ "' has an empty name"
  | .outputFeeds output reader => "output '" ++ output ++ "' cannot feed '" ++ reader ++ "'"
  | .outputTwice name => "output name '" ++ name ++ "' is used twice"
  | .cycle id => "cycle detected in pipeline graph involving node '" ++ id ++ "'"

namespace Blueprint

abbrev Checked := Except GraphFault Unit

/-- Fails when the condition holds. -/
def refuse (bad : Bool) (fault : GraphFault) : Checked :=
  if bad then .error fault else .ok ()

def checkName (b : Blueprint) : Checked := do
  refuse (Text.isBlankText b.name) .unnamed
  refuse b.nodes.isEmpty (.noNodes b.name)

/-- Ids are not blank, hold no slash and differ from those before them. -/
def checkIds : List String → List Node → Checked
  | _, [] => .ok ()
  | seen, n :: rest => do
    refuse (Text.isBlankText n.id) .blankId
    refuse (n.id.toList.contains '/') (.slashInId n.id)
    refuse (seen.contains n.id) (.duplicateId n.id)
    checkIds (n.id :: seen) rest

/-- Inputs are other nodes of the blueprint, each listed once. -/
def checkInputs (b : Blueprint) (id : String) : List String → List String → Checked
  | _, [] => .ok ()
  | seen, input :: rest => do
    refuse (input = id) (.selfLoop id)
    refuse (b.node? input).isNone (.unknownInput id input)
    refuse (seen.contains input) (.repeatedInput id input)
    checkInputs b id (input :: seen) rest

def checkEdges (b : Blueprint) : Checked := b.nodes.forM fun n => checkInputs b n.id [] n.inputs

def checkArity (n : Node) : Checked :=
  let count := n.inputs.length
  match n.kind with
  | .source _ => refuse (count ≠ 0) (.sourceWithInputs n.id count)
  | .join _ | .union _ => refuse (count < 2) (.tooFewInputs n.kind.name n.id count)
  | _ => refuse (count ≠ 1) (.notOneInput n.kind.name n.id count)

def checkGrouping (id : String) (g : Grouping) : Checked :=
  refuse (g.bucket.any Span.isZero) (.zeroBucket id)

/-- Aliases are not empty and differ from those before them. -/
def checkAliases (id : String) : List String → List String → Checked
  | _, [] => .ok ()
  | seen, a :: rest => do
    refuse (a.isEmpty || seen.contains a) (.badAliases id)
    checkAliases id (a :: seen) rest

def checkParameters (n : Node) : Checked :=
  match n.kind with
  | .source s => do
    refuse (s.period.any Span.isZero) (.zeroSourcePeriod n.id)
    refuse (s.period.isNone && !s.grouping.isEmpty) (.groupingWithoutPeriod n.id)
    checkGrouping n.id s.grouping
  | .window w => do
    refuse w.period.isZero (.zeroWindowPeriod n.id)
    refuse (w.every?.any Span.isZero) (.zeroEvery n.id)
    checkGrouping n.id w.grouping
  | .join j => do
    refuse (j.aliases.length ≠ n.inputs.length)
      (.aliasCount n.id j.aliases.length n.inputs.length)
    checkAliases n.id [] j.aliases
    refuse (j.horizon = some 0) (.zeroHorizon n.id)
  | .union u => refuse (u.name.any String.isEmpty) (.unnamedUnion n.id)
  | .reduce r => do
    match r.reduce with
    | .percentile p => refuse (!(0.0 ≤ p && p ≤ 100.0)) (.percentile n.id p)
    | _ => .ok ()
    match r.map with
    | .identity => refuse r.field.isNone (.noField n.id r.reduce.name)
    | _ => .ok ()
  | .alert a => do
    match a.flapping with
    | some f =>
      refuse (!(0.0 ≤ f.low && f.low ≤ f.high && f.high ≤ 100.0)) (.flapping n.id f.low f.high)
    | none => .ok ()
    refuse (a.history.any (· < 2)) (.shortHistory n.id)
  | .cache c => refuse (c.name.any String.isEmpty) (.unnamedCache n.id)
  | .output o => refuse o.name.isEmpty (.unnamedOutput n.id)

def checkNode (n : Node) : Checked := do
  checkArity n
  checkParameters n

def isOutput (b : Blueprint) (id : String) : Bool :=
  (b.node? id).any fun n => n.kind.isOutput

def checkFeeds (b : Blueprint) : Checked :=
  b.edges.forM fun (input, reader) => refuse (b.isOutput input) (.outputFeeds input reader)

/-- Names differ from those before them. -/
def checkOutputNames : List String → List String → Checked
  | _, [] => .ok ()
  | seen, name :: rest => do
    refuse (seen.contains name) (.outputTwice name)
    checkOutputNames (name :: seen) rest

/-- All checks but the one for cycles. -/
def check (b : Blueprint) : Checked := do
  b.checkName
  checkIds [] b.nodes
  b.checkEdges
  b.nodes.forM checkNode
  b.checkFeeds
  checkOutputNames [] b.outputNames

end Blueprint

end SeriesPipeline
