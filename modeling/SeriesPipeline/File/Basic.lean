import SeriesPipeline.File.Section
import SeriesPipeline.Plan.Basic

/-!
# Pipeline files

A file is valid when every section has the keys of its kind and the blueprint made of the sections
has a plan. Sections are looked at in order of their ids, and the first fault is reported.
-/

namespace SeriesPipeline

structure PipelineFile where
  settings : Settings
  blueprint : Blueprint

inductive FileFault where
  | blankName
  | noNodes
  | foreignKey (id : String) (kind : SectionKind) (key : String)
  | missingKey (id key : String)
  | span (cause : Span.Error)
  | grouping (cause : Grouping.Fault)
  | reduction (cause : Reduction.Fault)
  | formula (id key : String) (cause : ExprFault)
  | mapAndFormula (id : String)
  | unknownMap (id map : String)
  | noReduction (id : String)
  | plan (cause : PlanFault)

namespace FileFault

/-- What is wrong, for a fault of the file itself. -/
def detail : FileFault → String
  | .blankName => "pipeline `name` must not be empty"
  | .noNodes => "pipeline must contain at least one [node.<id>] section"
  | .foreignKey id kind key =>
    "node '" ++ id ++ "' of kind " ++ kind.title ++ " does not accept `" ++ key ++ "`"
  | .missingKey id key => "node '" ++ id ++ "' is missing required `" ++ key ++ "`"
  | .span cause => cause.message
  | .grouping cause => cause.message
  | .reduction cause => cause.message
  | .formula id key cause =>
    "node '" ++ id ++ "' has an invalid `" ++ key ++ "` expression: " ++ cause.message
  | .mapAndFormula id => "node '" ++ id ++ "' sets both `map` and `expr`"
  | .unknownMap id map => "node '" ++ id ++ "' has unknown map function '" ++ map ++ "'"
  | .noReduction id => "node '" ++ id ++ "' needs `reduce` (or `map = \"count\"` / `expr`)"
  | .plan cause => cause.message

def message : FileFault → String
  | .plan cause => cause.message
  | fault => "Configuration error: " ++ fault.detail

end FileFault

namespace NodeSection

abbrev Checked := Except FileFault

def checkKeys (s : NodeSection) (id : String) : Checked Unit :=
  match s.keys.find? fun key => !s.kind.allowedKeys.contains key with
  | some key => .error (.foreignKey id s.kind key)
  | none => .ok ()

def required (id key : String) : Option String → Checked String
  | some text => .ok text
  | none => .error (.missingKey id key)

def span (text : String) : Checked Span := (Span.parse text).mapError .span

def span? : Option String → Checked (Option Span)
  | some text => (span text).map some
  | none => .ok none

def grouping : Option (List String) → Checked Grouping
  | some terms => (Grouping.ofTerms terms).mapError .grouping
  | none => .ok .empty

def formula (id key text : String) : Checked Formula :=
  (Formula.parse text).mapError (.formula id key)

def formula? (id key : String) : Option String → Checked (Option Formula)
  | some text => (formula id key text).map some
  | none => .ok none

def mapping (s : NodeSection) (id : String) : Checked Mapping :=
  match s.map, s.expr with
  | some _, some _ => .error (.mapAndFormula id)
  | none, some text => (formula id "expr" text).map .formula
  | some "count", none => .ok .count
  | some "identity", none => .ok .identity
  | none, none => .ok .identity
  | some other, none => .error (.unknownMap id other)

/-- The reduction; counts are added up and formulas stand alone when none is given. -/
def reduction (s : NodeSection) (id : String) (map : Mapping) : Checked Reduction :=
  match s.reduce, map with
  | some text, _ => (Reduction.parse text).mapError .reduction
  | none, .count => .ok .sum
  | none, .formula _ => .ok .identity
  | none, .identity => .error (.noReduction id)

def nodeKind (s : NodeSection) (id : String) : Checked NodeKind := do
  match s.kind with
  | .source =>
    let period ← span? s.period
    let groups ← grouping s.groupBy
    let filter ← formula? id "where" s.filter
    return .source ⟨s.measurement, s.query, period, groups, filter⟩
  | .window =>
    let period ← span (← required id "period" s.period)
    let every ← span? s.every
    let groups ← grouping s.groupBy
    return .window ⟨period, every, groups⟩
  | .join =>
    return .join ⟨s.aliases.getD [], s.on.getD [], s.rename.getD ∅, s.name, s.horizon⟩
  | .union => return .union ⟨s.name⟩
  | .mapReduce =>
    let map ← s.mapping id
    let reduce ← s.reduction id map
    return .reduce ⟨map, reduce, s.field, s.column⟩
  | .alert =>
    let predicate ← formula id "predicate" (← required id "predicate" s.predicate)
    return .alert ⟨predicate, s.flapping, s.history, s.post⟩
  | .cache => return .cache ⟨s.name⟩
  | .output => return .output ⟨← required id "name" s.name⟩

def node (s : NodeSection) (id : String) : Checked Node := do
  s.checkKeys id
  return ⟨id, ← s.nodeKind id, s.inputs⟩

end NodeSection

def PipelineFile.ofSections (f : FileSections) : Except FileFault PipelineFile := do
  if Text.isBlankText f.name then .error .blankName
  else if f.nodes.isEmpty then .error .noNodes
  else
    f.settings.check.mapError fun cause => .plan (.settings cause)
    let nodes ← f.nodes.toList.mapM fun (id, s) => s.node id
    let blueprint : Blueprint := ⟨f.name, nodes⟩
    match Plan.ofBlueprint blueprint f.settings with
    | .error cause => .error (.plan cause)
    | .ok _ => return ⟨f.settings, blueprint⟩

end SeriesPipeline
