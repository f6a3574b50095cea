/-!
# Arguments of the command line

Options are long; a value follows as the next argument or after an equals sign, and an option is
given at most once. An argument that starts with a hyphen is not taken for a value. An option's
value is looked at when the next option comes or at the end, so an unknown argument in between is
reported before a bad value.
-/

namespace SeriesPipeline

inductive LogLevel where
  | error
  | warn
  | info
  | debug
  | trace
  deriving DecidableEq

def LogLevel.ofText? : String → Option LogLevel
  | "error" => some .error
  | "warn" => some .warn
  | "info" => some .info
  | "debug" => some .debug
  | "trace" => some .trace
  | _ => none

structure Arguments where
  pipeline : String
  replay : Option String
  until? : Option String
  output : Option String
  logLevel : Option LogLevel
  dryRun : Bool

namespace Arguments

/-- The options that take a value. -/
inductive Key where
  | pipeline
  | replay
  | until
  | output
  | logLevel
  deriving DecidableEq

def Key.ofText? : String → Option Key
  | "pipeline" => some .pipeline
  | "replay" => some .replay
  | "until" => some .until
  | "output" => some .output
  | "log-level" => some .logLevel
  | _ => none

def Key.name : Key → String
  | .pipeline => "--pipeline"
  | .replay => "--replay"
  | .until => "--until"
  | .output => "--output"
  | .logLevel => "--log-level"

/-- Why arguments are not run with. -/
inductive Refusal where
  | help
  | version
  | unknown (argument : String)
  | noValue (key : Key)
  | badValue (key : Key) (value : String)
  | repeated (option : String)
  | needlessValue (option : String)
  | untilWithoutReplay

def Refusal.message : Refusal → String
  | .help => "usage: batchflow [--pipeline PATH] [--replay PATH [--until DURATION]] [--output NAME]"
      ++ " [--log-level LEVEL] [--dry-run]"
  | .version => "batchflow 0.1.0"
  | .unknown argument => "unexpected argument '" ++ argument ++ "'"
  | .noValue key => "a value is required for '" ++ key.name ++ "'"
  | .badValue key value => "invalid value '" ++ value ++ "' for '" ++ key.name ++ "'"
  | .repeated option => "the argument '" ++ option ++ "' cannot be used multiple times"
  | .needlessValue option => "the argument '" ++ option ++ "' takes no value"
  | .untilWithoutReplay => "'--until' requires '--replay'"

/-- What has been read. -/
structure Reading where
  values : List (Key × String)
  dryRun : Bool
  /-- An option whose value has not been looked at, or has not even come. -/
  pending : Option (Key × Option String)

namespace Reading

def value? (r : Reading) (key : Key) : Option String :=
  (r.values.find? (·.1 = key)).map (·.2)

def isGood (key : Key) (value : String) : Bool :=
  match key with
  | .logLevel => (LogLevel.ofText? value).isSome
  | _ => true

/-- Takes up the option that is pending. -/
def resolve (r : Reading) : Except Refusal Reading :=
  match r.pending with
  | none => .ok r
  | some (key, none) => .error (.noValue key)
  | some (key, some value) =>
    if (r.value? key).isSome then .error (.repeated key.name)
    else if !isGood key value then .error (.badValue key value)
    else .ok { r with values := r.values ++ [(key, value)], pending := none }

def setDryRun (r : Reading) : Except Refusal Reading :=
  if r.dryRun then .error (.repeated "--dry-run") else .ok { r with dryRun := true }

/-- An option of the given name, with what stands after its equals sign. -/
def takeOption (r : Reading) (name : String) (value : Option String) : Except Refusal Reading :=
  match Key.ofText? name with
  | some key => do
    let r ← r.resolve
    let r := { r with pending := some (key, value) }
    if value.isSome then r.resolve else return r
  | none =>
    match name, value with
    | "dry-run", none => do (← r.resolve).setDryRun
    | "help", none => do
      let _ ← r.resolve
      .error .help
    | "version", none => do
      let _ ← r.resolve
      .error .version
    | "dry-run", some _ => .error (.needlessValue "--dry-run")
    | "help", some _ => .error (.needlessValue "--help")
    | "version", some _ => .error (.needlessValue "--version")
    | _, _ => .error (.unknown ("--" ++ name))

def takeFlag (r : Reading) (c : Char) : Except Refusal Reading := do
  if c = 'h' then
    let _ ← r.resolve
    .error .help
  else if c = 'V' then
    let _ ← r.resolve
    .error .version
  else .error (.unknown (String.ofList ['-', c]))

/-- A word is a value for the option before it, and nothing else. -/
def takeWord (r : Reading) (word : String) : Except Refusal Reading :=
  match r.pending with
  | some (key, none) => .ok { r with pending := some (key, some word) }
  | _ => .error (.unknown word)

/-- The name and the value of an option without its hyphens. -/
def splitOption (cs : List Char) : String × Option String :=
  match cs.span (· ≠ '=') with
  | (name, _ :: value) => (String.ofList name, some (String.ofList value))
  | (name, []) => (String.ofList name, none)

/-- After two hyphens alone only words could follow, and there are none to take. -/
def takeAll (r : Reading) : List String → Except Refusal Reading
  | [] => r.resolve
  | argument :: rest =>
    match argument.toList with
    | ['-', '-'] =>
      match rest with
      | [] => r.resolve
      | word :: _ => .error (.unknown word)
    | '-' :: '-' :: cs => do
      let (name, value) := splitOption cs
      takeAll (← r.takeOption name value) rest
    | '-' :: c :: _ => do takeAll (← r.takeFlag c) rest
    | _ => do takeAll (← r.takeWord argument) rest

end Reading

def parse (arguments : List String) : Except Refusal Arguments := do
  let r ← Reading.takeAll ⟨[], false, none⟩ arguments
  if (r.value? .until).isSome && (r.value? .replay).isNone then .error .untilWithoutReplay
  else return {
    pipeline := (r.value? .pipeline).getD "pipeline.toml"
    replay := r.value? .replay
    until? := r.value? .until
    output := r.value? .output
    logLevel := (r.value? .logLevel).bind LogLevel.ofText?
    dryRun := r.dryRun }

end Arguments

end SeriesPipeline
