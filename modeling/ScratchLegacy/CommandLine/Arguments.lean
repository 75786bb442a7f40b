import ScratchLegacy.Path

/-!
# Arguments

The command takes the path of a project and, optionally, the path of the
archive to write. Options may stand before, between and behind them; a value
follows its option as the next argument, or behind an equals sign. After `--`
every argument is a path.

A value is not looked at when it is read but when the next option or path
begins, or at the end. So of two mistakes the one that is reported need not
be the one that comes first: an unknown option hides a bad value right before
it.
-/

namespace ScratchLegacy.CommandLine

/-- **The arguments of a conversion.** -/
structure Arguments where
  input : String
  output : Option String := none
  penLayer : Option String := none
  emitJson : Option String := none
  emitIr : Option String := none
  keepUnsupportedSounds : Bool := false
  verbose : Bool := false
deriving DecidableEq, Inhabited

/-- **The path of the archive to write**: the output, or else, unless only
other files are asked for, the input with the legacy extension. -/
def Arguments.archivePath? (a : Arguments) : Option String :=
  match a.output with
  | some path => some path
  | none =>
    if a.emitJson.isNone && a.emitIr.isNone then some (Path.withExtension a.input "sb2")
    else none

/-- **Why arguments are refused.** -/
inductive UsageError where
  /-- An option that is not known, or a path too many. -/
  | unknown
  | missingInput
  | missingValue
  | emptyValue
  /-- An option occurs twice. -/
  | repeated
  /-- An option that takes no value has one. -/
  | unexpectedValue
  /-- The help is asked for. -/
  | help
deriving DecidableEq, Inhabited

/-- **What a value is for.** -/
inductive Place where
  | input
  | output
  | penLayer
  | emitJson
  | emitIr
deriving DecidableEq, Inhabited

/-- **An option without a value.** -/
inductive Flag where
  | keepUnsupportedSounds
  | verbose
  | help
deriving DecidableEq, Inhabited

/-- The place of the value of a long option. -/
def place? (name : String) : Option Place :=
  if name = "pen-layer" then some .penLayer
  else if name = "emit-json" then some .emitJson
  else if name = "emit-ir" then some .emitIr
  else none

/-- The flag of a long option. -/
def flag? (name : String) : Option Flag :=
  if name = "keep-unsupported-sounds" then some .keepUnsupportedSounds
  else if name = "verbose" then some .verbose
  else if name = "help" then some .help
  else none

/-- The flag of a letter. -/
def letterFlag? (letter : Char) : Option Flag :=
  if letter = 'v' then some .verbose else if letter = 'h' then some .help else none

/-- **What was read so far.** -/
structure Reading where
  values : List (Place × String) := []
  flags : List Flag := []
  /-- A place that was begun, with its value once there is one. -/
  pending : Option (Place × Option String) := none
  /-- Whether every further argument is a path. -/
  onlyPaths : Bool := false
deriving DecidableEq, Inhabited

namespace Reading

/-- The value of a place. -/
def value? (r : Reading) (place : Place) : Option String :=
  (r.values.find? (fun v => v.1 = place)).map Prod.snd

/-- Whether a place was begun. -/
def mentions (r : Reading) (place : Place) : Bool :=
  (r.value? place).isSome || r.pending.any (fun p => p.1 = place)

/-- **The pending value, looked at.** -/
def settle (r : Reading) : Except UsageError Reading :=
  match r.pending with
  | none => .ok r
  | some (_, none) => .error .missingValue
  | some (place, some value) =>
    if (r.value? place).isSome then .error .repeated
    else if value = "" then .error .emptyValue
    else .ok { r with values := (place, value) :: r.values, pending := none }

/-- A reading in which a place is begun. -/
def begin (r : Reading) (place : Place) (value : Option String) : Except UsageError Reading :=
  r.settle.map (fun r => { r with pending := some (place, value) })

/-- A reading with a flag raised. -/
def raise (r : Reading) (flag : Flag) : Except UsageError Reading := do
  let r ← r.settle
  if flag = .help then .error .help
  else if flag ∈ r.flags then .error .repeated
  else .ok { r with flags := flag :: r.flags }

/-- A reading with one more path. -/
def path (r : Reading) (value : String) : Except UsageError Reading :=
  if r.mentions .output then .error .unknown
  else r.begin (if r.mentions .input then .output else .input) (some value)

/-- A reading with a long option. -/
def longOption (r : Reading) (body : List Char) : Except UsageError Reading :=
  let name := String.ofList (body.takeWhile (· ≠ '='))
  let value? := (body.dropWhile (· ≠ '=')).tail?.map String.ofList
  match place? name, flag? name, value? with
  | some place, _, some value => do (← r.begin place (some value)).settle
  | some place, _, none => r.begin place none
  | none, some flag, none => r.raise flag
  | none, some _, some _ => .error .unexpectedValue
  | none, none, _ => .error .unknown

/-- A reading with the flags of some letters. -/
def letters (r : Reading) : List Char → Except UsageError Reading
  | [] => .ok r
  | letter :: rest =>
    match letterFlag? letter with
    | none => .error .unknown
    | some flag => do (← r.raise flag).letters rest

/-- **A reading with one more argument.** -/
def step (r : Reading) (argument : String) : Except UsageError Reading :=
  if r.onlyPaths then r.path argument
  else
    match argument.toList with
    | ['-', '-'] => .ok { r with onlyPaths := true }
    | '-' :: '-' :: body => r.longOption body
    | '-' :: letter :: rest => r.letters (letter :: rest)
    | _ =>
      match r.pending with
      | some (place, none) => .ok { r with pending := some (place, some argument) }
      | _ => r.path argument

/-- The arguments that were read. -/
def finish (r : Reading) : Except UsageError Arguments := do
  let r ← r.settle
  match r.value? .input with
  | none => .error .missingInput
  | some input =>
    .ok
      { input := input
        output := r.value? .output
        penLayer := r.value? .penLayer
        emitJson := r.value? .emitJson
        emitIr := r.value? .emitIr
        keepUnsupportedSounds := r.flags.contains .keepUnsupportedSounds
        verbose := r.flags.contains .verbose }

end Reading

/-- **The arguments that a command line gives.** -/
def Arguments.read (arguments : List String) : Except UsageError Arguments := do
  (← arguments.foldlM Reading.step {}).finish

end ScratchLegacy.CommandLine
