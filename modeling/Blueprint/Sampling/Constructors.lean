import Blueprint.Plugin.Builder

/-!
# Constructors of sampling setups

Each constructor takes its typed arguments, checks what no single parameter can check, and makes one part of a setup.
-/

namespace Blueprint.Sampling

/-- An engine; its timestep has to be positive. -/
def toyEngine : Constructor := fun _ args => do
  let timestep ← args.float "timestep"
  let stepsPerFrame ← args.int "n_steps_per_frame"
  let integrator ← args.text "integrator"
  let temperature ← args.float "temperature"
  if timestep ≤ 0 then
    let got := Decimal.message.render timestep
    .error (.invalid s!"timestep must be positive, got {got}")
  else .ok { kind := "toy", payload := .toyEngine { timestep, stepsPerFrame, integrator, temperature } }

def coordinate : Constructor := fun _ args => do
  let atom ← args.int "atom"
  let axis ← args.text "axis"
  return { kind := "coordinate", payload := .coordinate { atom, axis } }

/-- A distance; of the listed atoms the integers count, and there have to be two. -/
def distance : Constructor := fun _ args => do
  let atoms := (← args.list "atoms").filterMap Value.int?
  match atoms with
  | [first, second] => .ok { kind := "distance", payload := .distance { first, second } }
  | _ =>
    let count := atoms.length
    .error (.invalid s!"distance needs two atoms, got {count}")

/-- An interval; its bounds must not be reversed. -/
def interval : Constructor := fun _ args => do
  let quantity ← args.object "cv"
  let lower ← args.float "lambda_min"
  let upper ← args.float "lambda_max"
  if lower > upper then
    let low := Decimal.message.render lower
    let high := Decimal.message.render upper
    .error (.invalid s!"interval bounds are reversed: min {low} > max {high}")
  else .ok { kind := "interval", payload := .interval { quantity, lower, upper } }

/-- A union or an intersection of at least one volume. -/
def combination (combine : Combine) : Constructor := fun _ args => do
  let volumes ← args.objects "volumes"
  if volumes.isEmpty then .error (.invalid s!"{combine.tag} of no volumes")
  else .ok { kind := combine.tag, payload := .combination { combine, volumes } }

/-- A network; no state may be both initial and final. -/
def transitions : Constructor := fun store args => do
  let initial ← args.objects "initial_states"
  let final ← args.objects "final_states"
  match initial.find? final.contains with
  | some state =>
    let shown := store.display state
    .error (.invalid s!"state {shown} is both initial and final")
  | none => .ok { kind := "tps", payload := .transitions { initial, final } }

/-- The path that the engine constructor is registered under. -/
def toyEnginePath : String := "sampling.engines.ToyEngine"

/-- The constructors that plugins may refer to by path. -/
def constructors : Constructors := Dict.empty.insert toyEnginePath toyEngine

end Blueprint.Sampling
