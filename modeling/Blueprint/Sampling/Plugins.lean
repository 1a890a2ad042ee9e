import Blueprint.Registry.Registration
import Blueprint.Sampling.Constructors

/-!
# The standard plugins

Engines, collective variables, volumes and networks of path-sampling setups. An interval refers to a variable, unions
and intersections to other volumes, and a network to volumes by their alias `states`.
-/

namespace Blueprint.Sampling

/-- The label is no business of the constructor: it is taken out, and put on the engine afterwards. -/
def toyBuilder : Builder where
  construct := toyEngine
  path := some toyEnginePath
  remap args := args.erase "label"
  finish engine given :=
    .ok (match (given.get? "label").bind Value.text? with
      | some label => engine.setAttribute "label" (.text label)
      | none => engine)

def toyPlugin : Plugin where
  serial := 0
  tag := "toy"
  category := "engine"
  description := some "Toy engine for small model systems"
  builder := toyBuilder
  parameters := [
    { name := "timestep", loader := .read .float, explicitDescription := some "Integration timestep" },
    { name := "n_steps_per_frame", loader := .read .positiveInteger, default := some (.int 10),
      explicitDescription := some "Integration steps between saved frames" },
    { name := "integrator", loader := .read (.choice ["langevin", "verlet"]), default := some (.text "langevin") },
    { name := "temperature", loader := .read .float, default := some (.float 300),
      explicitDescription := some "Bath temperature" },
    { name := "label", loader := .read .text, default := some .null,
      explicitDescription := some "Free-form label kept on the engine" }]

def coordinatePlugin : Plugin where
  serial := 1
  tag := "coordinate"
  category := "cv"
  aliases := ["position"]
  description := some "One Cartesian coordinate of one atom"
  builder := { construct := coordinate }
  parameters := [
    { name := "atom", loader := .read .integer, default := some (.int 0), explicitDescription := some "Atom index" },
    { name := "axis", loader := .read (.choice ["x", "y", "z"]), default := some (.text "x") }]

def distancePlugin : Plugin where
  serial := 2
  tag := "distance"
  category := "cv"
  description := some "Distance between two atoms"
  builder := { construct := distance }
  parameters := [
    { name := "atoms", loader := .listOf (.read .integer), explicitDescription := some "The two atom indices" }]

/-- The bounds are called `min` and `max` in a description. -/
def intervalBuilder : Builder where
  construct := interval
  remap args := Arguments.rename (Arguments.rename args "min" "lambda_min") "max" "lambda_max"

def intervalPlugin : Plugin where
  serial := 3
  tag := "interval"
  category := "volume"
  aliases := ["range"]
  description := some "Values of one collective variable between two bounds"
  builder := intervalBuilder
  parameters := [
    { name := "cv", loader := .category "cv" },
    { name := "min", loader := .read .float, explicitDescription := some "Lower bound (inclusive)" },
    { name := "max", loader := .read .float, explicitDescription := some "Upper bound (exclusive)" }]

def combinationPlugin (serial : Nat) (combine : Combine) (description : String) : Plugin where
  serial
  tag := combine.tag
  category := "volume"
  description := some description
  builder := { construct := combination combine }
  parameters := [
    { name := "volumes", loader := .listOf (.category "volume"), explicitDescription := some "Volumes to combine" }]

def unionPlugin : Plugin := combinationPlugin 4 .union "Points in any of the given volumes"

def intersectionPlugin : Plugin := combinationPlugin 5 .intersection "Points in all of the given volumes"

def tpsPlugin : Plugin where
  serial := 6
  tag := "tps"
  category := "network"
  description := some "Transition path sampling between initial and final states"
  builder := { construct := transitions }
  parameters := [
    { name := "initial_states", loader := .listOf (.category "states") },
    { name := "final_states", loader := .listOf (.category "states") }]

def declarations : List CategoryDeclaration := [
  { name := "engine", aliases := ["engines"], description := some "Dynamics engines" },
  { name := "cv", aliases := ["cvs", "collective-variable"], description := some "Collective variables" },
  { name := "volume", aliases := ["volumes", "state", "states"],
    description := some "Regions of collective-variable space" },
  { name := "network", aliases := ["networks"], description := some "Transition networks between states" }]

def plugins : List Plugin :=
  [toyPlugin, coordinatePlugin, distancePlugin, intervalPlugin, unionPlugin, intersectionPlugin, tpsPlugin]

def registrations : List Registration := declarations.map .category ++ plugins.map .plugin

/-- A registry with the standard plugins; registering them from nothing meets no conflict. -/
def standardRegistry : Registry := (Registry.registerAll registrations Registry.empty).2

end Blueprint.Sampling
