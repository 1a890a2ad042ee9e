import Blueprint.Value

/-!
# Parts of a path-sampling setup

What the constructors of the standard plugins make: engines, collective variables, volumes and networks. Parts refer to
one another by handle.
-/

namespace Blueprint

structure ToyEngine where
  timestep : Float
  stepsPerFrame : Int
  integrator : String
  temperature : Float

structure Coordinate where
  atom : Int
  axis : String

structure Distance where
  first : Int
  second : Int

/-- The region `lower ≤ quantity < upper`. -/
structure Interval where
  quantity : Handle
  lower : Float
  upper : Float

inductive Combine where
  | union
  | intersection
deriving DecidableEq, Repr

def Combine.tag : Combine → String
  | .union => "union"
  | .intersection => "intersection"

structure Combination where
  combine : Combine
  volumes : List Handle

/-- Transitions from any initial to any final state. -/
structure Transitions where
  initial : List Handle
  final : List Handle

def Transitions.count (t : Transitions) : Nat := t.initial.length * t.final.length

end Blueprint
