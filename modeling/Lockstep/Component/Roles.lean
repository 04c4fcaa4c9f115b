import Lockstep.Component.Candidates
import Lockstep.Component.Traced
import Lockstep.Component.Tree

/-!
# The roles of components

An algorithm proposes candidates and learns from their fitness, a problem evaluates candidates, and
a monitor watches a step at the hooks it subscribes to. All of them are pure: what they keep is in
the local state that they are given and give back.
-/

namespace Lockstep

open Lockstep.Random

/-- What an algorithm or a problem is given in a call. -/
structure StepContext where
  node : NodeContext
  generation : UInt64
  lane : Nat
  /-- the random stream of this call -/
  random : Generator

/-- The context of a call: its random stream depends on the key, the generation, the node, the lane
and the stage, so that all calls draw independently. -/
def StepContext.new (node : NodeContext) (key : Key) (generation : UInt64) (lane : Nat)
    (stage : UInt64) : StepContext :=
  { node, generation, lane
    random := (((key.fold generation).fold (.ofNat node.id)).fold (.ofNat lane)).generator stage }

/-- The random streams of the stages of a step. -/
def askStream : UInt64 := 1

def evaluateStream : UInt64 := 2

def tellStream : UInt64 := 3

/-- Proposes candidates and learns from their fitness. -/
structure Algorithm where
  component : Component
  ask : StepContext → LocalState → Outcome (Candidates × LocalState)
  tell : StepContext → LocalState → Tensor → Outcome LocalState
  /-- the count of candidates in a batch, if it is fixed -/
  popSize : Option Nat

/-- Evaluates candidates: one number or one row of numbers for each. -/
structure Problem where
  component : Component
  spec : InputSpec
  evaluate : StepContext → LocalState → Candidates → Traced (Tensor × LocalState)

/-- A hook with what is shown to monitors there. -/
inductive HookCall where
  | setup
  | preAsk
  | postAsk (candidates : Candidates)
  | preEval (candidates : Candidates)
  | postEval (candidates : Candidates) (fitness : Tensor)
  | preTell (fitness : Tensor)
  | postTell

/-- The hook of a call. -/
def HookCall.hook : HookCall → Hook
  | .setup => .setup
  | .preAsk => .preAsk
  | .postAsk _ => .postAsk
  | .preEval _ => .preEval
  | .postEval _ _ => .postEval
  | .preTell _ => .preTell
  | .postTell => .postTell

/-- What a monitor is given at a hook. -/
structure HookContext where
  node : NodeContext
  /-- the whole snapshot, to look at -/
  state : State
  generation : UInt64
  lane : Nat

/-- Watches a step at some hooks. -/
structure Monitor where
  component : Component
  hooks : HookSet
  /-- the monitor's new local state, if it changes -/
  observe : HookContext → LocalState → HookCall → Traced (Option LocalState)
  /-- whether there is a metric -/
  providesMetric : Bool
  /-- the metric in a local state, if there is one -/
  metric : LocalState → Outcome (Option Tensor)

/-- A map from an algorithm's candidates to a problem's input. -/
abbrev SolutionTransform := Candidates → Outcome Candidates

end Lockstep
