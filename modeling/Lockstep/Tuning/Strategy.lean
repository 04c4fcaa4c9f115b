import Lockstep.Tuning.Space

/-!
# Search strategies

A strategy suggests settings batch by batch and is told how good they were. Grid search walks once
through all combinations of values, the last parameter running fastest. Random search draws every
value on its own from a seeded stream.
-/

namespace Lockstep

open Lockstep.Random

/-- A source of settings with a memory. -/
structure Strategy (σ : Type) where
  /-- at most the given count of settings; none means that there are no more -/
  suggest : Nat → σ → Except Abort (List Setting × σ)
  /-- takes note of the objective of a setting -/
  report : Setting → Float → σ → σ

/-! ## Grid search -/

/-- Numbers from a lower to an upper bound in equal steps. -/
def spaced (steps : Nat) (low high : Float) : List Float :=
  (List.range steps).map fun i =>
    low + (high - low) * (UInt64.ofNat i).toFloat / (UInt64.ofNat (steps - 1)).toFloat

/-- The values of a range on a grid, with the given count of steps for a continuous one. -/
def ParameterRange.points (steps : Nat) : ParameterRange → List ParameterValue
  | .numbers low high => (spaced steps low high).map .number
  | .integers low high =>
    (List.range (high.toInt - low.toInt + 1).toNat).map fun (i : Nat) =>
      .integer (.ofInt (low.toInt + i))
  | .logarithmic low high => (spaced steps low.log high.log).map fun x => .number x.exp
  | .choice values => values.map .number

/-- Every setting extended by every point of a parameter, in the order of the settings. -/
def extend (steps : Nat) (settings : List Setting) (p : String × ParameterRange) : List Setting :=
  settings.flatMap fun s => (p.2.points steps).map fun v => Table.insert p.1 v s

/-- All combinations of values. A continuous range has at least two steps. Memory is not modelled:
the list has as many settings as there are combinations, however many these are. -/
def SearchSpace.grid (s : SearchSpace) (steps : Nat) : List Setting :=
  s.foldl (extend (max steps 2)) [[]]

/-- A walk over a grid. -/
structure GridSearch where
  /-- how many settings were suggested -/
  cursor : Nat
  settings : List Setting

namespace GridSearch

/-- The start of a walk. -/
def new (space : SearchSpace) (steps : Nat) : GridSearch := ⟨0, space.grid steps⟩

/-- The next settings. The place after them must fit into 64 bits. -/
def suggest (count : Nat) (g : GridSearch) : Except Abort (List Setting × GridSearch) :=
  if g.cursor + count < UInt64.size then
    .ok ((g.settings.drop g.cursor).take count,
      { g with cursor := min (g.cursor + count) g.settings.length })
  else .error .countOverflow

theorem suggest_eq_ok_iff {count : Nat} {g next : GridSearch} {batch : List Setting} :
    g.suggest count = .ok (batch, next) ↔ g.cursor + count < UInt64.size ∧
      batch = (g.settings.drop g.cursor).take count ∧
      next = { g with cursor := min (g.cursor + count) g.settings.length } := by
  rw [suggest]
  split
  · next hfits =>
    rw [Except.ok.injEq, Prod.mk.injEq]
    exact ⟨fun h => ⟨hfits, h.1.symm, h.2.symm⟩, fun h => ⟨h.2.1.symm, h.2.2.symm⟩⟩
  · next hfits => exact ⟨nofun, fun h => absurd h.1 hfits⟩

end GridSearch

/-! ## Random search -/

/-- A draw from a range. -/
def ParameterRange.draw (g : Generator) : ParameterRange → Except Abort (ParameterValue × Generator)
  | .numbers low high => do
    let (x, g) ← g.between low high
    return (.number x, g)
  | .integers low high => do
    let (n, g) ← g.betweenIntegers low high
    return (.integer n, g)
  | .logarithmic low high => do
    let (x, g) ← g.between low.log high.log
    return (.number x.exp, g)
  | .choice values => do
    let (x, g) ← g.item values
    return (.number x, g)

/-- Draws for parameters, in order, put into a setting. -/
def drawInto (setting : Setting) (g : Generator) :
    List (String × ParameterRange) → Except Abort (Setting × Generator)
  | [] => .ok (setting, g)
  | (path, range) :: rest => do
    let (v, g) ← range.draw g
    drawInto (setting.insert path v) g rest

/-- A stream of random settings. -/
structure RandomSearch where
  space : SearchSpace
  generator : Generator

namespace RandomSearch

/-- The stream with a seed. -/
def new (space : SearchSpace) (seed : UInt64) : RandomSearch := ⟨space, .new seed 0⟩

/-- The next settings. Memory is not modelled: as many are drawn as are asked for, however many
these are. -/
def suggest : (count : Nat) → RandomSearch → Except Abort (List Setting × RandomSearch)
  | 0, r => .ok ([], r)
  | count + 1, r => do
    let (setting, g) ← drawInto [] r.generator r.space
    let (settings, r) ← suggest count { r with generator := g }
    return (setting :: settings, r)

end RandomSearch

/-! ## Configured strategies -/

/-- The strategies that a configuration can name. -/
inductive StrategyKind where
  | grid
  | random
deriving DecidableEq

def StrategyKind.name : StrategyKind → String
  | .grid => "grid"
  | .random => "random"

/-- The memory of a configured strategy. -/
inductive Search where
  | grid (g : GridSearch)
  | random (r : RandomSearch)

namespace Search

/-- The start of a search. -/
def new (kind : StrategyKind) (space : SearchSpace) (steps : Nat) (seed : UInt64) : Search :=
  match kind with
  | .grid => .grid (.new space steps)
  | .random => .random (.new space seed)

/-- The next settings. -/
def suggest (count : Nat) : Search → Except Abort (List Setting × Search)
  | .grid g => do
    let (settings, g) ← g.suggest count
    return (settings, .grid g)
  | .random r => do
    let (settings, r) ← r.suggest count
    return (settings, .random r)

/-- Grid and random search, which learn nothing from objectives. -/
def strategy : Strategy Search where
  suggest := Search.suggest
  report _ _ s := s

end Search

end Lockstep
