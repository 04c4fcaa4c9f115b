import Lockstep.Component.Roles
import Lockstep.Tensor.Matrix

/-!
# Particle swarm optimisation

Particles move through a box. Each remembers the best place where it was and all know the best place
of the swarm; both draw it with random strength. The three weights are parameters, read from the
state in every step, so that lanes can carry different ones.
-/

namespace Lockstep

open Lockstep.Random

/-- A swarm in a box, with its weights. -/
structure ParticleSwarm where
  lower : List Float
  upper : List Float
  popSize : Nat
  inertia : Float := 0.6
  cognitive : Float := 2.5
  social : Float := 0.8

namespace ParticleSwarm

/-- The first place where the lower bound is not below the upper one. -/
def misordered : (index : Nat) → List Float → List Float → Option (Nat × Float × Float)
  | index, l :: lower, u :: upper =>
    if l < u then misordered (index + 1) lower upper else some (index, l, u)
  | _, _, _ => none

/-- A swarm with default weights. Lower bounds are below upper ones, and there are particles. -/
def new (lower upper : List Float) (popSize : Nat) : Outcome ParticleSwarm :=
  if lower.isEmpty || lower.length ≠ upper.length then
    .error (.validation (.boundCount lower.length upper.length))
  else match misordered 0 lower upper with
    | some (index, l, u) => .error (.validation (.boundOrder l u index))
    | none =>
      if popSize = 0 then .error (.validation .populationSize) else .ok { lower, upper, popSize }

/-- The count of coordinates. -/
def dim (s : ParticleSwarm) : Nat := s.lower.length

def schema (s : ParticleSwarm) : Schema :=
  [.constant "lb" (.vector s.lower), .constant "ub" (.vector s.upper),
    .constant "pop_size" (.scalar (UInt64.ofNat s.popSize).toFloat),
    .parameter "w" (.scalar s.inertia), .parameter "phi_p" (.scalar s.cognitive),
    .parameter "phi_g" (.scalar s.social), .population "population", .population "velocity",
    .population "local_best_location", .population "local_best_fitness",
    .mutable "global_best_location", .mutable "global_best_fitness"]

/-- A row of draws between two bounds. -/
def drawRow : (low high : List Float) → Generator → List Float × Generator
  | l :: low, h :: high, g =>
    let (u, g) := g.nextUnit
    let (row, g) := drawRow low high g
    ((l + (h - l) * u) :: row, g)
  | _, _, g => ([], g)

theorem length_drawRow :
    ∀ (low high : List Float) (g : Generator),
      (drawRow low high g).1.length = min low.length high.length
  | [], _, _ => by simp [drawRow]
  | _ :: _, [], _ => by simp [drawRow]
  | _ :: low, _ :: high, g => by
    simp only [drawRow, List.length_cons, length_drawRow low high]
    omega

theorem length_of_mem_draws (low high : List Float) :
    ∀ (count : Nat) (g : Generator),
      ∀ r ∈ (Generator.draws (drawRow low high) count g).1, r.length = min low.length high.length
  | 0, _, _, hr => by simp [Generator.draws] at hr
  | count + 1, g, r, hr => by
    rcases List.mem_cons.1 hr with rfl | hr
    · exact length_drawRow low high g
    · exact length_of_mem_draws low high count _ r hr

/-- An array with a row of coordinates for each particle can be made. -/
def checkSize (s : ParticleSwarm) : Outcome Unit :=
  if Tensor.IsArrayShape [s.popSize, s.dim] then .ok () else .error (.abort .arraySize)

/-- A matrix of draws between two bounds, row by row. -/
def uniform (count : Nat) (low high : List Float) (g : Generator) : Matrix × Generator :=
  let drawn := Generator.draws (drawRow low high) count g
  (⟨min low.length high.length, drawn.1, length_of_mem_draws low high count g⟩, drawn.2)

/-- Every coordinate brought between its bounds; what is not a number stays so. -/
def clampRow : (lower upper row : List Float) → List Float
  | l :: lower, u :: upper, x :: row =>
    (if x < l then l else if u < x then u else x) :: clampRow lower upper row
  | _, _, row => row

theorem length_clampRow :
    ∀ (lower upper row : List Float), (clampRow lower upper row).length = row.length
  | [], _, _ => by simp [clampRow]
  | _ :: _, [], _ => by simp [clampRow]
  | _ :: _, _ :: _, [] => by simp [clampRow]
  | _ :: lower, _ :: upper, _ :: row => by simp [clampRow, length_clampRow lower upper row]

/-- Every row brought into the box. -/
def clamp (s : ParticleSwarm) (m : Matrix) : Matrix :=
  ⟨m.cols, m.rows.map (clampRow s.lower s.upper), fun r hr => by
    obtain ⟨row, hrow, rfl⟩ := List.mem_map.1 hr
    rw [length_clampRow, m.full row hrow]⟩

/-- The first state: particles anywhere in the box, moving by at most its width, without a best
place. -/
def initialState (s : ParticleSwarm) (g : Generator) : Outcome LocalState := do
  s.checkSize
  let span := List.zipWith (fun u l => u - l) s.upper s.lower
  let (population, g) := uniform s.popSize s.lower s.upper g
  let (velocity, _) := uniform s.popSize (span.map fun x => -x) span g
  let infinity : Float := 1 / 0
  let fitness ← Tensor.full [s.popSize] infinity
  return .ofList [("local_best_location", .tensor population.toTensor),
    ("population", .tensor population.toTensor), ("velocity", .tensor velocity.toTensor),
    ("local_best_fitness", .tensor fitness),
    ("global_best_location", .tensor (.vector (population.rows.headD []))),
    ("global_best_fitness", .tensor (.scalar infinity))]

/-- What a particle remembers: its best place with the fitness there. -/
structure Memory where
  locations : Matrix
  fitness : List Float

/-- Something that no array of another shape can give. -/
def present {α : Type} : Option α → Outcome α
  | some x => .ok x
  | none => .error (.abort .arrayShapes)

/-- A row put in place of another one; a single entry stands for a whole row. -/
def setRow (m : Matrix) (index : Nat) (row : List Float) : Outcome Matrix :=
  if index < m.rows.length then
    let row := if row.length = m.cols then row else Matrix.stretch m.cols row
    if h : ∀ r ∈ m.rows.set index row, r.length = m.cols then
      .ok ⟨m.cols, m.rows.set index row, h⟩
    else .error (.abort .arrayShapes)
  else .error (.abort .arrayShapes)

/-- Every particle remembers its place if the fitness there is below the best one so far. -/
def remember (population : Matrix) : (index : Nat) → List Float → Memory → Outcome Memory
  | _, [], memory => .ok memory
  | index, f :: rest, memory => do
    let best ← present memory.fitness[index]?
    if f < best then
      let place ← present population.rows[index]?
      let locations ← setRow memory.locations index place
      remember population (index + 1) rest ⟨locations, memory.fitness.set index f⟩
    else remember population (index + 1) rest memory

/-- The best place of the swarm, which changes only when a fitness is below that of the best place
so far. -/
def swarmBest (population : Matrix) (fitness : List Float) (location : List Float) (best : Float) :
    Outcome (List Float × Float) :=
  match Tensor.argmin fitness with
  | some (index, f) =>
    if f < best then do return (← present population.rows[index]?, f) else return (location, best)
  | none => return (location, best)

/-- One move of all particles: the new places and speeds, both brought into the box. -/
def move (s : ParticleSwarm) (w phiP phiG : Float) (population velocity locations : Matrix)
    (swarm : List Float) (g : Generator) : Outcome (Matrix × Matrix) := do
  s.checkSize
  let units := Generator.draws Generator.nextUnit (s.popSize * s.dim) g
  let others := Generator.draws Generator.nextUnit (s.popSize * s.dim) units.2
  let strengths (us : List Float) : Outcome Matrix :=
    if h : us.length = s.popSize * s.dim then .ok (.ofData s.popSize s.dim us h)
    else .error (.abort .arrayShapes)
  let rp ← strengths units.1
  let rg ← strengths others.1
  let toOwn ← present (Matrix.zipWith (· - ·) locations population)
  let cognitive := (← present (Matrix.zipWith (· * ·) toOwn rp)).map (· * phiP)
  let toSwarm := (← present (Matrix.zipWith (· - ·) population (.ofRow swarm))).map fun x => -x
  let social := (← present (Matrix.zipWith (· * ·) toSwarm rg)).map (· * phiG)
  let kept := velocity.map (· * w)
  let drawn ← present (Matrix.zipWith (· + ·) kept cognitive)
  let velocity ← present (Matrix.zipWith (· + ·) drawn social)
  let population ← present (Matrix.zipWith (· + ·) population velocity)
  return (s.clamp population, s.clamp velocity)

/-- The state after the fitness of the particles is known. -/
def learn (s : ParticleSwarm) (g : Generator) (l : LocalState) (fitness : Tensor) :
    Outcome LocalState := do
  let fitness ← fitness.asVector "fitness"
  if fitness.length ≠ s.popSize then
    shapeMismatch "pso fitness" [s.popSize] [fitness.length]
  let w ← l.number "w"
  let phiP ← l.number "phi_p"
  let phiG ← l.number "phi_g"
  let population ← (← l.tensor "population").asMatrix "population"
  let velocity ← (← l.tensor "velocity").asMatrix "velocity"
  let locations ← (← l.tensor "local_best_location").asMatrix "local_best_location"
  let bests ← (← l.tensor "local_best_fitness").asVector "local_best_fitness"
  let swarm ← (← l.tensor "global_best_location").asVector "global_best_location"
  let best ← l.number "global_best_fitness"
  let memory ← remember population 0 fitness ⟨locations, bests⟩
  let (swarm, best) ← swarmBest population fitness swarm best
  let (population, velocity) ← s.move w phiP phiG population velocity memory.locations swarm g
  return (((((l.setTensor "population" population.toTensor).setTensor "velocity"
    velocity.toTensor).setTensor "local_best_location" memory.locations.toTensor).setTensor
    "local_best_fitness" (.vector memory.fitness)).setTensor
    "global_best_location" (.vector swarm)).setNumber "global_best_fitness" best

/-- The swarm as an algorithm. It asks for the fitness of all particles. -/
def algorithm (s : ParticleSwarm) : Algorithm where
  component := { schema := s.schema, init := fun _ g => s.initialState g, children := [] }
  ask _ l := do return (.dense (← l.tensor "population"), l)
  tell ctx l fitness := s.learn ctx.random l fitness
  popSize := some s.popSize

end ParticleSwarm

end Lockstep
