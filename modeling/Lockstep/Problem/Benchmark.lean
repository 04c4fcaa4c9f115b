import Lockstep.Component.Roles
import Lockstep.Tensor.Matrix

/-!
# Benchmark problems

Functions of a row of numbers with their minimum 0 at the origin, evaluated row by row.
-/

namespace Lockstep

/-- Eight running sums. -/
structure Sums where
  s0 : Float := 0
  s1 : Float := 0
  s2 : Float := 0
  s3 : Float := 0
  s4 : Float := 0
  s5 : Float := 0
  s6 : Float := 0
  s7 : Float := 0

/-- The sum of squares in a fixed order: eight running sums over full blocks of eight, joined in
pairs, then what is left over one by one. -/
def squares : List Float → Sums → Float
  | a :: b :: c :: d :: e :: f :: g :: h :: rest, s =>
    squares rest ⟨s.s0 + a * a, s.s1 + b * b, s.s2 + c * c, s.s3 + d * d, s.s4 + e * e,
      s.s5 + f * f, s.s6 + g * g, s.s7 + h * h⟩
  | rest, s =>
    rest.foldl (fun sum x => sum + x * x)
      (0 + (s.s0 + s.s4) + (s.s1 + s.s5) + (s.s2 + s.s6) + (s.s3 + s.s7))

/-- The sum of the squares of a row. -/
def sumOfSquares (row : List Float) : Float := squares row {}

/-- The coefficients of the Ackley function. -/
structure Ackley where
  a : Float := 20
  b : Float := 0.2
  /-- a full turn by default -/
  c : Float := 2 * 3.141592653589793

/-- The Ackley function of a row. -/
def Ackley.value (k : Ackley) (row : List Float) : Float :=
  let d := (UInt64.ofNat row.length).toFloat
  let meanSquare := sumOfSquares row / d
  let meanCosine := row.foldl (fun sum x => sum + (k.c * x).cos) 0 / d
  let bowl := -k.a * (-k.b * meanSquare.sqrt).exp
  bowl - meanCosine.exp + k.a + 2.718281828459045

/-- A problem that gives each row of a dense batch the value of a function. -/
def Problem.ofRows (f : List Float → Float) : Problem where
  component := { schema := [], init := fun _ _ => .ok [], children := [] }
  spec := .dense none
  evaluate _ l candidates := do
    let m ← (← candidates.asDense).asMatrix "candidates"
    return (.vector (m.rows.map f), l)

/-- The sum of squares. -/
def Problem.sphere : Problem := .ofRows sumOfSquares

/-- The Ackley function. -/
def Problem.ackley (k : Ackley) : Problem := .ofRows k.value

end Lockstep
