/-!
# How numbers are written

A finite nonzero binary number owns the interval of reals that round to it, its ends included when
its significand is even. `shortest` finds the coarsest decimal grid with a point in that interval
and takes the grid point nearest to the number; `rounded` keeps a fixed count of digits. All
arithmetic is exact.

A `Layout` says which numbers are written positionally, how the others show their exponent and how
ties between shortest decimals are settled. `plain`, `pointed` and `json` are the layouts in use;
`scientific` writes a fixed count of decimals with an exponent.
-/

namespace Lockstep.Decimal

/-! ## Shortest digits -/

/-- The magnitude of a nonzero finite binary number: `significand * 2 ^ exponent`. When `narrow`
holds, the number starts a binade and its lower neighbour is half as far away as the upper one. -/
structure Binary where
  significand : Nat
  exponent : Int
  narrow : Bool

/-- The magnitude of a finite double, read off its bits. -/
def Binary.ofFloat (x : Float) : Binary :=
  let bits := x.toBits.toNat
  let fraction := bits % Nat.pow 2 52
  let biased : Nat := bits / Nat.pow 2 52 % Nat.pow 2 11
  if biased = 0 then ⟨fraction, -1074, false⟩
  else ⟨Nat.pow 2 52 + fraction, (biased : Int) - 1075, fraction = 0 && 1 < biased⟩

/-- A decimal magnitude `coefficient * 10 ^ exponent`. -/
structure Magnitude where
  coefficient : Nat
  exponent : Int
deriving DecidableEq, Repr

/-- Which of two equally near grid points is taken. -/
inductive Tie where
  | toEven
  | up
deriving DecidableEq

/-- The power of a base as a fraction, numerator and denominator. -/
def powerRatio (base : Nat) (e : Int) : Nat × Nat := (base.pow e.toNat, base.pow (-e).toNat)

/-- The number divided by the grid step `10 ^ k`, in quarters of `2 ^ exponent`: the numerator for
one quarter and the common denominator. -/
def Binary.quarterOnGrid (b : Binary) (k : Int) : Nat × Nat :=
  let two := powerRatio 2 (b.exponent - 2)
  let ten := powerRatio 10 (-k)
  (two.1 * ten.1, two.2 * ten.2)

/-- The greatest point of the grid with step `10 ^ k` that is not above the number. -/
def Binary.below (b : Binary) (k : Int) : Nat :=
  let (quarter, den) := b.quarterOnGrid k
  4 * b.significand * quarter / den

/-- The points `d` of the grid with step `10 ^ k` next to the number that round to it, lower
first. -/
def Binary.neighbours (b : Binary) (k : Int) : List Nat :=
  let (quarter, den) := b.quarterOnGrid k
  let low := (4 * b.significand - if b.narrow then 1 else 2) * quarter
  let high := (4 * b.significand + 2) * quarter
  let d := b.below k
  let closed := b.significand % 2 = 0
  [d, d + 1].filter fun p =>
    if closed then low ≤ p * den && p * den ≤ high else low < p * den && p * den < high

/-- Of two neighbouring grid points `d` and `d + 1` the one nearer to the number. -/
def Binary.nearer (b : Binary) (tie : Tie) (k : Int) (d : Nat) : Nat :=
  let (quarter, den) := b.quarterOnGrid k
  let twice := 8 * b.significand * quarter
  match compare twice ((2 * d + 1) * den) with
  | .lt => d
  | .gt => d + 1
  | .eq => match tie with
    | .up => d + 1
    | .toEven => d + d % 2

/-- The number itself as a decimal. -/
def Binary.exact (b : Binary) : Magnitude :=
  if 0 ≤ b.exponent then ⟨b.significand * Nat.pow 2 b.exponent.toNat, 0⟩
  else ⟨b.significand * Nat.pow 5 (-b.exponent).toNat, b.exponent⟩

/-- A decimal exponent `e` with the number below `10 ^ e`. -/
def Binary.ceilingExponent (b : Binary) : Int :=
  (b.significand.log2 + 1 + b.exponent) * 30103 / 100000 + 1

/-- The first of the grids `10 ^ k`, `10 ^ (k - 1)`, … with a point that rounds to the number. -/
def Binary.shortestFrom (b : Binary) (tie : Tie) : Nat → Int → Magnitude
  | 0, _ => b.exact
  | steps + 1, k =>
    match b.neighbours k with
    | [] => b.shortestFrom tie steps (k - 1)
    | [d] => ⟨d, k⟩
    | d :: _ => ⟨b.nearer tie k d, k⟩

/-- The shortest decimal that rounds to the number, the nearest of several. Twenty grids are
enough: seventeen digits always reach the number. -/
def Binary.shortest (b : Binary) (tie : Tie) : Magnitude :=
  b.shortestFrom tie 20 b.ceilingExponent

/-- The decimal digits of a number, most significant first. -/
def digits (n : Nat) : List Char := Nat.toDigits 10 n

/-- The exponent of the leading digit. -/
def Magnitude.leading (m : Magnitude) : Int := m.exponent + (digits m.coefficient).length - 1

/-- The number rounded to `count` significant digits: of the grids `10 ^ k`, `10 ^ (k - 1)`, … the
first on which the number has that many digits is taken, a tie goes to the even point. -/
def Binary.roundedFrom (b : Binary) (count : Nat) : Nat → Int → Magnitude
  | 0, _ => b.exact
  | steps + 1, k =>
    let d := b.below k
    if (digits d).length < count || d = 0 then b.roundedFrom count steps (k - 1)
    else
      let rounded := b.nearer .toEven k d
      if (digits rounded).length = count then ⟨rounded, k⟩ else ⟨rounded / 10, k + 1⟩

/-- The number rounded to `count` significant digits. -/
def Binary.rounded (b : Binary) (count : Nat) : Magnitude :=
  b.roundedFrom count 4 (b.ceilingExponent - count)


/-! ## Layouts -/

/-- The decisions of a number format. -/
structure Layout where
  /-- which of two equally near shortest decimals is written -/
  tie : Tie
  /-- whether a leading digit with this exponent is written positionally -/
  positional : Int → Bool
  /-- whether an integral number written positionally ends in `.0` -/
  pointZero : Bool
  /-- whether a positive exponent carries a sign -/
  plusSign : Bool

/-- Every number positionally, without a trailing `.0`. -/
def plain : Layout := ⟨.up, fun _ => true, false, false⟩

/-- Positionally from `1e-4` up to below `1e16`, with a point in it. -/
def pointed : Layout := ⟨.up, fun e => -4 ≤ e && e < 16, true, false⟩

/-- Positionally for exponents from -5 to 15, with a point in it, and signed exponents beyond. -/
def json : Layout := ⟨.toEven, fun e => -5 ≤ e && e < 16, true, true⟩

/-- The sign bit is set. -/
def isNegative (x : Float) : Bool := Nat.pow 2 63 ≤ x.toBits.toNat

/-- Digits with `point` of them before the decimal point. -/
def placePoint (ds : List Char) (point : Int) (pointZero : Bool) : List Char :=
  if point ≤ 0 then '0' :: '.' :: List.replicate (-point).toNat '0' ++ ds
  else if ds.length ≤ point.toNat then
    ds ++ List.replicate (point.toNat - ds.length) '0' ++ if pointZero then ['.', '0'] else []
  else ds.take point.toNat ++ '.' :: ds.drop point.toNat

/-- A decimal exponent with its sign. -/
def exponentText (plusSign : Bool) (e : Int) : List Char :=
  (if e < 0 then ['-'] else if plusSign then ['+'] else []) ++ digits e.natAbs

/-- The magnitude of a nonzero number in a layout. -/
def Layout.magnitude (l : Layout) (m : Magnitude) : List Char :=
  let ds := digits m.coefficient
  if l.positional m.leading then placePoint ds (m.leading + 1) l.pointZero
  else (if ds.length = 1 then ds else ds.take 1 ++ '.' :: ds.drop 1) ++
    'e' :: exponentText l.plusSign m.leading

/-- The text of a number that may be infinite or not a number; `finite` writes a finite
magnitude. -/
def signed (x : Float) (finite : List Char) : String :=
  if x.isNaN then "NaN"
  else String.ofList ((if isNegative x then ['-'] else []) ++
    if x.isInf then ['i', 'n', 'f'] else finite)

/-- The text of a number in a layout. -/
def Layout.write (l : Layout) (x : Float) : String :=
  signed x (if x == 0 then (if l.pointZero then ['0', '.', '0'] else ['0'])
    else l.magnitude ((Binary.ofFloat x).shortest l.tie))

/-- The text of a number with one digit before the point, `places` after it and an exponent, rounded
from the exact value with ties to even. -/
def scientific (places : Nat) (x : Float) : String :=
  let withExponent (ds : List Char) (e : Int) :=
    ds.take 1 ++ (if places = 0 then [] else '.' :: ds.drop 1) ++ 'e' :: exponentText false e
  signed x (if x == 0 then withExponent (List.replicate (places + 1) '0') 0
    else
      let m := (Binary.ofFloat x).rounded (places + 1)
      withExponent (digits m.coefficient) m.leading)

end Lockstep.Decimal
