import PoseLang.Decimal.Binary

/-!
# The fewest digits that read back

The fewest decimal digits that read back as a given double. The reals that round to `m · 2 ^ q` form
an interval around it, closed exactly when `m` is even. For one digit, two digits and so on the two
neighbours of the number on that decimal grid are tried, in exact arithmetic: the first grid with a
neighbour inside the interval wins, of two neighbours the nearer, and of two equally near ones the
one that the caller's rule for ties picks.
-/

namespace PoseLang.Decimal

/-- Which of two equally near decimals is taken. -/
inductive Tie where
  | up
  | toEven
deriving Repr, DecidableEq

/-- The decimal `significand · 10 ^ exponent`; the significand does not end in a zero. -/
structure Digits where
  significand : Nat
  exponent : Int
deriving Repr, DecidableEq

/-- Whether `a / b < 10 ^ p`. -/
def belowPow10 (a b : Nat) (p : Int) : Bool :=
  a * pow10 (-p).toNat < b * pow10 p.toNat

/-- The least `p` with `a / b < 10 ^ p`, from the number's binary exponent: the estimate is at most
two too small. -/
def decimalTop (a b : Nat) (binaryTop : Int) : Int :=
  let p := binaryTop * 30103 / 100000
  if belowPow10 a b p then p
  else if belowPow10 a b (p + 1) then p + 1
  else p + 2

/-- The interval of reals that round to a double, as numerators over one denominator: the double
itself and the two ends, which belong to the interval when `closed`. -/
structure Rounding where
  low : Nat
  value : Nat
  high : Nat
  denominator : Nat
  closed : Bool

/-- The interval around `m · 2 ^ q`, in quarters of its last place: half a place above, and half a
place below or, where the place below is half as wide, a quarter. -/
def Rounding.of (m : Nat) (q : Int) : Rounding :=
  let unit := pow2 (q - 2).toNat
  let below := if m = pow2 52 ∧ -1074 < q then 1 else 2
  { low := (4 * m - below) * unit
    value := 4 * m * unit
    high := (4 * m + 2) * unit
    denominator := pow2 (2 - q).toNat
    closed := m % 2 == 0 }

/-- Whether `n · 10 ^ e` lies in the interval. -/
def Rounding.holds (r : Rounding) (n : Nat) (e : Int) : Bool :=
  let x := n * pow10 e.toNat * r.denominator
  let scale := pow10 (-e).toNat
  if r.closed then r.low * scale ≤ x && x ≤ r.high * scale
  else r.low * scale < x && x < r.high * scale

/-- Whether the upper neighbour `n + 1` on the grid of `10 ^ e` is taken before the lower neighbour
`n`, both being in the interval. -/
def Rounding.prefersUpper (r : Rounding) (tie : Tie) (n : Nat) (e : Int) : Bool :=
  let twice := 2 * r.value * pow10 (-e).toNat
  let middle := (2 * n + 1) * pow10 e.toNat * r.denominator
  if twice < middle then false
  else if middle < twice then true
  else match tie with
    | .up => true
    | .toEven => n % 2 == 1

/-- The neighbour of the number on the grid of `10 ^ e` that reads back, if there is one. -/
def Rounding.onGrid? (r : Rounding) (tie : Tie) (e : Int) : Option Nat :=
  let n := r.value * pow10 (-e).toNat / (r.denominator * pow10 e.toNat)
  match r.holds n e, r.holds (n + 1) e with
  | true, true => some (if r.prefersUpper tie n e then n + 1 else n)
  | true, false => some n
  | false, true => some (n + 1)
  | false, false => none

/-- The fewest digits that read back as `m · 2 ^ q`; seventeen are always enough. A neighbour that
rounds up to a power of ten is that power. -/
def shortest (tie : Tie) (m : Nat) (q : Int) : Digits :=
  let r := Rounding.of m q
  let top := decimalTop r.value r.denominator (m.log2 + q)
  let found := (List.range' 1 17).findSome? fun (count : Nat) =>
    (r.onGrid? tie (top - count)).map fun n => (n, count)
  match found with
  | some (n, count) => if n = pow10 count then ⟨1, top⟩ else ⟨n, top - count⟩
  | none => ⟨m, 0⟩

end PoseLang.Decimal
