/-!
# Doubles as binary fractions

A finite double other than zero is `m · 2 ^ q` for a mantissa below `2 ^ 53`; `decode` reads `m` and
`q` off its bits, and `nearest` goes the other way: it rounds a positive quotient to the double
nearest to it, a half to the even mantissa.
-/

namespace PoseLang.Decimal

/-- The size of a double, its sign apart. -/
inductive Magnitude where
  | nan
  | infinite
  | zero
  /-- The number `mantissa · 2 ^ exponent`, with a positive mantissa below `2 ^ 53`. -/
  | finite (mantissa : Nat) (exponent : Int)
deriving Repr, DecidableEq

/-- A power of two. -/
def pow2 (n : Nat) : Nat :=
  Nat.pow 2 n

/-- A power of ten. -/
def pow10 (n : Nat) : Nat :=
  Nat.pow 10 n

/-- Whether the sign bit of a double is set. -/
def isNegative (x : Float) : Bool :=
  x.toBits.toNat / pow2 63 == 1

/-- The size of a double, read off its exponent and fraction fields. -/
def decode (x : Float) : Magnitude :=
  let bits := x.toBits.toNat
  let field : Nat := bits / pow2 52 % pow2 11
  let fraction : Nat := bits % pow2 52
  if field = 2047 then
    if fraction = 0 then .infinite else .nan
  else if field = 0 then
    if fraction = 0 then .zero else .finite fraction (-1074)
  else
    .finite (pow2 52 + fraction) ((field : Int) - 1075)

/-- The integer nearest to `num / den`, a half going to the even one. -/
def roundHalfEven (num den : Nat) : Nat :=
  let q := num / den
  let twice := 2 * (num % den)
  if twice < den then q
  else if den < twice then q + 1
  else if q % 2 = 0 then q else q + 1

/-- Whether `num / den` is at least `2 ^ e`. -/
def atLeastPow2 (num den : Nat) (e : Int) : Bool :=
  den * pow2 e.toNat ≤ num * pow2 (-e).toNat

/-- The bits of infinity. -/
def infinityBits : Nat :=
  0x7FF0000000000000

/-- The bits of the double nearest to the positive quotient `num / den`. Its last place is `2 ^ e`,
where `e` gives the quotient 53 digits of mantissa or is the least exponent there is; a mantissa
that rounds up to `2 ^ 53` carries into the exponent field, and past the largest double the result
is infinity. -/
def nearestBits (num den : Nat) : Nat :=
  let high : Int := (num.log2 : Int) - den.log2
  let top := if atLeastPow2 num den high then high else high - 1
  let e := max (top - 52) (-1074)
  let q := roundHalfEven (num * pow2 (-e).toNat) (den * pow2 e.toNat)
  min ((e + 1074).toNat * pow2 52 + q) infinityBits

/-- The double with the given sign and the given bits below the sign. -/
def ofMagnitudeBits (negative : Bool) (bits : Nat) : Float :=
  Float.ofBits (UInt64.ofNat (if negative then bits + pow2 63 else bits))

/-- The double nearest to `± m · 10 ^ e`. A number of at least `10 ^ 310` is past every double and
one below `10 ^ -330` under half the least of them, so neither is expanded. -/
def nearest (negative : Bool) (m : Nat) (e : Int) : Float :=
  let top := e + (Nat.toDigits 10 m).length
  ofMagnitudeBits negative <|
    if m = 0 then 0
    else if 310 < top then infinityBits
    else if top < -330 then 0
    else nearestBits (m * pow10 e.toNat) (pow10 (-e).toNat)

end PoseLang.Decimal
