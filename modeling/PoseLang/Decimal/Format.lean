import PoseLang.Decimal.Shortest

/-!
# Doubles as text

Every style writes the fewest digits that read back; a `Style` says where positional writing ends,
how an exponent is marked, whether a whole number keeps a point, and what stands for the values that
are no numbers.
-/

namespace PoseLang.Decimal

/-- How doubles are written. -/
structure Style where
  /-- Whether `d.ddd · 10 ^ e` is written without an exponent, by `e`. -/
  positional : Int → Bool
  /-- What follows a whole number written without an exponent. -/
  wholeSuffix : String
  /-- What stands between the exponent mark and an exponent that is not negative. -/
  exponentPlus : String
  /-- Which of two equally near decimals is taken. -/
  tie : Tie
  nan : String
  infinity : String
  negativeInfinity : String

/-- The text of `n` zeros. -/
def zeros (n : Nat) : String :=
  String.ofList (List.replicate n '0')

/-- The digits written without an exponent. -/
def Style.inPlaces (s : Style) (d : Digits) : String :=
  let digits := toString d.significand
  if 0 ≤ d.exponent then
    digits ++ zeros d.exponent.toNat ++ s.wholeSuffix
  else
    let places := (-d.exponent).toNat
    if places < digits.length then
      let whole := digits.length - places
      String.ofList (digits.toList.take whole) ++ "." ++ String.ofList (digits.toList.drop whole)
    else
      "0." ++ zeros (places - digits.length) ++ digits

/-- The digits written as `d.ddd` with an exponent. -/
def Style.withExponent (s : Style) (d : Digits) (e : Int) : String :=
  let digits := (toString d.significand).toList
  let fraction := match digits.drop 1 with
    | [] => ""
    | rest => "." ++ String.ofList rest
  let sign := if 0 ≤ e then s.exponentPlus else ""
  String.ofList (digits.take 1) ++ fraction ++ "e" ++ sign ++ toString e

/-- The text of a double in a style. -/
def Style.text (s : Style) (x : Float) : String :=
  let sign := if isNegative x then "-" else ""
  match decode x with
  | .nan => s.nan
  | .infinite => if isNegative x then s.negativeInfinity else s.infinity
  | .zero => sign ++ "0" ++ s.wholeSuffix
  | .finite m q =>
    let d := shortest s.tie m q
    let e := d.exponent + (toString d.significand).length - 1
    sign ++ if s.positional e then s.inPlaces d else s.withExponent d e

/-- The style of values and source texts: never an exponent, and no point on whole numbers. -/
def plain : Style where
  positional := fun _ => true
  wholeSuffix := ""
  exponentPlus := ""
  tie := .up
  nan := "NaN"
  infinity := "inf"
  negativeInfinity := "-inf"

end PoseLang.Decimal
