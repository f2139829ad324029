import PoseLang.Decimal.Format

/-!
# Functions that the machine provides

The functions that the machine itself provides: some of mathematics, and two that write text.
-/

namespace PoseLang.Host

/-- The character with a number, unless there is none. -/
def char? (n : Nat) : Option Char :=
  if n.isValidChar then some (Char.ofNat n) else none

/-- The text of the character whose number is a double cut off to a whole number; one out of range
stands for the nearest number in range. -/
def charText (x : Float) : String :=
  match char? x.toUInt32.toNat with
  | some c => c.toString
  | none => ""

/-- The result of a provided function, and the text that it writes; none if no function of that name
takes that many numbers. -/
def run? (name : String) (args : List Float) : Option (Float × String) :=
  match name, args with
  | "sin", [x] => some (x.sin, "")
  | "cos", [x] => some (x.cos, "")
  | "sqrt", [x] => some (x.sqrt, "")
  | "atan2", [y, x] => some (Float.atan2 y x, "")
  | "printd", [x] => some (0, Decimal.plain.text x ++ "\n")
  | "putchard", [x] => some (0, charText x)
  | _, _ => none

end PoseLang.Host
