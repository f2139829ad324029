import PoseLang.Code.Op

/-!
# Values of the machine

A register holds a number, a truth value or an address; from outside an address is seen as the
record that it points to.
-/

namespace PoseLang

/-- What a register holds. -/
inductive Value where
  | float (x : Float)
  | bool (b : Bool)
  /-- The address of a cell of an allocation, both given by their numbers. -/
  | ptr (alloc cell : Nat)

/-- A value field by field. -/
def Value.inspect : Value → String
  | .float x => "Float(" ++ Op.floatStyle.text x ++ ")"
  | .bool b => "Bool(" ++ (if b then "true" else "false") ++ ")"
  | .ptr a c => "Ptr \x7b alloc: " ++ toString a ++ ", cell: " ++ toString c ++ " \x7d"

/-- A value as it is seen from outside. -/
inductive Datum where
  | number (x : Float)
  | bool (b : Bool)
  | record (name : String) (fields : List Float)

/-- The text of a value as it is seen from outside. -/
def Datum.text : Datum → String
  | .number x => Decimal.plain.text x
  | .bool b => if b then "true" else "false"
  | .record n fs => n ++ " \x7b " ++ ", ".intercalate (fs.map Decimal.plain.text) ++ " \x7d"

end PoseLang
