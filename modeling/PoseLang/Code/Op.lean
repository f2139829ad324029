import PoseLang.Json.Printer

/-!
# Operations of lowered code

The operations of lowered code. A routine works on numbered registers, each with a type, and is cut
into numbered blocks. A block starts with the phis that take over values from the block before it
and ends with the operation that says where to go on.
-/

namespace PoseLang

/-- The type of a register. -/
inductive Ty where
  | f64
  | bool
  /-- The address of a record, or of a field of it. -/
  | ptr (record : String)
deriving Repr, DecidableEq

namespace Ty

/-- A type in listings. -/
def text : Ty → String
  | .f64 => "f64"
  | .bool => "bool"
  | .ptr r => "ptr<" ++ r ++ ">"

/-- A type as a document. -/
def json : Ty → Json
  | .f64 => .ofString "F64"
  | .bool => .ofString "Bool"
  | .ptr r => .ofEntries [("Ptr", .ofString r)]

end Ty

/-- The operations on two numbers. -/
inductive Arith where
  | add
  | sub
  | mul
  | div
  | lt
  | gt
deriving Repr, DecidableEq

namespace Arith

/-- The operation that an operator of the language stands for. -/
def ofChar? : Char → Option Arith
  | '+' => some .add
  | '-' => some .sub
  | '*' => some .mul
  | '/' => some .div
  | '<' => some .lt
  | '>' => some .gt
  | _ => none

/-- The result on two numbers; a comparison gives one or zero. -/
def apply : Arith → Float → Float → Float
  | .add, x, y => x + y
  | .sub, x, y => x - y
  | .mul, x, y => x * y
  | .div, x, y => x / y
  | .lt, x, y => if x < y then 1 else 0
  | .gt, x, y => if x > y then 1 else 0

/-- An operation in listings. -/
def text : Arith → String
  | .add => "add"
  | .sub => "sub"
  | .mul => "mul"
  | .div => "div"
  | .lt => "lt"
  | .gt => "gt"

/-- The tag of an operation in documents. -/
def tag : Arith → String
  | .add => "Add"
  | .sub => "Sub"
  | .mul => "Mul"
  | .div => "Div"
  | .lt => "Lt"
  | .gt => "Gt"

end Arith

/-- An operation. Registers and blocks are given by their numbers. -/
inductive Op where
  | const (dest : Nat) (value : Float)
  | arith (kind : Arith) (dest left right : Nat)
  /-- Whether a number differs from zero, for a branch. -/
  | truthy (dest src : Nat)
  | call (dest : Nat) (callee : String) (args : List Nat)
  | alloca (dest : Nat) (record : String)
  /-- The address that lies `outer` records and `inner` fields behind `base`. -/
  | fieldAddr (dest base outer inner : Nat)
  | store (src addr : Nat)
  /-- The register that goes with the block that was left last. -/
  | phi (dest : Nat) (incoming : List (Nat × Nat))
  | jump (target : Nat)
  | branch (cond thenBlock elseBlock : Nat)
  | ret (src : Nat)

namespace Op

/-- The register that an operation writes. -/
def dest? : Op → Option Nat
  | .const d _ | .arith _ d _ _ | .truthy d _ | .call d _ _ | .alloca d _ | .fieldAddr d _ _ _
  | .phi d _ => some d
  | .store .. | .jump .. | .branch .. | .ret .. => none

/-- The registers that an operation reads. -/
def operands : Op → List Nat
  | .const .. | .alloca .. | .jump .. => []
  | .arith _ _ a b => [a, b]
  | .truthy _ a | .ret a => [a]
  | .call _ _ as => as
  | .fieldAddr _ b _ _ => [b]
  | .store s a => [s, a]
  | .phi _ es => es.map Prod.fst
  | .branch c _ _ => [c]

/-- Whether an operation ends a block. -/
def isTerminator : Op → Bool
  | .jump .. | .branch .. | .ret .. => true
  | _ => false

/-- Whether an operation takes over a value from the block before. -/
def isPhi : Op → Bool
  | .phi .. => true
  | _ => false

/-- The blocks that an operation may go on to. -/
def successors : Op → List Nat
  | .jump t => [t]
  | .branch _ t e => [t, e]
  | _ => []

/-- Constants in listings keep a point, and take an exponent from `10 ^ 16` up and below
`10 ^ -4`. -/
def floatStyle : Decimal.Style where
  positional := fun e => -4 ≤ e && e < 16
  wholeSuffix := ".0"
  exponentPlus := ""
  tie := .up
  nan := "NaN"
  infinity := "inf"
  negativeInfinity := "-inf"

/-- A register in listings. -/
def register (r : Nat) : String :=
  "r" ++ toString r

/-- A block in listings. -/
def block (b : Nat) : String :=
  "bb" ++ toString b

/-- An operation in listings. -/
def text : Op → String
  | .const d x => register d ++ " = const " ++ floatStyle.text x
  | .arith k d a b => register d ++ " = " ++ k.text ++ " " ++ register a ++ ", " ++ register b
  | .truthy d a => register d ++ " = truthy " ++ register a
  | .call d f as =>
    register d ++ " = call " ++ f ++ "(" ++ ", ".intercalate (as.map register) ++ ")"
  | .alloca d r => register d ++ " = alloca " ++ r
  | .fieldAddr d b o i =>
    register d ++ " = fieldaddr " ++ register b ++ ", [" ++ toString o ++ ", " ++ toString i ++ "]"
  | .store s a => "store " ++ register s ++ ", " ++ register a
  | .phi d es =>
    register d ++ " = phi" ++
      ",".intercalate (es.map fun e => " [" ++ register e.1 ++ ", " ++ block e.2 ++ "]")
  | .jump t => "jmp " ++ block t
  | .branch c t e => "br " ++ register c ++ ", " ++ block t ++ ", " ++ block e
  | .ret a => "ret " ++ register a

/-- A tag with the parts that belong to it, as a document. -/
def tagged (tag : String) (parts : List (String × Json)) : Json :=
  .ofEntries [(tag, .ofEntries parts)]

/-- An operation as a document: its tag with its parts. -/
def json : Op → Json
  | .const d x =>
    tagged "LConst" [("dest", .ofNat d), ("value", .ofEntries [("Float", .ofFloat x)])]
  | .arith k d a b => tagged k.tag [("dest", .ofNat d), ("src1", .ofNat a), ("src2", .ofNat b)]
  | .truthy d a => tagged "Truthy" [("dest", .ofNat d), ("src", .ofNat a)]
  | .call d f as =>
    tagged "Call" [("dest", .ofNat d), ("callee", .ofString f), ("args", .ofList .ofNat as)]
  | .alloca d r => tagged "Alloca" [("dest", .ofNat d), ("record", .ofString r)]
  | .fieldAddr d b o i =>
    tagged "FieldAddr"
      [("dest", .ofNat d), ("base", .ofNat b), ("indices", .array [.ofNat o, .ofNat i])]
  | .store s a => tagged "Store" [("src", .ofNat s), ("addr", .ofNat a)]
  | .phi d es =>
    tagged "Phi"
      [("dest", .ofNat d),
        ("incoming", .ofList (fun e : Nat × Nat => .array [.ofNat e.1, .ofNat e.2]) es)]
  | .jump t => tagged "Jump" [("target", .ofNat t)]
  | .branch c t e =>
    tagged "Branch" [("cond", .ofNat c), ("then_block", .ofNat t), ("else_block", .ofNat e)]
  | .ret a => tagged "Ret" [("src", .ofNat a)]

end Op

end PoseLang
