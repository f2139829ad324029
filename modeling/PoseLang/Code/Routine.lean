import PoseLang.Code.Op

/-!
# Routines and their blocks

Routines: the lowered form of functions. A routine with blocks is a body, one without is the
declaration of a function that is implemented elsewhere. The parameters are the first registers.
-/

namespace PoseLang

/-- A stretch of operations that is entered at its start only. -/
structure Block where
  label : String
  ops : List Op

namespace Block

/-- The block with an operation added at its end. -/
def push (b : Block) (op : Op) : Block :=
  { b with ops := b.ops ++ [op] }

/-- The operation that ends the block, if its last one does. -/
def terminator? (b : Block) : Option Op :=
  match b.ops.getLast? with
  | some op => if op.isTerminator then some op else none
  | none => none

/-- The blocks that may follow. -/
def successors (b : Block) : List Nat :=
  match b.terminator? with
  | some op => op.successors
  | none => []

/-- A block as a document. -/
def json (b : Block) : Json :=
  .ofEntries [("label", .ofString b.label), ("ops", .ofList Op.json b.ops)]

end Block

/-- The name, the parameters and the result type of a routine. Parameters are numbers. -/
structure Signature where
  name : String
  params : List String
  ret : Ty
deriving Repr, DecidableEq

namespace Signature

/-- The number of parameters. -/
def arity (s : Signature) : Nat :=
  s.params.length

/-- The signature of a function from numbers to a number. -/
def external (name : String) (params : List String) : Signature :=
  ⟨name, params, .f64⟩

/-- The head of a listing: the registers of the parameters, and the result type. -/
def text (s : Signature) : String :=
  let params := s.params.zipIdx.map fun (p, i) => Op.register i ++ ": " ++ p
  s.name ++ "(" ++ ", ".intercalate params ++ ") -> " ++ s.ret.text

/-- A signature as a document. -/
def json (s : Signature) : Json :=
  .ofEntries [("name", .ofString s.name), ("params", .ofList .ofString s.params),
    ("ret", s.ret.json)]

end Signature

/-- A lowered function: its signature, its blocks and the types of its registers. -/
structure Routine where
  signature : Signature
  blocks : List Block
  regTypes : List Ty

namespace Routine

/-- A routine without a body. -/
def declaration (s : Signature) : Routine :=
  ⟨s, [], []⟩

/-- The name of a routine. -/
def name (r : Routine) : String :=
  r.signature.name

/-- The number of parameters. -/
def arity (r : Routine) : Nat :=
  r.signature.arity

/-- Whether the routine has no body. -/
def isDeclaration (r : Routine) : Bool :=
  r.blocks.isEmpty

/-- All operations, block by block. -/
def ops (r : Routine) : List Op :=
  r.blocks.flatMap Block.ops

/-- The lines of a numbered block. -/
def blockLines (b : Block) (i : Nat) : List String :=
  (Op.block i ++ " (" ++ b.label ++ "):") :: b.ops.map fun op => "    " ++ op.text

/-- The listing of a routine, each line ended. -/
def text (r : Routine) : String :=
  if r.isDeclaration then "declare " ++ r.signature.text ++ "\n"
  else
    let lines := ("define " ++ r.signature.text ++ " \x7b") ::
      r.blocks.zipIdx.flatMap (fun (b, i) => blockLines b i) ++ ["\x7d"]
    String.join (lines.map (· ++ "\n"))

/-- A routine as a document. -/
def json (r : Routine) : Json :=
  .ofEntries [("signature", r.signature.json), ("blocks", .ofList Block.json r.blocks),
    ("reg_types", .ofList Ty.json r.regTypes)]

end Routine

end PoseLang
