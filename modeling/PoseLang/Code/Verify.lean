import PoseLang.Code.Routine

/-!
# The shape of a body

The shape that a body has to have: every block ends in the one operation that ends it, every block
that is named exists, phis stand at the start of their block and name only blocks that lead to it,
and every register has a type. `Routine.flaw?` finds the first thing that is wrong: all ends of
blocks are looked at first, then all operations in order.
-/

namespace PoseLang

/-- What is wrong with the shape of a body. Blocks and registers are given by their numbers. -/
inductive Flaw where
  | emptyBlock (block : Nat) (label : String)
  | openBlock (block : Nat) (label : String)
  | missingTarget (block target : Nat)
  | innerTerminator (block : Nat)
  | latePhi (block : Nat)
  | strayEdge (block source : Nat)
  | unknownRegister (reg : Nat)
deriving Repr, DecidableEq

/-- A flaw of the routine with a name, in words. -/
def Flaw.message (name : String) : Flaw → String
  | .emptyBlock b l => name ++ ": block " ++ Op.block b ++ " (" ++ l ++ ") is empty"
  | .openBlock b l =>
    name ++ ": block " ++ Op.block b ++ " (" ++ l ++ ") does not end in a terminator"
  | .missingTarget b t =>
    name ++ ": " ++ Op.block b ++ " branches to missing block " ++ Op.block t
  | .innerTerminator b => name ++ ": terminator in the middle of " ++ Op.block b
  | .latePhi b => name ++ ": phi after a non-phi op in " ++ Op.block b
  | .strayEdge b f =>
    name ++ ": phi in " ++ Op.block b ++ " names " ++ Op.block f ++ ", which is not a predecessor"
  | .unknownRegister r => name ++ ": register " ++ Op.register r ++ " is not allocated"

namespace Routine

/-- What is wrong with the end of a block. -/
def endFlaw? (r : Routine) (b : Block) (i : Nat) : Option Flaw :=
  match b.ops.getLast? with
  | none => some (.emptyBlock i b.label)
  | some last =>
    if !last.isTerminator then some (.openBlock i b.label)
    else
      (last.successors.find? (fun t => r.blocks.length ≤ t)).map fun t => .missingTarget i t

/-- Whether a block leads to another. -/
def leadsTo (r : Routine) (source target : Nat) : Bool :=
  match r.blocks[source]? with
  | some b => b.successors.contains target
  | none => false

/-- The first edge of a phi from a block that does not lead to it. -/
def edgeFlaw? (r : Routine) (i : Nat) : Op → Option Flaw
  | .phi _ incoming =>
    (incoming.find? fun e => !r.leadsTo e.2 i).map fun e => .strayEdge i e.2
  | _ => none

/-- The first register of an operation that has no type: the one it writes, then those it reads. -/
def registerFlaw? (r : Routine) (op : Op) : Option Flaw :=
  ((op.dest?.toList ++ op.operands).find? fun reg => r.regTypes.length ≤ reg).map .unknownRegister

/-- What is wrong with the operations of a block from some point on; until then there may have been
phis only. -/
def opsFlaw? (r : Routine) (i : Nat) : (leading : Bool) → List Op → Option Flaw
  | _, [] => none
  | leading, op :: rest =>
    if op.isTerminator && !rest.isEmpty then some (.innerTerminator i)
    else if op.isPhi && !leading then some (.latePhi i)
    else
      (r.edgeFlaw? i op <|> r.registerFlaw? op) <|> opsFlaw? r i (leading && op.isPhi) rest

/-- The first flaw of a routine. A declaration has none. -/
def flaw? (r : Routine) : Option Flaw :=
  (r.blocks.zipIdx.findSome? fun (b, i) => r.endFlaw? b i) <|>
    (r.blocks.zipIdx.findSome? fun (b, i) => r.opsFlaw? i true b.ops)

/-- The verdict on a routine: nothing, or its first flaw in words. -/
def verify (r : Routine) : Except String Unit :=
  match r.flaw? with
  | none => .ok ()
  | some f => .error (f.message r.name)

end Routine

end PoseLang
