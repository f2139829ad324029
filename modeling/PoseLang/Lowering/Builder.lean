import Std.Data.ExtTreeMap
import PoseLang.Code.Routine
import PoseLang.Lowering.Error

/-!
# A routine under construction

A routine under construction: its blocks with the one that operations are added to, the types of its
registers, the registers that names stand for, and the declarations that its calls rely on. Lowering
runs over such a builder; a failure leaves the builder as it was then.
-/

namespace PoseLang

open Std (ExtTreeMap)

/-- A routine under construction. -/
structure Builder where
  blocks : List Block
  /-- The block that operations are added to. -/
  current : Nat
  regTypes : List Ty
  /-- The registers that names stand for. -/
  bindings : ExtTreeMap String Nat
  /-- How often each label has been asked for. -/
  labelCounts : ExtTreeMap String Nat
  /-- The declarations that calls rely on, in the order of the calls. -/
  declarations : List Signature

namespace Builder

/-- An empty routine, about to fill its entry. -/
def start : Builder where
  blocks := [⟨"entry", []⟩]
  current := 0
  regTypes := []
  bindings := ∅
  labelCounts := ∅
  declarations := []

/-- A new register of a type. -/
def newReg (b : Builder) (ty : Ty) : Nat × Builder :=
  (b.regTypes.length, { b with regTypes := b.regTypes ++ [ty] })

/-- The label asked for, with a number behind it from the second time on. -/
def freshLabel (b : Builder) (label : String) : String :=
  match b.labelCounts[label]?.getD 0 with
  | 0 => label
  | n => label ++ toString n

/-- A new block behind the others. -/
def appendBlock (b : Builder) (label : String) : Nat × Builder :=
  (b.blocks.length,
    { b with
      blocks := b.blocks ++ [⟨b.freshLabel label, []⟩]
      labelCounts := b.labelCounts.insert label (b.labelCounts[label]?.getD 0 + 1) })

/-- Makes a block the one that operations are added to. -/
def position (b : Builder) (block : Nat) : Builder :=
  { b with current := block }

/-- Adds an operation to the current block. -/
def emit (b : Builder) (op : Op) : Builder :=
  { b with blocks := b.blocks.modify b.current (·.push op) }

/-- A new register with a constant in it. -/
def const (b : Builder) (x : Float) : Nat × Builder :=
  let (dest, b) := b.newReg .f64
  (dest, b.emit (.const dest x))

/-- The operations with an edge added to the first phi that writes a register. -/
def addEdge (dest : Nat) (edge : Nat × Nat) : List Op → List Op
  | [] => []
  | .phi d incoming :: ops =>
    if d = dest then .phi d (incoming ++ [edge]) :: ops
    else .phi d incoming :: addEdge dest edge ops
  | op :: ops => op :: addEdge dest edge ops

/-- Adds an edge to the phi of a block that writes a register. -/
def addPhiEdge (b : Builder) (block dest : Nat) (edge : Nat × Nat) : Builder :=
  { b with
    blocks := b.blocks.modify block fun bl => { bl with ops := addEdge dest edge bl.ops } }

/-- Lets a name stand for a register; gives the register that it stood for. -/
def bind (b : Builder) (name : String) (reg : Nat) : Option Nat × Builder :=
  (b.bindings[name]?, { b with bindings := b.bindings.insert name reg })

/-- Lets a name stand for what it stood for before. -/
def restore (b : Builder) (name : String) (previous : Option Nat) : Builder :=
  match previous with
  | some reg => { b with bindings := b.bindings.insert name reg }
  | none => { b with bindings := b.bindings.erase name }

/-- The register that a name stands for. -/
def lookup? (b : Builder) (name : String) : Option Nat :=
  b.bindings[name]?

/-- The type of a register. -/
def typeOf? (b : Builder) (reg : Nat) : Option Ty :=
  b.regTypes[reg]?

/-- Notes a declaration that a call relies on, once for a name. -/
def queue (b : Builder) (s : Signature) : Builder :=
  if b.declarations.any (·.name == s.name) then b
  else { b with declarations := b.declarations ++ [s] }

/-- The routine as it stands, under a signature. -/
def finish (b : Builder) (s : Signature) : Routine :=
  ⟨s, b.blocks, b.regTypes⟩

end Builder

end PoseLang
