import PoseLang.Code.Program
import PoseLang.Machine.Fault
import PoseLang.Machine.Host

/-!
# The machine, step by step

Between calls the machine has its memory, the number of steps taken and the text written; while a
function runs there are also the frames of the functions that wait for each other. Every operation
but a leading phi is one step. The phis at the start of a block are read together when the block is
entered, before any of them is written.
-/

namespace PoseLang

/-- The storage of one record. -/
structure Allocation where
  record : String
  cells : List Float

/-- What outlives a call: the records allocated, the steps taken and the text written. -/
structure Machine where
  memory : Array Allocation := #[]
  /-- The steps are counted in a word, and the budget of a run is one, too. A run counts one step more
  than its budget at most, so that the count stays in a word if the budget is less than the greatest
  one. -/
  steps : Nat := 0
  output : String := ""

/-- The registers of a running function; one that was never written holds nothing. -/
abbrev Registers :=
  Array (Option Value)

namespace Registers

/-- The value of a register. -/
def read (regs : Registers) (reg : Nat) : Except Fault Value :=
  match regs[reg]? with
  | some (some v) => .ok v
  | _ => .error (.unsetRegister reg)

/-- Writes a register. -/
def write (regs : Registers) (reg : Nat) (v : Value) : Except Fault Registers :=
  if reg < regs.size then .ok (regs.set! reg (some v)) else .error (.outsideFrame reg)

/-- Writes registers one after the other. -/
def writeAll (regs : Registers) : List (Nat × Value) → Except Fault Registers
  | [] => .ok regs
  | (reg, v) :: rest => do
    let regs ← regs.write reg v
    writeAll regs rest

end Registers

/-- The number that a value is. -/
def Value.asFloat : Value → Except Fault Float
  | .float x => .ok x
  | v => .error (.notNumber v)

namespace Registers

/-- The number in a register. -/
def readFloat (regs : Registers) (reg : Nat) : Except Fault Float := do
  (← regs.read reg).asFloat

/-- The address behind another one, where allocations have certain numbers of cells. A cell is numbered
by a word, and a number that is too large for one begins again at zero. -/
def fieldAddr (regs : Registers) (widthAt : Nat → Nat) (base outer inner : Nat) :
    Except Fault Value := do
  match ← regs.read base with
  | .ptr alloc cell => return .ptr alloc ((cell + outer * widthAt alloc + inner) % UInt64.size)
  | _ => throw (.baseNotPointer base)

/-- The number that a store puts somewhere, and the cell that it goes into, which must be there. -/
def storeParts (regs : Registers) (widthAt : Nat → Nat) (src addr : Nat) :
    Except Fault (Float × Nat × Nat) := do
  let x ← regs.readFloat src
  match ← regs.read addr with
  | .ptr alloc cell =>
    if cell < widthAt alloc then return (x, alloc, cell) else throw (.outsideAllocation alloc cell)
  | _ => throw (.addressNotPointer addr)

/-- Whether a branch is taken: a truth value says so itself, a number by not being zero. -/
def taken (regs : Registers) (cond : Nat) : Except Fault Bool := do
  match ← regs.read cond with
  | .bool b => return b
  | v => return (← v.asFloat) != 0

end Registers

/-- A function that runs: the block it is in, the operations left there, and its registers. -/
structure Frame where
  routine : Routine
  block : Nat
  ops : List Op
  regs : Registers

namespace Frame

/-- The value of a phi on coming from a block. -/
def edgeValue (regs : Registers) (source : Option Nat) (dest : Nat) (incoming : List (Nat × Nat)) :
    Except Fault Value :=
  match source with
  | none => .error .entryPhi
  | some b =>
    match incoming.find? (·.2 == b) with
    | none => .error (.missingEdge dest b)
    | some (reg, _) => regs.read reg

/-- The values of the phis in front of the operations, and the operations behind them. -/
def takePhis (regs : Registers) (source : Option Nat) :
    List Op → Except Fault (List (Nat × Value) × List Op)
  | .phi dest incoming :: ops => do
    let v ← edgeValue regs source dest incoming
    let (vs, rest) ← takePhis regs source ops
    return ((dest, v) :: vs, rest)
  | ops => .ok ([], ops)

/-- Enters a block, from another one or at the start of a call. -/
def enterBlock (routine : Routine) (regs : Registers) (source : Option Nat) (block : Nat) :
    Except Fault Frame :=
  match routine.blocks[block]? with
  | none => .error (.missingBlock block)
  | some b => do
    let (values, ops) ← takePhis regs source b.ops
    let regs ← regs.writeAll values
    return ⟨routine, block, ops, regs⟩

/-- The registers at the start of a call: the arguments are the first ones. -/
def argumentRegisters (routine : Routine) (args : List Value) : Except Fault Registers :=
  let count := routine.regTypes.length
  if args.length ≤ count then
    .ok (args.map some ++ List.replicate (count - args.length) none).toArray
  else
    .error (.outsideFrame count)

/-- Enters a function with a body. -/
def enter (routine : Routine) (args : List Value) : Except Fault Frame := do
  let regs ← argumentRegisters routine args
  enterBlock routine regs none 0

end Frame

/-- A function that waits for another one, and the register that it wants the value in. -/
structure Caller where
  frame : Frame
  dest : Nat

/-- A machine in the middle of a call. -/
structure Config where
  machine : Machine
  frame : Frame
  callers : List Caller

/-- What a call starts with: a function without a body is done at once. -/
inductive Invocation where
  | returned (v : Value) (m : Machine)
  | body (routine : Routine)

namespace Machine

/-- Starts a call from inside a number of functions with bodies. -/
def invoke (p : Program) (depth : Nat) (m : Machine) (name : String) (args : List Value) :
    Except Fault Invocation :=
  match p.get? name with
  | none => .error (.unknownFunction name)
  | some r =>
    if r.arity ≠ args.length then .error (.wrongArity name r.arity args.length)
    else if r.isDeclaration then do
      let xs ← args.mapM Value.asFloat
      match Host.run? name xs with
      | some (x, text) => return .returned (.float x) { m with output := m.output ++ text }
      | none => throw (.noHost name)
    else if maxDepth ≤ depth then .error .depthExceeded
    else .ok (.body r)

/-- A zeroed record at the end of the memory. -/
def allocate (m : Machine) (l : Layout) (record : String) : Value × Machine :=
  (.ptr m.memory.size 0,
    { m with memory := m.memory.push ⟨record, List.replicate l.width 0⟩ })

/-- The number of cells of an allocation. -/
def widthAt (m : Machine) (alloc : Nat) : Nat :=
  match m.memory[alloc]? with
  | some a => a.cells.length
  | none => 0

/-- Puts a number into a cell. -/
def store (m : Machine) (alloc cell : Nat) (x : Float) : Machine :=
  { m with memory := m.memory.modify alloc fun a => { a with cells := a.cells.set cell x } }

end Machine

/-- What a step leads to. A failure keeps what the machine has done. -/
inductive Progress where
  | next (c : Config)
  | done (v : Value) (m : Machine)
  | failed (e : RunError) (m : Machine)

namespace Config

/-- The number of functions with bodies that run. -/
def depth (c : Config) : Nat :=
  c.callers.length + 1

/-- A failure in the running function. -/
def fail (c : Config) (fault : Fault) : Progress :=
  .failed ⟨fault, some c.frame.routine.name⟩ c.machine

/-- Goes on with other registers. -/
def withRegs (c : Config) (regs : Except Fault Registers) : Progress :=
  match regs with
  | .ok regs => .next { c with frame := { c.frame with regs } }
  | .error fault => c.fail fault

/-- Goes on with a value written into a register. -/
def write (c : Config) (dest : Nat) (v : Except Fault Value) : Progress :=
  c.withRegs (v.bind (c.frame.regs.write dest))

/-- Goes on in another block. -/
def goTo (c : Config) (block : Nat) : Progress :=
  match Frame.enterBlock c.frame.routine c.frame.regs (some c.frame.block) block with
  | .ok frame => .next { c with frame }
  | .error fault => c.fail fault

/-- Calls a function, whose value goes into a register. -/
def call (p : Program) (c : Config) (dest : Nat) (callee : String) (args : List Nat) : Progress :=
  match (args.mapM c.frame.regs.read).bind fun vs =>
      (Machine.invoke p c.depth c.machine callee vs).map fun i => (vs, i) with
  | .error fault => c.fail fault
  | .ok (_, .returned v m) => { c with machine := m }.write dest (.ok v)
  | .ok (vs, .body routine) =>
    match Frame.enter routine vs with
    | .ok frame => .next { c with frame, callers := ⟨c.frame, dest⟩ :: c.callers }
    | .error fault => .failed ⟨fault, some routine.name⟩ c.machine

/-- Gives a value to the function that waits for it, or ends the run with it. -/
def giveBack (c : Config) (v : Value) : Progress :=
  match c.callers with
  | [] => .done v c.machine
  | caller :: callers => { c with frame := caller.frame, callers }.write caller.dest (.ok v)

/-- Allocates a record, whose address goes into a register. -/
def alloca (p : Program) (c : Config) (dest : Nat) (record : String) : Progress :=
  match p.records[record]? with
  | none => c.fail (.unknownRecord record)
  | some l =>
    let ⟨m, frame, callers⟩ := c
    let (v, m) := m.allocate l record
    Config.write ⟨m, frame, callers⟩ dest (.ok v)

/-- Goes on with a number in a cell. -/
def store (c : Config) (x : Float) (alloc cell : Nat) : Progress :=
  let ⟨m, frame, callers⟩ := c
  .next ⟨m.store alloc cell x, frame, callers⟩

/-- Runs an operation. The step has been counted, and the frame's operations are those behind it. -/
def exec (p : Program) (c : Config) : Op → Progress
  | .const dest x => c.write dest (.ok (.float x))
  | .arith kind dest a b => c.write dest do
    let x ← c.frame.regs.readFloat a
    let y ← c.frame.regs.readFloat b
    return .float (kind.apply x y)
  | .truthy dest src => c.write dest do
    let x ← c.frame.regs.readFloat src
    return .bool (x != 0)
  | .call dest callee args => c.call p dest callee args
  | .alloca dest record => c.alloca p dest record
  | .fieldAddr dest base outer inner =>
    c.write dest (c.frame.regs.fieldAddr c.machine.widthAt base outer inner)
  | .store src addr =>
    match c.frame.regs.storeParts c.machine.widthAt src addr with
    | .ok (x, alloc, cell) => c.store x alloc cell
    | .error fault => c.fail fault
  | .phi _ _ => c.fail .latePhi
  | .jump target => c.goTo target
  | .branch cond thenBlock elseBlock =>
    match c.frame.regs.taken cond with
    | .ok b => c.goTo (if b then thenBlock else elseBlock)
    | .error fault => c.fail fault
  | .ret src =>
    match c.frame.regs.read src with
    | .ok v => c.giveBack v
    | .error fault => c.fail fault

/-- The configuration once an operation has been taken up: it is counted, and those behind it are
left. -/
def takeUp (c : Config) (rest : List Op) : Config :=
  { c with
    machine := { c.machine with steps := c.machine.steps + 1 }
    frame := { c.frame with ops := rest } }

/-- Takes up the next operation and runs it. A block that has none left has no end. -/
def step (p : Program) (c : Config) : Progress :=
  match c.frame.ops with
  | [] => c.fail (.fellOff c.frame.block)
  | op :: rest => (c.takeUp rest).exec p op

/-- What happens in place of a step once the budget is used up: the operation is counted, and not
run. There is a word for that count only if the budget is less than the greatest word. -/
def stop (budget : Nat) (c : Config) : RunError × Machine :=
  let name := some c.frame.routine.name
  match c.frame.ops with
  | [] => (⟨.fellOff c.frame.block, name⟩, c.machine)
  | _ :: rest => (⟨.budgetExhausted budget, name⟩, (c.takeUp rest).machine)

end Config

end PoseLang
