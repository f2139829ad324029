import PoseLang.Lowering.Builder
import PoseLang.Lowering.Context

/-!
# Lowering of expressions

The operations of an expression are added to the builder, operands first and from left to right, and
the register that holds its value is given back. Conditionals and loops open blocks of their own;
the value of a conditional is a phi of its branches, and so is the variable of a loop of its start
value and its next one. The expression's type is the type of its register.
-/

namespace PoseLang

/-- Computations on a builder, which a failure leaves as it was then. -/
abbrev Lower :=
  EStateM LowerError Builder

namespace Lower

/-- Runs a step of the builder that gives a value. -/
def step {α : Type} (f : Builder → α × Builder) : Lower α :=
  modifyGet f

/-- Adds an operation to the current block. -/
def emit (op : Op) : Lower Unit :=
  modify (·.emit op)

/-- A new register of a type. -/
def newReg (ty : Ty) : Lower Nat :=
  step (·.newReg ty)

/-- The block that operations are added to. -/
def current : Lower Nat :=
  return (← get).current

/-- The type of a register. -/
def typeOf (reg : Nat) : Lower Ty :=
  return ((← get).typeOf? reg).getD .f64

/-- Fails at an expression. -/
def failAt {α : Type} (cause : LowerError.Cause) (e : Expr) : Lower α :=
  throw (.atExpr cause e)

/-- Demands that the register of an expression has a type. -/
def expectType (reg : Nat) (expected : Ty) (e : Expr) : Lower Unit := do
  let found ← typeOf reg
  if found = expected then pure () else failAt (.typeMismatch expected found) e

/-- The number of fields of a record, which has to be registered. -/
def widthOf (c : Context) (record : String) (e : Expr) : Lower Nat :=
  match c.program.records[record]? with
  | some l => pure l.width
  | none => failAt (.allocationFailure (.noLayout record)) e

/-- The record that the register of an expression points to. -/
def recordOf (reg : Nat) (e : Expr) : Lower String := do
  match ← typeOf reg with
  | .ptr record => pure record
  | other => failAt (.allocationFailure (.notStorage other)) e

end Lower

namespace Expr

open Lower

mutual

/-- Adds the operations of an expression, and gives the register of its value. -/
def lower (c : Context) : Expr → Lower Nat
  | .num _ x => step (·.const x)
  | .var loc name => do
    match (← get).lookup? name with
    | some reg => pure reg
    | none => failAt (.unboundVariable name) (.var loc name)
  | .binary loc op left right => do
    let l ← lower c left
    let r ← lower c right
    expectType l .f64 left
    expectType r .f64 right
    let dest ← newReg .f64
    match Arith.ofChar? op with
    | some kind =>
      emit (.arith kind dest l r)
      pure dest
    | none => failAt (.unsupportedOperator op) (.binary loc op left right)
  | .call loc callee args => do
    match c.resolve? callee with
    | none => failAt (.unknownFunction callee) (.call loc callee args)
    | some target =>
      let s := target.signature
      if s.arity ≠ args.length then
        failAt (.arityMismatch callee s.arity args.length) (.call loc callee args)
      else
        let regs ← lowerArgs c args
        match target with
        | .prototype s => modify (·.queue s)
        | .routine _ => pure ()
        let dest ← newReg s.ret
        emit (.call dest callee regs)
        pure dest
  | .cond _ condition thenBranch elseBranch => do
    let value ← lower c condition
    expectType value .f64 condition
    let test ← newReg .bool
    emit (.truthy test value)
    let thenBlock ← step (·.appendBlock "then")
    let elseBlock ← step (·.appendBlock "else")
    let merge ← step (·.appendBlock "ifcont")
    emit (.branch test thenBlock elseBlock)
    modify (·.position thenBlock)
    let thenValue ← lower c thenBranch
    emit (.jump merge)
    let thenEnd ← current
    modify (·.position elseBlock)
    let elseValue ← lower c elseBranch
    let ty ← typeOf thenValue
    expectType elseValue ty elseBranch
    emit (.jump merge)
    let elseEnd ← current
    modify (·.position merge)
    let dest ← newReg ty
    emit (.phi dest [(thenValue, thenEnd), (elseValue, elseEnd)])
    pure dest
  | .loop _ v start test stepBy body => do
    let first ← lower c start
    expectType first .f64 start
    let before ← current
    let block ← step (·.appendBlock "loop")
    emit (.jump block)
    modify (·.position block)
    let counter ← newReg .f64
    emit (.phi counter [(first, before)])
    let shadowed ← step (·.bind v counter)
    let _ ← lower c body
    let increment ← lowerStep c stepBy
    let next ← newReg .f64
    emit (.arith .add next counter increment)
    let value ← lower c test
    expectType value .f64 test
    let again ← newReg .bool
    emit (.truthy again value)
    let last ← current
    let after ← step (·.appendBlock "afterloop")
    emit (.branch again block after)
    modify (·.addPhiEdge block counter (next, last))
    modify (·.position after)
    modify (·.restore v shadowed)
    step (·.const 0)
  | .alloc loc record => do
    let _ ← widthOf c record (.alloc loc record)
    let dest ← newReg (.ptr record)
    emit (.alloca dest record)
    pure dest
  | .construct loc destination fields => do
    let base ← lower c destination
    let record ← recordOf base destination
    let width ← widthOf c record destination
    lowerFields c (.construct loc destination fields) base record width fields
    pure base

/-- Adds the operations of arguments, which have to be numbers, and gives their registers. -/
def lowerArgs (c : Context) : List Expr → Lower (List Nat)
  | [] => pure []
  | e :: es => do
    let reg ← lower c e
    expectType reg .f64 e
    let regs ← lowerArgs c es
    pure (reg :: regs)

/-- Adds the operations of a loop's step, which has to be a number; a missing step is one. -/
def lowerStep (c : Context) : Option Expr → Lower Nat
  | none => step (·.const 1)
  | some e => do
    let reg ← lower c e
    expectType reg .f64 e
    pure reg

/-- Adds the operations that put values into fields of a record. A field outside the record fails at
the whole construction. -/
def lowerFields (c : Context) (whole : Expr) (base : Nat) (record : String) (width : Nat) :
    List (Nat × Expr) → Lower Unit
  | [] => pure ()
  | (i, e) :: fields => do
    if width ≤ i then
      failAt (.allocationFailure (.fieldOutside i record width)) whole
    else
      let value ← lower c e
      expectType value .f64 e
      let addr ← newReg (.ptr record)
      emit (.fieldAddr addr base 0 i)
      emit (.store value addr)
      lowerFields c whole base record width fields

end

end Expr

end PoseLang
