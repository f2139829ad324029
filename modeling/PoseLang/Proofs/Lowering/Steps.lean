import Mathlib.Logic.Relation
import PoseLang.Proofs.Lowering.Growth

/-!
# Lowering step by step

Whatever the expression, lowering it takes the builder through steps of a few kinds (`Builder.Step`): a
register, an operation, a call with what it needs, a block, and changes of what is current and of what
names stand for. How the forms of expressions put these together is told once (`Lowered.steps`). What
holds across each step and adds up along several of them then holds across lowering, and needs no
induction on expressions of its own.
-/

namespace PoseLang

/-- Whether the operation is a call. -/
def Op.isCall : Op → Bool
  | .call _ _ _ => true
  | _ => false

namespace Builder

/-- The labels that blocks of conditionals and loops are asked for. -/
def loweredLabels : List String :=
  ["then", "else", "ifcont", "loop", "afterloop"]

/-- One step of a builder into which an expression is lowered. -/
inductive Step (c : Context) (b : Builder) : Builder → Prop
  | newReg (ty : Ty) : Step c b (b.newReg ty).2
  | emit (op : Op) (plain : op.isCall = false) : Step c b (b.emit op)
  /-- A call, behind its arguments, of a target that is known and takes as many. -/
  | call {callee : String} {target : Target} {regs : List Nat}
    (resolved : c.resolve? callee = some target)
    (arity : target.signature.arity = regs.length) :
    Step c b ((b.need target).put target.signature.ret (.call · callee regs))
  | appendBlock (label : String) (known : label ∈ loweredLabels) : Step c b (b.appendBlock label).2
  | position (block : Nat) : Step c b (b.position block)
  | addPhiEdge (block dest : Nat) (edge : Nat × Nat) : Step c b (b.addPhiEdge block dest edge)
  | bind (name : String) (reg : Nat) : Step c b (b.bind name reg).2
  | restore (name : String) (previous : Option Nat) : Step c b (b.restore name previous)

/-- Any number of steps. -/
abbrev Steps (c : Context) : Builder → Builder → Prop :=
  Relation.ReflTransGen (Step c)

namespace Steps

open Relation (ReflTransGen)

variable {c : Context} {b : Builder}

theorem put (ty : Ty) {op : Nat → Op} (plain : (op b.regTypes.length).isCall = false) :
    Steps c b (b.put ty op) :=
  (ReflTransGen.single (.newReg ty)).tail (.emit _ plain)

theorem jumpTo (target next : Nat) : Steps c b (b.jumpTo target next) :=
  (ReflTransGen.single (.emit _ rfl)).tail (.position next)

theorem openBranches (value : Nat) : Steps c b (b.openBranches value) := by
  have tested : Steps c b (b.put .bool (.truthy · value)) := put _ rfl
  have forked := ((tested.tail (.appendBlock "then" (by decide))).tail
    (.appendBlock "else" (by decide))).tail (.appendBlock "ifcont" (by decide))
  exact (forked.tail (.emit _ rfl)).tail (.position b.blocks.length)

theorem joinBranches (merge : Nat) (ty : Ty) (edges : List (Nat × Nat)) :
    Steps c b (b.joinBranches merge ty edges) :=
  (jumpTo merge merge).trans (put ty rfl)

theorem openLoop (v : String) (first : Nat) : Steps c b (b.openLoop v first) := by
  have opened : Steps c b (b.appendBlock "loop").2 := .single (.appendBlock _ (by decide))
  have counted := opened.trans (joinBranches b.blocks.length .f64 [(first, b.current)])
  exact counted.tail (.bind v b.regTypes.length)

theorem closeLoop (v : String) (shadowed : Option Nat) (block counter next value : Nat) :
    Steps c b (b.closeLoop v shadowed block counter next value) := by
  have tested : Steps c b (b.put .bool (.truthy · value)) := put _ rfl
  have branched := (tested.tail (.appendBlock "afterloop" (by decide))).tail
    (.emit (.branch b.regTypes.length block b.blocks.length) rfl)
  have edged := branched.tail (.addPhiEdge block counter (next, b.current))
  exact (edged.tail (.position b.blocks.length)).tail (.restore v shadowed)

theorem storeField (record : String) (base value field : Nat) :
    Steps c b (b.storeField record base value field) :=
  (put _ rfl).tail (.emit _ rfl)

end Steps

end Builder

section

open Builder

variable {c : Context}

mutual

/-- Lowering an expression is a number of steps. -/
theorem Lowered.steps : ∀ {e : Expr} {b b' : Builder} {r : Nat}, Lowered c e b r b' → Steps c b b'
  | _, _, _, _, .num => Steps.put _ rfl
  | _, _, _, _, .var _ => .refl
  | _, _, _, _, .binary first second _ _ _ =>
    first.steps.trans (second.steps.trans (Steps.put _ rfl))
  | _, _, _, _, .call resolved arity given =>
    given.steps.tail (.call resolved (arity.trans given.length_eq.symm))
  | _, _, _, _, .cond test _ first second _ => by
    have branched := test.steps.trans ((Steps.openBranches _).trans first.steps)
    have joined := branched.trans ((Steps.jumpTo _ _).trans second.steps)
    exact joined.trans (Steps.joinBranches _ _ _)
  | _, _, _, _, .loop started _ ran stepped tested _ closed => by
    have body := started.steps.trans ((Steps.openLoop _ _).trans (ran.steps.trans stepped.steps))
    have turned := body.trans ((Steps.put _ rfl).trans tested.steps)
    subst closed
    exact (turned.trans (Steps.closeLoop _ _ _ _ _ _)).trans (Steps.put _ rfl)
  | _, _, _, _, .alloc _ => Steps.put _ rfl
  | _, _, _, _, .construct storage _ _ filled => storage.steps.trans filled.steps

theorem LoweredArgs.steps : ∀ {es : List Expr} {b b' : Builder} {regs : List Nat},
    LoweredArgs c es b regs b' → Steps c b b'
  | _, _, _, _, .nil => .refl
  | _, _, _, _, .cons head _ tail => head.steps.trans tail.steps

theorem LoweredStep.steps : ∀ {stepBy : Option Expr} {b b' : Builder} {r : Nat},
    LoweredStep c stepBy b r b' → Steps c b b'
  | _, _, _, _, .one => Steps.put _ rfl
  | _, _, _, _, .given value _ => value.steps

theorem LoweredFields.steps : ∀ {base width : Nat} {record : String} {fields : List (Nat × Expr)}
    {b b' : Builder}, LoweredFields c base record width fields b b' → Steps c b b'
  | _, _, _, _, _, _, .nil => .refl
  | _, _, _, _, _, _, .cons _ head _ tail =>
    head.steps.trans ((Steps.storeField _ _ _ _).trans tail.steps)

end

end

end PoseLang
