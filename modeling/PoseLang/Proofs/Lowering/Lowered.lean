import PoseLang.Lowering.Definition

/-!
# What a successful lowering did

Lowering runs in a monad that may fail. A run that succeeded has gone through a chain of builders,
and `Lowered c e b reg b'` names them: the expression `e`, lowered into `b`, left `b'` with its
value in `reg`. Each rule is one form of expression, its premises are the parts in the order in
which they were lowered, and the checks that were passed on the way.

`Expr.lowered_of_lower` reads a successful run as such a derivation. Whatever is proved of lowered
code goes by these rules and never opens the monad again.
-/

namespace PoseLang

namespace Builder

/-- The type of a register; one that there is not counts as a number. -/
def typeAt (b : Builder) (reg : Nat) : Ty :=
  (b.typeOf? reg).getD .f64

/-- Fills a new register of a type by an operation. -/
def put (b : Builder) (ty : Ty) (op : Nat → Op) : Builder :=
  (b.newReg ty).2.emit (op b.regTypes.length)

/-- Notes what a call needs: a target that the program lacks has to be declared. -/
def need (b : Builder) : Target → Builder
  | .routine _ => b
  | .prototype s => b.queue s

/-- Ends the current block with a jump and goes on in a block. -/
def jumpTo (b : Builder) (target next : Nat) : Builder :=
  (b.emit (.jump target)).position next

/-- Branches on a number: opens the blocks of a conditional and goes on in the first of them. -/
def openBranches (b : Builder) (value : Nat) : Builder :=
  let tested := b.put .bool (.truthy · value)
  let forked := (((tested.appendBlock "then").2.appendBlock "else").2.appendBlock "ifcont").2
  (forked.emit (.branch b.regTypes.length b.blocks.length (b.blocks.length + 1))).position
    b.blocks.length

/-- Joins the branches of a conditional, the second of which ends here, in a new register. -/
def joinBranches (b : Builder) (merge : Nat) (ty : Ty) (edges : List (Nat × Nat)) : Builder :=
  (b.jumpTo merge merge).put ty (.phi · edges)

/-- Opens the block of a loop, with the variable in a new register, and goes on in it. -/
def openLoop (b : Builder) (v : String) (first : Nat) : Builder :=
  let opened := (b.appendBlock "loop").2.jumpTo b.blocks.length b.blocks.length
  ((opened.put .f64 (.phi · [(first, b.current)])).bind v b.regTypes.length).2

/-- Closes the block of a loop behind its test, and goes on behind the loop, where the variable
stands for what it stood for before. -/
def closeLoop (b : Builder) (v : String) (shadowed : Option Nat) (block counter next value : Nat) :
    Builder :=
  let tested := b.put .bool (.truthy · value)
  let branched := (tested.appendBlock "afterloop").2.emit
    (.branch b.regTypes.length block b.blocks.length)
  ((branched.addPhiEdge block counter (next, b.current)).position b.blocks.length).restore v
    shadowed

/-- Puts a number into a field of a record. -/
def storeField (b : Builder) (record : String) (base value field : Nat) : Builder :=
  (b.put (.ptr record) (.fieldAddr · base 0 field)).emit (.store value b.regTypes.length)

/-! ### The parts of a builder behind these steps -/

section

variable (b : Builder)

@[simp] theorem newReg_blocks (ty : Ty) : (b.newReg ty).2.blocks = b.blocks := rfl

@[simp] theorem appendBlock_fst (label : String) : (b.appendBlock label).1 = b.blocks.length := rfl

@[simp] theorem appendBlock_blocks_length (label : String) :
    (b.appendBlock label).2.blocks.length = b.blocks.length + 1 := by
  simp [appendBlock]

@[simp] theorem emit_blocks_length (op : Op) : (b.emit op).blocks.length = b.blocks.length := by
  simp [emit]

@[simp] theorem put_blocks_length (ty : Ty) (op : Nat → Op) :
    (b.put ty op).blocks.length = b.blocks.length := by
  simp [put]

@[simp] theorem put_regTypes (ty : Ty) (op : Nat → Op) :
    (b.put ty op).regTypes = b.regTypes ++ [ty] := rfl

@[simp] theorem put_current (ty : Ty) (op : Nat → Op) : (b.put ty op).current = b.current := rfl

@[simp] theorem queue_blocks (s : Signature) : (b.queue s).blocks = b.blocks := by
  unfold queue
  split <;> rfl

@[simp] theorem queue_regTypes (s : Signature) : (b.queue s).regTypes = b.regTypes := by
  unfold queue
  split <;> rfl

@[simp] theorem queue_current (s : Signature) : (b.queue s).current = b.current := by
  unfold queue
  split <;> rfl

@[simp] theorem queue_bindings (s : Signature) : (b.queue s).bindings = b.bindings := by
  unfold queue
  split <;> rfl

@[simp] theorem need_blocks (t : Target) : (b.need t).blocks = b.blocks := by
  cases t <;> simp [need]

@[simp] theorem need_regTypes (t : Target) : (b.need t).regTypes = b.regTypes := by
  cases t <;> simp [need]

@[simp] theorem need_current (t : Target) : (b.need t).current = b.current := by
  cases t <;> simp [need]

@[simp] theorem need_bindings (t : Target) : (b.need t).bindings = b.bindings := by
  cases t <;> simp [need]

@[simp] theorem restore_blocks (v : String) (previous : Option Nat) :
    (b.restore v previous).blocks = b.blocks := by
  cases previous <;> rfl

@[simp] theorem restore_regTypes (v : String) (previous : Option Nat) :
    (b.restore v previous).regTypes = b.regTypes := by
  cases previous <;> rfl

@[simp] theorem restore_current (v : String) (previous : Option Nat) :
    (b.restore v previous).current = b.current := by
  cases previous <;> rfl

@[simp] theorem restore_declarations (v : String) (previous : Option Nat) :
    (b.restore v previous).declarations = b.declarations := by
  cases previous <;> rfl

@[simp] theorem jumpTo_blocks_length (target next : Nat) :
    (b.jumpTo target next).blocks.length = b.blocks.length := by
  simp [jumpTo, position]

@[simp] theorem jumpTo_current (target next : Nat) : (b.jumpTo target next).current = next := rfl

@[simp] theorem jumpTo_bindings (target next : Nat) :
    (b.jumpTo target next).bindings = b.bindings := rfl

@[simp] theorem openBranches_blocks_length (value : Nat) :
    (b.openBranches value).blocks.length = b.blocks.length + 3 := by
  simp [openBranches, position]

@[simp] theorem openBranches_regTypes (value : Nat) :
    (b.openBranches value).regTypes = b.regTypes ++ [.bool] := rfl

@[simp] theorem openBranches_current (value : Nat) :
    (b.openBranches value).current = b.blocks.length := rfl

@[simp] theorem openBranches_bindings (value : Nat) :
    (b.openBranches value).bindings = b.bindings := rfl

@[simp] theorem joinBranches_blocks_length (merge : Nat) (ty : Ty) (edges : List (Nat × Nat)) :
    (b.joinBranches merge ty edges).blocks.length = b.blocks.length := by
  simp [joinBranches]

@[simp] theorem joinBranches_regTypes (merge : Nat) (ty : Ty) (edges : List (Nat × Nat)) :
    (b.joinBranches merge ty edges).regTypes = b.regTypes ++ [ty] := rfl

@[simp] theorem joinBranches_current (merge : Nat) (ty : Ty) (edges : List (Nat × Nat)) :
    (b.joinBranches merge ty edges).current = merge := rfl

@[simp] theorem joinBranches_bindings (merge : Nat) (ty : Ty) (edges : List (Nat × Nat)) :
    (b.joinBranches merge ty edges).bindings = b.bindings := rfl

@[simp] theorem openLoop_blocks_length (v : String) (first : Nat) :
    (b.openLoop v first).blocks.length = b.blocks.length + 1 := by
  simp [openLoop, bind]

@[simp] theorem openLoop_regTypes (v : String) (first : Nat) :
    (b.openLoop v first).regTypes = b.regTypes ++ [.f64] := rfl

@[simp] theorem openLoop_current (v : String) (first : Nat) :
    (b.openLoop v first).current = b.blocks.length := rfl

@[simp] theorem openLoop_bindings (v : String) (first : Nat) :
    (b.openLoop v first).bindings = b.bindings.insert v b.regTypes.length := rfl

@[simp] theorem closeLoop_blocks_length (v : String) (shadowed : Option Nat)
    (block counter next value : Nat) :
    (b.closeLoop v shadowed block counter next value).blocks.length = b.blocks.length + 1 := by
  simp [closeLoop, position, addPhiEdge]

@[simp] theorem closeLoop_regTypes (v : String) (shadowed : Option Nat)
    (block counter next value : Nat) :
    (b.closeLoop v shadowed block counter next value).regTypes = b.regTypes ++ [.bool] :=
  restore_regTypes _ v shadowed

@[simp] theorem closeLoop_current (v : String) (shadowed : Option Nat)
    (block counter next value : Nat) :
    (b.closeLoop v shadowed block counter next value).current = b.blocks.length :=
  restore_current _ v shadowed

@[simp] theorem storeField_blocks_length (record : String) (base value field : Nat) :
    (b.storeField record base value field).blocks.length = b.blocks.length := by
  simp [storeField]

@[simp] theorem storeField_current (record : String) (base value field : Nat) :
    (b.storeField record base value field).current = b.current := rfl

/-- What a name stood for before it was bound is what it stands for again. -/
theorem restore_bindings {m : Std.ExtTreeMap String Nat} {v : String} {reg : Nat}
    (h : b.bindings = m.insert v reg) : (b.restore v m[v]?).bindings = m := by
  apply Std.ExtTreeMap.ext_getElem?
  intro name
  cases hv : m[v]? with
  | none =>
    simp only [restore, h, Std.ExtTreeMap.getElem?_erase, Std.ExtTreeMap.getElem?_insert]
    grind
  | some old =>
    simp only [restore, h, Std.ExtTreeMap.getElem?_insert]
    grind

/-- Behind a loop its variable stands for what it stood for before. -/
theorem closeLoop_bindings {m : Std.ExtTreeMap String Nat} {v : String} {reg : Nat}
    (block counter next value : Nat) (h : b.bindings = m.insert v reg) :
    (b.closeLoop v m[v]? block counter next value).bindings = m :=
  restore_bindings _ h

end

end Builder

mutual

/-- An expression, lowered into a builder, leaves a builder with the value in a register. -/
inductive Lowered (c : Context) : Expr → Builder → Nat → Builder → Prop
  | num {loc : Option Location} {x : Float} {b : Builder} :
    Lowered c (.num loc x) b b.regTypes.length (b.put .f64 (.const · x))
  | var {loc : Option Location} {name : String} {b : Builder} {reg : Nat}
    (bound : b.lookup? name = some reg) :
    Lowered c (.var loc name) b reg b
  | binary {loc : Option Location} {op : Char} {kind : Arith} {left right : Expr}
    {b b₁ b₂ : Builder} {l r : Nat}
    (first : Lowered c left b l b₁) (second : Lowered c right b₁ r b₂)
    (leftTy : b₂.typeAt l = .f64) (rightTy : b₂.typeAt r = .f64)
    (known : Arith.ofChar? op = some kind) :
    Lowered c (.binary loc op left right) b b₂.regTypes.length
      (b₂.put .f64 (.arith kind · l r))
  | call {loc : Option Location} {callee : String} {args : List Expr} {target : Target}
    {b b₁ : Builder} {regs : List Nat}
    (resolved : c.resolve? callee = some target)
    (arity : target.signature.arity = args.length)
    (given : LoweredArgs c args b regs b₁) :
    Lowered c (.call loc callee args) b (b₁.need target).regTypes.length
      ((b₁.need target).put target.signature.ret (.call · callee regs))
  | cond {loc : Option Location} {condition thenBranch elseBranch : Expr}
    {b b₁ b₂ b₃ : Builder} {value t e : Nat}
    (test : Lowered c condition b value b₁) (testTy : b₁.typeAt value = .f64)
    (first : Lowered c thenBranch (b₁.openBranches value) t b₂)
    (second : Lowered c elseBranch (b₂.jumpTo (b₁.blocks.length + 2) (b₁.blocks.length + 1)) e b₃)
    (sameTy : b₃.typeAt e = b₃.typeAt t) :
    Lowered c (.cond loc condition thenBranch elseBranch) b b₃.regTypes.length
      (b₃.joinBranches (b₁.blocks.length + 2) (b₃.typeAt t) [(t, b₂.current), (e, b₃.current)])
  | loop {loc : Option Location} {v : String} {start test : Expr} {stepBy : Option Expr}
    {body : Expr} {b b₁ b₂ b₃ b₄ b₅ : Builder} {first result increment value : Nat}
    (started : Lowered c start b first b₁) (firstTy : b₁.typeAt first = .f64)
    (ran : Lowered c body (b₁.openLoop v first) result b₂)
    (stepped : LoweredStep c stepBy b₂ increment b₃)
    (tested : Lowered c test (b₃.put .f64 (.arith .add · b₁.regTypes.length increment)) value b₄)
    (valueTy : b₄.typeAt value = .f64)
    (closed : b₅ = b₄.closeLoop v (b₁.lookup? v) b₁.blocks.length b₁.regTypes.length
      b₃.regTypes.length value) :
    Lowered c (.loop loc v start test stepBy body) b b₅.regTypes.length
      (b₅.put .f64 (.const · 0))
  | alloc {loc : Option Location} {record : String} {layout : Layout} {b : Builder}
    (registered : c.program.records[record]? = some layout) :
    Lowered c (.alloc loc record) b b.regTypes.length (b.put (.ptr record) (.alloca · record))
  | construct {loc : Option Location} {destination : Expr} {fields : List (Nat × Expr)}
    {record : String} {layout : Layout} {b b₁ b₂ : Builder} {base : Nat}
    (storage : Lowered c destination b base b₁) (baseTy : b₁.typeAt base = .ptr record)
    (registered : c.program.records[record]? = some layout)
    (filled : LoweredFields c base record layout.width fields b₁ b₂) :
    Lowered c (.construct loc destination fields) b base b₂

/-- Arguments, lowered from left to right, leave a builder with their values in registers. -/
inductive LoweredArgs (c : Context) : List Expr → Builder → List Nat → Builder → Prop
  | nil {b : Builder} : LoweredArgs c [] b [] b
  | cons {e : Expr} {es : List Expr} {b b₁ b₂ : Builder} {reg : Nat} {regs : List Nat}
    (head : Lowered c e b reg b₁) (headTy : b₁.typeAt reg = .f64)
    (tail : LoweredArgs c es b₁ regs b₂) :
    LoweredArgs c (e :: es) b (reg :: regs) b₂

/-- The step of a loop, lowered, leaves a builder with its value in a register. -/
inductive LoweredStep (c : Context) : Option Expr → Builder → Nat → Builder → Prop
  | one {b : Builder} : LoweredStep c none b b.regTypes.length (b.put .f64 (.const · 1))
  | given {e : Expr} {b b₁ : Builder} {reg : Nat}
    (value : Lowered c e b reg b₁) (valueTy : b₁.typeAt reg = .f64) :
    LoweredStep c (some e) b reg b₁

/-- Field values, lowered and stored one after the other, leave a builder. -/
inductive LoweredFields (c : Context) :
    Nat → String → Nat → List (Nat × Expr) → Builder → Builder → Prop
  | nil {base width : Nat} {record : String} {b : Builder} :
    LoweredFields c base record width [] b b
  | cons {base width : Nat} {record : String} {i : Nat} {e : Expr} {fields : List (Nat × Expr)}
    {b b₁ b₂ : Builder} {value : Nat}
    (inside : i < width) (head : Lowered c e b value b₁) (headTy : b₁.typeAt value = .f64)
    (tail : LoweredFields c base record width fields (b₁.storeField record base value i) b₂) :
    LoweredFields c base record width ((i, e) :: fields) b b₂

end

/-! ## Reading a run -/

namespace Lower

variable {α β : Type} {b b' : Builder}

theorem step_bind (f : Builder → α × Builder) (g : α → Lower β) :
    (step f >>= g) b = g (f b).1 (f b).2 := rfl

theorem newReg_bind (ty : Ty) (g : Nat → Lower β) :
    (newReg ty >>= g) b = g b.regTypes.length (b.newReg ty).2 := rfl

theorem emit_bind (op : Op) (g : Unit → Lower β) : (emit op >>= g) b = g () (b.emit op) := rfl

theorem modify_bind (f : Builder → Builder) (g : Unit → Lower β) :
    ((modify f : Lower Unit) >>= g) b = g () (f b) := rfl

theorem current_bind (g : Nat → Lower β) : (current >>= g) b = g b.current b := rfl

theorem typeOf_bind (reg : Nat) (g : Ty → Lower β) :
    (typeOf reg >>= g) b = g (b.typeAt reg) b := rfl

theorem bind_ok {x : Lower α} {f : α → Lower β} {r : β} :
    (x >>= f) b = .ok r b' ↔ ∃ a b₁, x b = .ok a b₁ ∧ f a b₁ = .ok r b' := by
  simp only [bind, EStateM.bind]
  cases h : x b with
  | ok a b₁ =>
    constructor
    · intro hf
      exact ⟨a, b₁, rfl, hf⟩
    · rintro ⟨_, _, hx, hf⟩
      cases hx
      exact hf
  | error e b₁ => simp

theorem pure_ok {a r : α} : (pure a : Lower α) b = .ok r b' ↔ a = r ∧ b = b' := by
  change EStateM.Result.ok a b = _ ↔ _
  simp

theorem step_ok {f : Builder → α × Builder} {r : α} :
    step f b = .ok r b' ↔ (f b).1 = r ∧ (f b).2 = b' := by
  change EStateM.Result.ok (f b).1 (f b).2 = _ ↔ _
  simp

theorem failAt_ok {cause : LowerError.Cause} {e : Expr} {r : α} :
    ¬ (failAt cause e : Lower α) b = .ok r b' := by
  change ¬ EStateM.Result.error _ b = _
  simp

theorem expectType_ok {reg : Nat} {expected : Ty} {e : Expr} {r : Unit} :
    expectType reg expected e b = .ok r b' ↔ b.typeAt reg = expected ∧ b = b' := by
  unfold expectType
  rw [typeOf_bind]
  split
  next h => simp [pure_ok, h]
  next h => simp [failAt_ok, h]

theorem widthOf_ok {c : Context} {record : String} {e : Expr} {r : Nat} :
    widthOf c record e b = .ok r b' ↔
      (∃ l, c.program.records[record]? = some l ∧ l.width = r) ∧ b = b' := by
  unfold widthOf
  cases c.program.records[record]? with
  | some l => simp [pure_ok]
  | none => simp [failAt_ok]

theorem recordOf_ok {reg : Nat} {e : Expr} {r : String} :
    recordOf reg e b = .ok r b' ↔ b.typeAt reg = .ptr r ∧ b = b' := by
  unfold recordOf
  rw [typeOf_bind]
  cases b.typeAt reg with
  | ptr record => simp [pure_ok]
  | f64 => simp [failAt_ok]
  | bool => simp [failAt_ok]

end Lower

namespace Expr

open Lower

variable {c : Context}

mutual

/-- A successful run of lowering is a derivation. -/
theorem lowered_of_lower : ∀ (e : Expr) {b b' : Builder} {r : Nat},
    e.lower c b = .ok r b' → Lowered c e b r b'
  | .num loc x, b, b', r, h => by
    obtain ⟨rfl, rfl⟩ := step_ok.mp h
    exact .num
  | .var loc name, b, b', r, h => by
    change (match b.lookup? name with
      | some reg => pure reg
      | none => failAt (.unboundVariable name) (.var loc name) : Lower Nat) b = _ at h
    cases hreg : b.lookup? name with
    | some reg =>
      rw [hreg] at h
      obtain ⟨rfl, rfl⟩ := pure_ok.mp h
      exact .var hreg
    | none =>
      rw [hreg] at h
      exact (failAt_ok h).elim
  | .binary loc op left right, b, b', r, h => by
    simp only [lower, bind_ok, expectType_ok, newReg_bind] at h
    obtain ⟨l, b₁, hl, r, b₂, hr, _, _, ⟨tl, rfl⟩, _, _, ⟨tr, rfl⟩, h⟩ := h
    cases hk : Arith.ofChar? op with
    | some kind =>
      simp only [hk, emit_bind, pure_ok] at h
      obtain ⟨rfl, rfl⟩ := h
      exact .binary (lowered_of_lower left hl) (lowered_of_lower right hr) tl tr hk
    | none =>
      rw [hk] at h
      exact (failAt_ok h).elim
  | .call loc callee args, b, b', r, h => by
    simp only [lower] at h
    cases htarget : c.resolve? callee with
    | none =>
      rw [htarget] at h
      exact (failAt_ok h).elim
    | some target =>
      simp only [htarget] at h
      by_cases harity : target.signature.arity = args.length
      · rw [if_neg (not_not_intro harity), bind_ok] at h
        obtain ⟨regs, b₁, hargs, h⟩ := h
        have given := loweredArgs_of_lowerArgs args hargs
        cases target with
        | routine s =>
          simp only [newReg_bind, emit_bind, pure_ok] at h
          obtain ⟨rfl, rfl⟩ := h
          exact .call htarget harity given
        | prototype s =>
          simp only [modify_bind, newReg_bind, emit_bind, pure_ok] at h
          obtain ⟨rfl, rfl⟩ := h
          exact .call htarget harity given
      · rw [if_pos harity] at h
        exact (failAt_ok h).elim
  | .cond loc condition thenBranch elseBranch, b, b', r, h => by
    simp only [lower, bind_ok, expectType_ok, newReg_bind, step_bind, emit_bind, modify_bind,
      current_bind, typeOf_bind, pure_ok] at h
    obtain ⟨v, b₁, hv, _, _, ⟨tv, rfl⟩, t, b₂, ht, e, b₃, he, _, _, ⟨te, rfl⟩, rfl, rfl⟩ := h
    simp only [Builder.appendBlock_fst, Builder.appendBlock_blocks_length, Builder.emit_blocks_length,
      Builder.newReg_blocks] at ht he ⊢
    exact .cond (lowered_of_lower condition hv) tv (lowered_of_lower thenBranch ht)
      (lowered_of_lower elseBranch he) te
  | .loop loc v start test stepBy body, b, b', r, h => by
    simp only [lower, bind_ok, expectType_ok, newReg_bind, step_bind, emit_bind, modify_bind,
      current_bind, step_ok] at h
    obtain ⟨first, b₁, hfirst, _, _, ⟨tfirst, rfl⟩, result, b₂, hbody, increment, b₃, hstep,
      value, b₄, htest, _, _, ⟨ttest, rfl⟩, rfl, rfl⟩ := h
    simp only [Builder.appendBlock_fst, Builder.emit_blocks_length, Builder.newReg_blocks] at hbody ⊢
    exact .loop (lowered_of_lower start hfirst) tfirst (lowered_of_lower body hbody)
      (loweredStep_of_lowerStep stepBy hstep) (lowered_of_lower test htest) ttest rfl
  | .alloc loc record, b, b', r, h => by
    simp only [lower, bind_ok, widthOf_ok, newReg_bind, emit_bind, pure_ok] at h
    obtain ⟨_, _, ⟨⟨l, hl, rfl⟩, rfl⟩, rfl, rfl⟩ := h
    exact .alloc hl
  | .construct loc destination fields, b, b', r, h => by
    simp only [lower, bind_ok, recordOf_ok, widthOf_ok, pure_ok] at h
    obtain ⟨base, b₁, hbase, record, _, ⟨tbase, rfl⟩, _, _, ⟨⟨l, hl, rfl⟩, rfl⟩, _, _, hfields,
      rfl, rfl⟩ := h
    exact .construct (lowered_of_lower destination hbase) tbase hl
      (loweredFields_of_lowerFields fields hfields)

theorem loweredArgs_of_lowerArgs : ∀ (es : List Expr) {b b' : Builder} {regs : List Nat},
    lowerArgs c es b = .ok regs b' → LoweredArgs c es b regs b'
  | [], b, b', regs, h => by
    obtain ⟨rfl, rfl⟩ := pure_ok.mp h
    exact .nil
  | e :: es, b, b', regs, h => by
    simp only [lowerArgs, bind_ok, expectType_ok, pure_ok] at h
    obtain ⟨reg, b₁, he, _, _, ⟨te, rfl⟩, regs, b₂, hes, rfl, rfl⟩ := h
    exact .cons (lowered_of_lower e he) te (loweredArgs_of_lowerArgs es hes)

theorem loweredStep_of_lowerStep : ∀ (stepBy : Option Expr) {b b' : Builder} {r : Nat},
    lowerStep c stepBy b = .ok r b' → LoweredStep c stepBy b r b'
  | none, b, b', r, h => by
    obtain ⟨rfl, rfl⟩ := step_ok.mp h
    exact .one
  | some e, b, b', r, h => by
    simp only [lowerStep, bind_ok, expectType_ok, pure_ok] at h
    obtain ⟨reg, b₁, he, _, _, ⟨te, rfl⟩, rfl, rfl⟩ := h
    exact .given (lowered_of_lower e he) te

theorem loweredFields_of_lowerFields : ∀ (fields : List (Nat × Expr)) {whole : Expr} {base : Nat}
    {record : String} {width : Nat} {b b' : Builder} {r : Unit},
    lowerFields c whole base record width fields b = .ok r b' →
      LoweredFields c base record width fields b b'
  | [], whole, base, record, width, b, b', r, h => by
    obtain ⟨_, rfl⟩ := pure_ok.mp h
    exact .nil
  | (i, e) :: fields, whole, base, record, width, b, b', r, h => by
    rw [lowerFields] at h
    split at h
    next => exact (failAt_ok h).elim
    next hi =>
      simp only [bind_ok, expectType_ok, newReg_bind, emit_bind] at h
      obtain ⟨value, b₁, he, _, _, ⟨te, rfl⟩, hrest⟩ := h
      exact .cons (Nat.lt_of_not_le hi) (lowered_of_lower e he) te
        (loweredFields_of_lowerFields fields hrest)

end

end Expr

/-! ## Running a derivation -/

section

open Lower PoseLang.Expr

variable {c : Context}

mutual

/-- A derivation is a successful run of lowering. -/
theorem Lowered.lower_eq : ∀ {e : Expr} {b b' : Builder} {r : Nat},
    Lowered c e b r b' → e.lower c b = .ok r b'
  | _, _, _, _, .num => rfl
  | _, _, _, _, @Lowered.var _ loc name b reg bound => by
    simp only [lower, bind_ok]
    refine ⟨b, b, rfl, ?_⟩
    rw [bound]
    rfl
  | _, _, _, _, @Lowered.binary _ _ _ _ _ _ b b₁ b₂ l r first second leftTy rightTy known => by
    simp only [lower, bind_ok, expectType_ok, newReg_bind]
    refine ⟨l, b₁, first.lower_eq, r, b₂, second.lower_eq, (), b₂, ⟨leftTy, rfl⟩, (), b₂,
      ⟨rightTy, rfl⟩, ?_⟩
    rw [known]
    rfl
  | _, _, _, _, @Lowered.call _ _ _ _ target _ b₁ regs resolved arity given => by
    simp only [lower, resolved]
    rw [if_neg (not_not_intro arity), bind_ok]
    refine ⟨regs, b₁, given.lowerArgs_eq, ?_⟩
    cases target <;> rfl
  | _, _, _, _, @Lowered.cond _ _ _ _ _ b b₁ b₂ b₃ value t e test testTy first second sameTy => by
    simp only [lower, bind_ok, expectType_ok, newReg_bind, step_bind, emit_bind, modify_bind,
      current_bind, typeOf_bind, pure_ok]
    simp only [Builder.appendBlock_fst, Builder.appendBlock_blocks_length, Builder.emit_blocks_length,
      Builder.newReg_blocks]
    exact ⟨value, b₁, test.lower_eq, (), b₁, ⟨testTy, rfl⟩, t, b₂, first.lower_eq, e, b₃,
      second.lower_eq, (), b₃, ⟨sameTy, rfl⟩, rfl, rfl⟩
  | _, _, _, _, @Lowered.loop _ _ _ _ _ _ _ b b₁ b₂ b₃ b₄ _ first result increment value started firstTy
      ran stepped tested valueTy closed => by
    subst closed
    simp only [lower, bind_ok, expectType_ok, newReg_bind, step_bind, emit_bind, modify_bind,
      current_bind, step_ok]
    simp only [Builder.appendBlock_fst, Builder.emit_blocks_length, Builder.newReg_blocks]
    exact ⟨first, b₁, started.lower_eq, (), b₁, ⟨firstTy, rfl⟩, result, b₂, ran.lower_eq, increment,
      b₃, stepped.lowerStep_eq, value, b₄, tested.lower_eq, (), b₄, ⟨valueTy, rfl⟩, rfl, rfl⟩
  | _, _, _, _, @Lowered.alloc _ _ _ layout b registered => by
    simp only [lower, bind_ok, widthOf_ok, newReg_bind, emit_bind, pure_ok]
    exact ⟨layout.width, b, ⟨⟨layout, registered, rfl⟩, rfl⟩, rfl, rfl⟩
  | _, _, _, _, @Lowered.construct _ _ _ _ record layout b b₁ b₂ base storage baseTy registered filled => by
    simp only [lower, bind_ok, recordOf_ok, widthOf_ok, pure_ok]
    exact ⟨base, b₁, storage.lower_eq, record, b₁, ⟨baseTy, rfl⟩, layout.width, b₁,
      ⟨⟨layout, registered, rfl⟩, rfl⟩, (), b₂, filled.lowerFields_eq _, rfl, rfl⟩

theorem LoweredArgs.lowerArgs_eq : ∀ {es : List Expr} {b b' : Builder} {regs : List Nat},
    LoweredArgs c es b regs b' → lowerArgs c es b = .ok regs b'
  | _, _, _, _, .nil => rfl
  | _, _, _, _, @LoweredArgs.cons _ _ _ b b₁ b₂ reg regs head headTy tail => by
    simp only [lowerArgs, bind_ok, expectType_ok, pure_ok]
    exact ⟨reg, b₁, head.lower_eq, (), b₁, ⟨headTy, rfl⟩, regs, b₂, tail.lowerArgs_eq, rfl, rfl⟩

theorem LoweredStep.lowerStep_eq : ∀ {stepBy : Option Expr} {b b' : Builder} {r : Nat},
    LoweredStep c stepBy b r b' → lowerStep c stepBy b = .ok r b'
  | _, _, _, _, .one => rfl
  | _, _, _, _, @LoweredStep.given _ _ b b₁ reg value valueTy => by
    simp only [lowerStep, bind_ok, expectType_ok, pure_ok]
    exact ⟨reg, b₁, value.lower_eq, (), b₁, ⟨valueTy, rfl⟩, rfl, rfl⟩

theorem LoweredFields.lowerFields_eq : ∀ {base width : Nat} {record : String}
    {fields : List (Nat × Expr)} {b b' : Builder}, LoweredFields c base record width fields b b' →
      ∀ whole : Expr, lowerFields c whole base record width fields b = .ok () b'
  | _, _, _, _, _, _, .nil => fun _ => rfl
  | _, _, _, _, _, _, @LoweredFields.cons _ _ _ _ _ _ _ _ b₁ _ value inside head headTy tail =>
    fun whole => by
      rw [lowerFields, if_neg (Nat.not_le_of_lt inside)]
      simp only [bind_ok, expectType_ok, newReg_bind, emit_bind]
      exact ⟨value, b₁, head.lower_eq, (), b₁, ⟨headTy, rfl⟩, tail.lowerFields_eq whole⟩

end

end

end PoseLang
