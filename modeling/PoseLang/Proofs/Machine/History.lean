import PoseLang.Proofs.Machine.Requests

/-!
# Calls do not depend on history

A machine that has been used has records, steps and text that a fresh one has not. To a call they make
no difference. Take a configuration of a run on a fresh machine and put it behind a used one
(`Config.behind`): its records and its text come behind those that there are, its steps are added to
those counted, and every address in its registers is moved on by the number of allocations in front of
it. Then the step of what was put behind is the step put behind (`Config.step_behind`), and so it is
with runs, whether they fail or not. Nothing has to be known about addresses for this: one that is moved
never meets an allocation in front, whatever it points to.

What is left is the budget, of which the used machine has spent some; it only cuts runs off.
-/

namespace PoseLang

/-! ## Moving addresses -/

/-- A value; if it is an address, it is moved on by a number of allocations. -/
def Value.moved (n : Nat) : Value → Value
  | .float x => .float x
  | .bool b => .bool b
  | .ptr alloc cell => .ptr (n + alloc) cell

/-- A fault; an address that it tells of is moved on by a number of allocations. -/
def Fault.moved (n : Nat) : Fault → Fault
  | .notNumber v => .notNumber (v.moved n)
  | .outsideAllocation alloc cell => .outsideAllocation (n + alloc) cell
  | fault => fault

/-- What a computation gives, moved on: its value by a function, its fault as faults are. -/
def Fault.carry {α β : Type} (n : Nat) (f : α → β) : Except Fault α → Except Fault β
  | .ok a => .ok (f a)
  | .error fault => .error (fault.moved n)

/-- Two computations in a row are moved on if both are. -/
theorem Fault.carry_bind {α β γ δ : Type} {n : Nat} {f : α → β} {k : γ → δ} {g : α → Except Fault γ}
    {g' : β → Except Fault δ} (x : Except Fault α) (h : ∀ a, g' (f a) = carry n k (g a)) :
    carry n f x >>= g' = carry n k (x >>= g) := by
  cases x with
  | error fault => rfl
  | ok a => exact h a

open Fault (carry carry_bind)

theorem Value.asFloat_moved (n : Nat) (v : Value) : (v.moved n).asFloat = carry n id v.asFloat := by
  cases v <;> rfl

theorem Value.mapM_asFloat_moved (n : Nat) (vs : List Value) :
    (vs.map (moved n)).mapM asFloat = carry n id (vs.mapM asFloat) := by
  induction vs with
  | nil => rfl
  | cons v vs ih =>
    rw [List.map_cons, List.mapM_cons, List.mapM_cons, asFloat_moved, ih]
    exact carry_bind _ fun x => carry_bind _ fun xs => rfl

namespace Registers

variable {n : Nat} {regs : Registers}

/-- Registers with the addresses in them moved on. -/
def moved (n : Nat) (regs : Registers) : Registers :=
  regs.map (Option.map (Value.moved n))

theorem read_moved (reg : Nat) : (regs.moved n).read reg = carry n (Value.moved n) (regs.read reg) := by
  unfold read moved
  rw [Array.getElem?_map]
  cases regs[reg]? with
  | none => rfl
  | some held => cases held <;> rfl

theorem readFloat_moved (reg : Nat) : (regs.moved n).readFloat reg = carry n id (regs.readFloat reg) := by
  unfold readFloat
  rw [read_moved]
  exact carry_bind _ (Value.asFloat_moved n)

theorem mapM_read_moved (args : List Nat) :
    args.mapM (regs.moved n).read = carry n (List.map (Value.moved n)) (args.mapM regs.read) := by
  induction args with
  | nil => rfl
  | cons arg args ih =>
    rw [List.mapM_cons, List.mapM_cons, read_moved, ih]
    exact carry_bind _ fun v => carry_bind _ fun vs => rfl

theorem write_moved (reg : Nat) (v : Value) :
    (regs.moved n).write reg (v.moved n) = carry n (moved n) (regs.write reg v) := by
  have hset : (regs.moved n).set! reg (some (v.moved n)) = moved n (regs.set! reg (some v)) := by
    rw [moved, moved, Array.set!_eq_setIfInBounds, Array.set!_eq_setIfInBounds,
      Array.map_setIfInBounds]
    rfl
  have hsize : (regs.moved n).size = regs.size := Array.size_map
  unfold write
  rw [hsize, hset]
  split <;> rfl

section

variable {widthAt widthAt' : Nat → Nat} (hwidth : ∀ alloc, widthAt' (n + alloc) = widthAt alloc)
include hwidth

theorem fieldAddr_moved (base outer inner : Nat) : (regs.moved n).fieldAddr widthAt' base outer inner =
    carry n (Value.moved n) (regs.fieldAddr widthAt base outer inner) := by
  unfold fieldAddr
  rw [read_moved]
  refine carry_bind _ fun v => ?_
  cases v with
  | float x => rfl
  | bool b => rfl
  | ptr alloc cell =>
    refine congrArg Except.ok (congrArg (Value.ptr _) ?_)
    exact congrArg (fun width => (cell + outer * width + inner) % UInt64.size) (hwidth alloc)

/-- The number that is stored stays, and its address is moved on. -/
theorem storeParts_moved (src addr : Nat) : (regs.moved n).storeParts widthAt' src addr =
    carry n (fun parts => (parts.1, n + parts.2.1, parts.2.2)) (regs.storeParts widthAt src addr) := by
  unfold storeParts
  rw [readFloat_moved]
  refine carry_bind _ fun x => ?_
  rw [read_moved]
  refine carry_bind _ fun v => ?_
  cases v with
  | float y => rfl
  | bool b => rfl
  | ptr alloc cell =>
    change (if cell < widthAt' (n + alloc) then _ else _) = _
    rw [hwidth]
    dsimp only
    split <;> rfl

end

theorem taken_moved (cond : Nat) : (regs.moved n).taken cond = carry n id (regs.taken cond) := by
  unfold taken
  rw [read_moved]
  refine carry_bind _ fun v => ?_
  cases v <;> rfl

/-- Values for registers, with the addresses among them moved on. -/
def movedValues (n : Nat) (values : List (Nat × Value)) : List (Nat × Value) :=
  values.map fun e => (e.1, e.2.moved n)

theorem writeAll_moved (values : List (Nat × Value)) :
    (regs.moved n).writeAll (movedValues n values) = carry n (moved n) (regs.writeAll values) := by
  induction values generalizing regs with
  | nil => rfl
  | cons e values ih =>
    change (regs.moved n).write e.1 (e.2.moved n) >>= _ = _
    rw [write_moved]
    exact carry_bind _ fun regs' => ih

end Registers

namespace Frame

open Registers (movedValues)

/-- A frame with the addresses in its registers moved on. -/
def moved (n : Nat) (f : Frame) : Frame :=
  { f with regs := f.regs.moved n }

variable {n : Nat} {regs : Registers}

theorem edgeValue_moved (source : Option Nat) (dest : Nat) (incoming : List (Nat × Nat)) :
    edgeValue (regs.moved n) source dest incoming =
      carry n (Value.moved n) (edgeValue regs source dest incoming) := by
  unfold edgeValue
  split
  · rfl
  · split
    · rfl
    · exact Registers.read_moved _

theorem takePhis_moved (source : Option Nat) (ops : List Op) :
    takePhis (regs.moved n) source ops =
      carry n (fun taken => (movedValues n taken.1, taken.2)) (takePhis regs source ops) := by
  fun_induction takePhis regs source ops with
  | case1 dest incoming ops ih =>
    rw [takePhis, edgeValue_moved, ih]
    exact carry_bind _ fun v => carry_bind _ fun taken => rfl
  | case2 ops hphi =>
    rw [takePhis]
    · rfl
    · exact hphi

theorem enterBlock_moved (routine : Routine) (source : Option Nat) (block : Nat) :
    enterBlock routine (regs.moved n) source block =
      carry n (moved n) (enterBlock routine regs source block) := by
  unfold enterBlock
  split
  · rfl
  · rw [takePhis_moved]
    refine carry_bind _ fun taken => ?_
    change (regs.moved n).writeAll (movedValues n taken.1) >>= _ = _
    rw [Registers.writeAll_moved]
    exact carry_bind _ fun regs' => rfl

theorem argumentRegisters_moved (routine : Routine) (args : List Value) :
    argumentRegisters routine (args.map (Value.moved n)) =
      carry n (Registers.moved n) (argumentRegisters routine args) := by
  unfold argumentRegisters
  dsimp only
  rw [List.length_map]
  split
  · refine congrArg Except.ok ?_
    rw [Registers.moved, List.map_toArray, List.map_append, List.map_map, List.map_map,
      List.map_replicate]
    rfl
  · rfl

theorem enter_moved (routine : Routine) (args : List Value) :
    enter routine (args.map (Value.moved n)) = carry n (moved n) (enter routine args) := by
  unfold enter
  rw [argumentRegisters_moved]
  exact carry_bind _ fun regs => enterBlock_moved routine none 0

end Frame

/-! ## Machines behind machines -/

namespace Machine

/-- A machine put behind another one: its records and its text come behind those of the other, and the
steps of both are counted. -/
def behind (m base : Machine) : Machine where
  memory := base.memory ++ m.memory
  steps := base.steps + m.steps
  output := base.output ++ m.output

variable (base m : Machine)

/-- A fresh machine adds nothing. -/
theorem behind_fresh : behind {} base = base := by
  simp [behind]

/-- What is moved on is found behind what lies in front. -/
theorem getElem?_behind (alloc : Nat) :
    (m.behind base).memory[base.memory.size + alloc]? = m.memory[alloc]? := by
  rw [behind, Array.getElem?_append_right (Nat.le_add_right _ _), Nat.add_sub_cancel_left]

theorem widthAt_behind (alloc : Nat) :
    (m.behind base).widthAt (base.memory.size + alloc) = m.widthAt alloc := by
  rw [widthAt, getElem?_behind, widthAt]

theorem allocate_behind (l : Layout) (record : String) :
    (m.behind base).allocate l record =
      ((m.allocate l record).1.moved base.memory.size, (m.allocate l record).2.behind base) := by
  simp only [allocate, behind, Value.moved, Array.size_append, Array.append_push]

/-- A store goes into the records behind, and those in front stay as they are. -/
theorem store_behind (alloc cell : Nat) (x : Float) :
    (m.behind base).store (base.memory.size + alloc) cell x = (m.store alloc cell x).behind base := by
  have hmemory (f : Allocation → Allocation) :
      (base.memory ++ m.memory).modify (base.memory.size + alloc) f =
        base.memory ++ m.memory.modify alloc f := by
    apply Array.ext_getElem?
    intro i
    rw [Array.getElem?_modify, Array.getElem?_append, Array.getElem?_append, Array.getElem?_modify]
    by_cases hi : i < base.memory.size
    · rw [if_pos hi, if_pos hi, if_neg (by omega)]
    · have hplace : base.memory.size + alloc = i ↔ alloc = i - base.memory.size := by omega
      simp only [if_neg hi, hplace]
  rw [store, store, behind, behind, hmemory]

theorem materialize_behind (v : Value) :
    (m.behind base).materialize (v.moved base.memory.size) = m.materialize v := by
  cases v with
  | float x => rfl
  | bool b => rfl
  | ptr alloc cell => rw [Value.moved, materialize, getElem?_behind, materialize]

end Machine

/-- What a call starts with, put behind a machine. -/
def Invocation.behind (base : Machine) : Invocation → Invocation
  | .returned v m => .returned (v.moved base.memory.size) (m.behind base)
  | .body routine => .body routine

/-- A function that waits, with the addresses in its registers moved on. -/
def Caller.moved (n : Nat) (q : Caller) : Caller :=
  { q with frame := q.frame.moved n }

/-- A failure with an address that it tells of moved on. -/
def RunError.moved (n : Nat) (e : RunError) : RunError :=
  { e with fault := e.fault.moved n }

/-- A machine in the middle of a call, put behind another machine. -/
def Config.behind (c : Config) (base : Machine) : Config where
  machine := c.machine.behind base
  frame := c.frame.moved base.memory.size
  callers := c.callers.map (Caller.moved base.memory.size)

/-- What a step leads to, put behind a machine. -/
def Progress.behind (base : Machine) : Progress → Progress
  | .next c => .next (c.behind base)
  | .done v m => .done (v.moved base.memory.size) (m.behind base)
  | .failed e m => .failed (e.moved base.memory.size) (m.behind base)

theorem Machine.invoke_behind (p : Program) (depth : Nat) (m base : Machine) (name : String)
    (args : List Value) :
    (m.behind base).invoke p depth name (args.map (Value.moved base.memory.size)) =
      carry base.memory.size (Invocation.behind base) (m.invoke p depth name args) := by
  unfold invoke
  rw [List.length_map]
  split
  · rfl
  · split
    · rfl
    · split
      · rw [Value.mapM_asFloat_moved]
        refine carry_bind _ fun xs => ?_
        dsimp only [id]
        split
        · refine congrArg Except.ok (congrArg (Invocation.returned _) ?_)
          rw [behind, behind, String.append_assoc]
        · rfl
      · split <;> rfl

/-! ## One step -/

namespace Config

variable {p : Program} {c : Config} {base : Machine}

theorem withRegs_behind (regs : Except Fault Registers) :
    (c.behind base).withRegs (carry base.memory.size (Registers.moved base.memory.size) regs) =
      (c.withRegs regs).behind base := by
  cases regs <;> rfl

theorem write_behind (dest : Nat) (v : Except Fault Value) :
    (c.behind base).write dest (carry base.memory.size (Value.moved base.memory.size) v) =
      (c.write dest v).behind base := by
  unfold write
  rw [← withRegs_behind]
  exact congrArg _ (carry_bind v fun w => Registers.write_moved dest w)

theorem goTo_behind (block : Nat) : (c.behind base).goTo block = (c.goTo block).behind base := by
  have henter : Frame.enterBlock (c.behind base).frame.routine (c.behind base).frame.regs
      (some (c.behind base).frame.block) block =
        carry base.memory.size (Frame.moved base.memory.size)
          (Frame.enterBlock c.frame.routine c.frame.regs (some c.frame.block) block) :=
    Frame.enterBlock_moved c.frame.routine (some c.frame.block) block
  rw [goTo, henter, goTo]
  cases Frame.enterBlock c.frame.routine c.frame.regs (some c.frame.block) block <;> rfl

theorem giveBack_behind (v : Value) :
    (c.behind base).giveBack (v.moved base.memory.size) = (c.giveBack v).behind base := by
  obtain ⟨m, frame, callers⟩ := c
  cases callers with
  | nil => rfl
  | cons caller callers =>
    exact write_behind (c := ⟨m, caller.frame, callers⟩) caller.dest (.ok v)

theorem call_behind (dest : Nat) (callee : String) (args : List Nat) :
    (c.behind base).call p dest callee args = (c.call p dest callee args).behind base := by
  have hdepth : (c.behind base).depth = c.depth := by
    simp only [depth, behind, List.length_map]
  have hstarted : ((args.mapM (c.behind base).frame.regs.read).bind fun vs =>
        (Machine.invoke p (c.behind base).depth (c.behind base).machine callee vs).map
          fun i => (vs, i)) =
      carry base.memory.size
        (fun started => (started.1.map (Value.moved base.memory.size), started.2.behind base))
        ((args.mapM c.frame.regs.read).bind fun vs =>
          (Machine.invoke p c.depth c.machine callee vs).map fun i => (vs, i)) := by
    rw [hdepth]
    change (args.mapM (c.frame.regs.moved base.memory.size).read).bind _ = _
    rw [Registers.mapM_read_moved]
    refine carry_bind _ fun vs => ?_
    change (Machine.invoke p c.depth (c.machine.behind base) callee _).map _ = _
    rw [Machine.invoke_behind]
    cases Machine.invoke p c.depth c.machine callee vs <;> rfl
  unfold call
  rw [hstarted]
  cases (args.mapM c.frame.regs.read).bind fun vs =>
      (Machine.invoke p c.depth c.machine callee vs).map fun i => (vs, i) with
  | error fault => rfl
  | ok started =>
    obtain ⟨vs, invocation⟩ := started
    cases invocation with
    | returned v m => exact write_behind (c := { c with machine := m }) dest (.ok v)
    | body routine =>
      dsimp only [carry, Invocation.behind]
      rw [Frame.enter_moved]
      cases Frame.enter routine vs <;> rfl

theorem alloca_behind (dest : Nat) (record : String) :
    (c.behind base).alloca p dest record = (c.alloca p dest record).behind base := by
  unfold alloca
  split
  · rfl
  next l hl =>
    change write ⟨((c.machine.behind base).allocate l record).2, _, _⟩ dest
      (.ok ((c.machine.behind base).allocate l record).1) = _
    rw [Machine.allocate_behind]
    exact write_behind (c := ⟨(c.machine.allocate l record).2, c.frame, c.callers⟩) dest
      (.ok (c.machine.allocate l record).1)

/-- What an operation does behind a machine is what it does, put behind the machine. -/
theorem exec_behind (p : Program) (c : Config) (base : Machine) (op : Op) :
    (c.behind base).exec p op = (c.exec p op).behind base := by
  have hfloat (reg : Nat) : (c.behind base).frame.regs.readFloat reg =
      carry base.memory.size id (c.frame.regs.readFloat reg) := Registers.readFloat_moved reg
  have hwidth := Machine.widthAt_behind base c.machine
  cases op with
  | const dest x => exact write_behind dest (.ok (.float x))
  | arith kind dest a b =>
    rw [exec, exec, ← write_behind, hfloat, hfloat]
    exact congrArg _ (carry_bind _ fun x => carry_bind _ fun y => rfl)
  | truthy dest src =>
    rw [exec, exec, ← write_behind, hfloat]
    exact congrArg _ (carry_bind _ fun x => rfl)
  | call dest callee args => exact call_behind dest callee args
  | alloca dest record => exact alloca_behind dest record
  | fieldAddr dest reg outer inner =>
    rw [exec, exec, ← write_behind]
    exact congrArg _ (Registers.fieldAddr_moved hwidth reg outer inner)
  | store src addr =>
    have hparts : (c.behind base).frame.regs.storeParts (c.behind base).machine.widthAt src addr = _ :=
      Registers.storeParts_moved hwidth src addr
    rw [exec, exec, hparts]
    cases c.frame.regs.storeParts c.machine.widthAt src addr with
    | error fault => rfl
    | ok parts =>
      exact congrArg (fun m => Progress.next ⟨m, _, _⟩) (Machine.store_behind base c.machine _ _ _)
  | phi dest incoming => rfl
  | jump target => exact goTo_behind target
  | branch cond thenBlock elseBlock =>
    rw [exec, exec, show (c.behind base).frame.regs.taken cond = _ from Registers.taken_moved cond]
    cases c.frame.regs.taken cond with
    | error fault => rfl
    | ok b => exact goTo_behind _
  | ret src =>
    rw [exec, exec, show (c.behind base).frame.regs.read src = _ from Registers.read_moved src]
    cases c.frame.regs.read src with
    | error fault => rfl
    | ok v => exact giveBack_behind v

theorem step_behind (p : Program) (c : Config) (base : Machine) :
    (c.behind base).step p = (c.step p).behind base := by
  rw [step, show (c.behind base).frame.ops = c.frame.ops from rfl, step]
  cases c.frame.ops with
  | nil => rfl
  | cons op rest => exact exec_behind p (c.takeUp rest) base op

end Config

/-! ## Runs and calls -/

namespace Machine

variable {p : Program} {m f : Machine} {name : String} {args : List Float}

/-- What a run comes to, put behind a machine. -/
def resultBehind (base : Machine) (r : Except RunError Value × Machine) :
    Except RunError Value × Machine :=
  ((r.1.map (Value.moved base.memory.size)).mapError (RunError.moved base.memory.size),
    r.2.behind base)

theorem run_behind (p : Program) (budget left : Nat) (c : Config) (base : Machine) :
    run p budget left (c.behind base) = resultBehind base (run p budget left c) := by
  induction left generalizing c with
  | zero =>
    have hstop : (c.behind base).stop budget =
        ((c.stop budget).1.moved base.memory.size, (c.stop budget).2.behind base) := by
      rw [Config.stop, show (c.behind base).frame.ops = c.frame.ops from rfl, Config.stop]
      cases c.frame.ops <;> rfl
    rw [run, run, hstop]
    rfl
  | succ left ih =>
    rw [run, run, Config.step_behind]
    cases c.step p with
    | next c' => exact ih c'
    | done v m => rfl
    | failed e m => rfl

/-- A run that comes to a value comes to it under every budget of which as many steps are left. -/
theorem run_of_ok {limit budget left left' : Nat} {c : Config} {v : Value}
    (h : run p limit left c = (.ok v, f)) (hfits : f.steps ≤ c.machine.steps + left') :
    run p budget left' c = (.ok v, f) := by
  rcases Config.goesOn_or_endsIn p c with hgoes | ⟨k, result, m', hends, hsteps, -⟩
  · obtain ⟨function, m', hstopped⟩ := hgoes limit left
    cases h.symm.trans hstopped
  · by_cases hle : k ≤ left
    · cases h.symm.trans (hends.ends limit left hle)
      exact hends.ends budget left' (by omega)
    · obtain ⟨function, m', hstopped⟩ := hends.stopped limit left (Nat.lt_of_not_le hle)
      cases h.symm.trans hstopped

/-- A call that has a value on a fresh machine has that value on any other one that has enough steps
left, with an address moved on, and leaves what it leaves on the fresh machine behind what there is. -/
theorem call_behind {limit budget : Nat} {v : Value} (h : call p limit {} name args = (.ok v, f))
    (hfits : m.steps + f.steps ≤ budget) :
    m.call p budget name args = (.ok (v.moved m.memory.size), f.behind m) := by
  -- The arguments are numbers, so that there is nothing to move.
  have hargs : (args.map Value.float).map (Value.moved m.memory.size) = args.map .float := by
    rw [List.map_map]
    rfl
  have hinvoke := invoke_behind p 0 {} m name (args.map .float)
  rw [hargs, behind_fresh] at hinvoke
  cases hstart : invoke p 0 {} name (args.map .float) with
  | error fault => simp only [call, hstart, Prod.mk.injEq, reduceCtorEq, false_and] at h
  | ok invocation =>
    rw [hstart] at hinvoke
    cases invocation with
    | returned w m' =>
      simp only [call, hstart, Prod.mk.injEq, Except.ok.injEq] at h
      obtain ⟨rfl, rfl⟩ := h
      rw [call, hinvoke]
      rfl
    | body routine =>
      have henter := Frame.enter_moved (n := m.memory.size) routine (args.map .float)
      rw [hargs] at henter
      cases hframe : Frame.enter routine (args.map .float) with
      | error fault =>
        simp only [call, hstart, hframe, Prod.mk.injEq, reduceCtorEq, false_and] at h
      | ok frame =>
        simp only [call, hstart, hframe] at h
        rw [hframe] at henter
        have hsame : frame.moved m.memory.size = frame := (Except.ok.inj henter).symm
        have hrun : run p budget (budget - m.steps) ⟨{}, frame, []⟩ = (.ok v, f) :=
          run_of_ok h (by dsimp only; omega)
        have hbehind := run_behind p budget (budget - m.steps) ⟨{}, frame, []⟩ m
        rw [hrun, Config.behind, behind_fresh, hsame] at hbehind
        rw [call, hinvoke]
        dsimp only [carry, Invocation.behind]
        rw [hframe]
        exact hbehind

/-- A call does not depend on what the machine has done before. If a call is evaluated to something on a
fresh machine, then on any machine, whatever it has been used for, it is evaluated to the same, as long
as the steps that it takes are left. It adds the text and the records of the fresh run to those that
there are, takes as many steps, and leaves all earlier records as they are. -/
theorem evaluate_behind (p : Program) (limit budget : Nat) (m : Machine) (name : String)
    (args : List Float) {d : Datum} {fresh : Machine}
    (hfresh : evaluate p limit {} name args = (.ok d, fresh))
    (hfits : m.steps + fresh.steps ≤ budget) :
    ∃ m', m.evaluate p budget name args = (.ok d, m') ∧
      m'.output = m.output ++ fresh.output ∧
      m'.memory = m.memory ++ fresh.memory ∧
      m'.steps = m.steps + fresh.steps ∧
      ∀ (i : Nat) (a : Allocation), m.memory[i]? = some a → m'.memory[i]? = some a := by
  obtain ⟨v, hcall⟩ := call_of_evaluate hfresh
  have hshown : fresh.materialize v = .ok d := by
    rw [evaluate, hcall] at hfresh
    exact congrArg Prod.fst hfresh
  refine ⟨fresh.behind m, ?_, rfl, rfl, rfl, fun i a ha => ?_⟩
  · rw [evaluate, call_behind hcall hfits]
    dsimp only
    rw [materialize_behind, hshown]
  · rw [behind, Array.getElem?_append_left (Array.getElem?_eq_some_iff.mp ha).1]
    exact ha

/-- A program with a function that puts its argument into a record and writes it as a letter. -/
def stampProgram : Program :=
  ((Program.empty .builtin).declare (.external "putchard" ["x"])).define
    ⟨⟨"stamp", ["x"], .ptr "Pose2D"⟩,
      [⟨"entry", [.alloca 1 "Pose2D", .fieldAddr 2 1 0 1, .store 0 2, .call 3 "putchard" [0], .ret 1]⟩],
      [.f64, .ptr "Pose2D", .ptr "Pose2D", .f64]⟩

/-- A machine on which the function has been called once. -/
def stamped : Machine :=
  (evaluate stampProgram 9 {} "stamp" [65]).2

theorem evaluate_behind_stamp : ∃ d fresh m',
    evaluate stampProgram 9 {} "stamp" [66] = (.ok d, fresh) ∧ stamped.steps + fresh.steps ≤ 10 ∧
      stamped.evaluate stampProgram 10 "stamp" [66] = (.ok d, m') ∧ stamped.memory.size = 1 ∧
      m'.memory = stamped.memory ++ fresh.memory ∧ m'.output = "AB" := by
  have hok : (evaluate stampProgram 9 {} "stamp" [66]).1.isOk = true := by decide +kernel
  have hsteps : stamped.steps + (evaluate stampProgram 9 {} "stamp" [66]).2.steps ≤ 10 := by
    decide +kernel
  have houtput : stamped.output ++ (evaluate stampProgram 9 {} "stamp" [66]).2.output = "AB" := by
    decide +kernel
  cases hfresh : evaluate stampProgram 9 {} "stamp" [66] with
  | mk result fresh =>
    rw [hfresh] at hok hsteps houtput
    cases result with
    | error e => cases hok
    | ok d =>
      obtain ⟨m', hused, hwritten, hmemory, -⟩ :=
        evaluate_behind stampProgram 9 10 stamped "stamp" [66] hfresh hsteps
      exact ⟨d, fresh, m', rfl, hsteps, hused, by decide +kernel, hmemory, hwritten.trans houtput⟩

end Machine

end PoseLang
