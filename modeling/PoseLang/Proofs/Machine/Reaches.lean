import PoseLang.Proofs.Machine.Values

/-!
# Steps of the machine

What single steps do, and where steps one after the other lead. `Config.Reaches p n c c'` says that
`n` steps lead from `c` to `c'`. The budget of a run counts steps and does nothing else, so a run
that has enough of it goes where the steps lead, and one that has not is stopped on the way.
-/

namespace PoseLang

theorem Except.bind_ok {ε α β : Type} {x : Except ε α} {f : α → Except ε β} {b : β}
    (h : x >>= f = .ok b) : ∃ a, x = .ok a ∧ f a = .ok b := by
  cases x with
  | error e => cases h
  | ok a => exact ⟨a, rfl, h⟩

/-! ## Registers -/

namespace Registers

variable {regs regs₁ regs₂ : Registers} {reg n : Nat} {v : Value}

/-- A register holds a value. -/
def Holds (regs : Registers) (reg : Nat) (v : Value) : Prop :=
  regs[reg]? = some (some v)

/-- Two frames have as many registers, and the first `n` of them hold the same. -/
structure Agree (n : Nat) (regs regs' : Registers) : Prop where
  size : regs'.size = regs.size
  same : ∀ i < n, regs'[i]? = regs[i]?

/-- Registers hold numbers. -/
def HoldAll (regs : Registers) (args : List Nat) (xs : List Float) : Prop :=
  args.map (regs[·]?) = xs.map fun x => some (some (.float x))

theorem Holds.read (h : regs.Holds reg v) : regs.read reg = .ok v := by
  unfold Holds at h
  rw [Registers.read, h]

theorem Holds.readFloat {x : Float} (h : regs.Holds reg (.float x)) :
    regs.readFloat reg = .ok x := by
  rw [Registers.readFloat, h.read]
  rfl

theorem write_ok (h : reg < regs.size) : regs.write reg v = .ok (regs.set! reg (some v)) :=
  if_pos h

theorem holds_set (h : reg < regs.size) : Holds (regs.set! reg (some v)) reg v := by
  simp [Holds, Array.set!_eq_setIfInBounds, h]

theorem HoldAll.length_eq {args : List Nat} {xs : List Float} (h : regs.HoldAll args xs) :
    args.length = xs.length := by
  simpa using congrArg List.length h

theorem HoldAll.cons {args : List Nat} {x : Float} {xs : List Float}
    (hx : regs.Holds reg (.float x)) (h : regs.HoldAll args xs) :
    regs.HoldAll (reg :: args) (x :: xs) := by
  unfold HoldAll at h ⊢
  rw [List.map_cons, List.map_cons, h, show regs[reg]? = some (some (.float x)) from hx]

theorem HoldAll.mapM_read {args : List Nat} {xs : List Float} (h : regs.HoldAll args xs) :
    args.mapM regs.read = .ok (xs.map .float) := by
  induction args generalizing xs with
  | nil =>
    cases xs with
    | nil => rfl
    | cons x xs => cases h
  | cons reg args ih =>
    cases xs with
    | nil => cases h
    | cons x xs =>
      obtain ⟨hreg, hargs⟩ := List.cons.inj h
      rw [List.mapM_cons, Holds.read (v := .float x) hreg, ih hargs]
      rfl

namespace Agree

theorem refl : Agree n regs regs :=
  ⟨rfl, fun _ _ => rfl⟩

theorem trans (h : Agree n regs regs₁) (h' : Agree n regs₁ regs₂) : Agree n regs regs₂ :=
  ⟨h'.size.trans h.size, fun i hi => (h'.same i hi).trans (h.same i hi)⟩

theorem mono {k : Nat} (h : Agree n regs regs₁) (hk : k ≤ n) : Agree k regs regs₁ :=
  ⟨h.size, fun i hi => h.same i (Nat.lt_of_lt_of_le hi hk)⟩

theorem set (h : n ≤ reg) (v : Option Value) : Agree n regs (regs.set! reg v) := by
  refine ⟨by simp [Array.set!_eq_setIfInBounds], fun i hi => ?_⟩
  have hne : reg ≠ i := by omega
  simp [Array.set!_eq_setIfInBounds, hne]

theorem holds (h : Agree n regs regs₁) (hreg : reg < n) (hv : regs.Holds reg v) :
    regs₁.Holds reg v :=
  (h.same reg hreg).trans hv

end Agree

end Registers

/-! ## Single steps -/

/-- A step is counted. -/
def Machine.tick (m : Machine) : Machine :=
  { m with steps := m.steps + 1 }

namespace Config

variable {p : Program} {c : Config} {rest : List Op}

/-- The configuration in which an operation has written a register, with what the machine has become
meanwhile. -/
def wrote (c : Config) (rest : List Op) (dest : Nat) (v : Value) (m : Machine) : Config where
  machine := m
  frame := { c.frame with ops := rest, regs := c.frame.regs.set! dest (some v) }
  callers := c.callers

theorem write_ok {d : Nat} {v : Value} (hd : d < c.frame.regs.size) :
    c.write d (.ok v) = .next (c.wrote c.frame.ops d v c.machine) := by
  have hwrite : (Except.ok v : Except Fault Value).bind (c.frame.regs.write d) =
      .ok (c.frame.regs.set! d (some v)) := Registers.write_ok hd
  rw [write, hwrite]
  rfl

theorem step_const {d : Nat} {x : Float} (hops : c.frame.ops = .const d x :: rest)
    (hd : d < c.frame.regs.size) :
    c.step p = .next (c.wrote rest d (.float x) c.machine.tick) := by
  rw [step, hops]
  exact write_ok (c := c.takeUp rest) hd

theorem step_arith {kind : Arith} {d l r : Nat} {x y : Float}
    (hops : c.frame.ops = .arith kind d l r :: rest) (hd : d < c.frame.regs.size)
    (hx : c.frame.regs.Holds l (.float x)) (hy : c.frame.regs.Holds r (.float y)) :
    c.step p = .next (c.wrote rest d (.float (kind.apply x y)) c.machine.tick) := by
  have hvalue : (do
      let x ← c.frame.regs.readFloat l
      let y ← c.frame.regs.readFloat r
      return Value.float (kind.apply x y) : Except Fault Value) = .ok (.float (kind.apply x y)) := by
    rw [hx.readFloat, hy.readFloat]
    rfl
  rw [step, hops]
  change (c.takeUp rest).write d _ = _
  rw [show (c.takeUp rest).frame.regs = c.frame.regs from rfl, hvalue]
  exact write_ok (c := c.takeUp rest) hd

theorem step_truthy {d src : Nat} {x : Float} (hops : c.frame.ops = .truthy d src :: rest)
    (hd : d < c.frame.regs.size) (hx : c.frame.regs.Holds src (.float x)) :
    c.step p = .next (c.wrote rest d (.bool (x != 0)) c.machine.tick) := by
  have hvalue : (do
      let x ← c.frame.regs.readFloat src
      return Value.bool (x != 0) : Except Fault Value) = .ok (.bool (x != 0)) := by
    rw [hx.readFloat]
    rfl
  rw [step, hops]
  change (c.takeUp rest).write d _ = _
  rw [show (c.takeUp rest).frame.regs = c.frame.regs from rfl, hvalue]
  exact write_ok (c := c.takeUp rest) hd

theorem step_alloca {d : Nat} {record : String} {layout : Layout}
    (hops : c.frame.ops = .alloca d record :: rest) (hd : d < c.frame.regs.size)
    (hlayout : p.records[record]? = some layout) :
    c.step p = .next (c.wrote rest d (.ptr c.machine.memory.size 0)
      { c.machine.tick with
        memory := c.machine.memory.push ⟨record, List.replicate layout.width 0⟩ }) := by
  rw [step, hops]
  change (c.takeUp rest).alloca p d record = _
  rw [alloca, hlayout]
  exact write_ok (c := ⟨(c.machine.tick.allocate layout record).2, (c.takeUp rest).frame, c.callers⟩) hd

theorem step_fieldAddr {d base outer inner alloc cell : Nat}
    (hops : c.frame.ops = .fieldAddr d base outer inner :: rest) (hd : d < c.frame.regs.size)
    (hbase : c.frame.regs.Holds base (.ptr alloc cell))
    (hword : cell + outer * c.machine.widthAt alloc + inner < UInt64.size) :
    c.step p = .next (c.wrote rest d
      (.ptr alloc (cell + outer * c.machine.widthAt alloc + inner)) c.machine.tick) := by
  have hvalue : (c.takeUp rest).frame.regs.fieldAddr (c.takeUp rest).machine.widthAt base outer inner =
      .ok (.ptr alloc (cell + outer * c.machine.widthAt alloc + inner)) := by
    rw [Registers.fieldAddr, show (c.takeUp rest).frame.regs = c.frame.regs from rfl, hbase.read]
    exact congrArg (fun cell => Except.ok (Value.ptr alloc cell)) (Nat.mod_eq_of_lt hword)
  rw [step, hops]
  change (c.takeUp rest).write d _ = _
  rw [hvalue]
  exact write_ok (c := c.takeUp rest) hd

theorem step_store {src addr alloc cell : Nat} {x : Float}
    (hops : c.frame.ops = .store src addr :: rest) (hx : c.frame.regs.Holds src (.float x))
    (haddr : c.frame.regs.Holds addr (.ptr alloc cell)) (hcell : cell < c.machine.widthAt alloc) :
    c.step p = .next ⟨c.machine.tick.store alloc cell x, { c.frame with ops := rest }, c.callers⟩ := by
  have hparts : (c.takeUp rest).frame.regs.storeParts (c.takeUp rest).machine.widthAt src addr =
      .ok (x, alloc, cell) := by
    rw [Registers.storeParts, show (c.takeUp rest).frame.regs = c.frame.regs from rfl, hx.readFloat,
      haddr.read]
    exact if_pos hcell
  rw [step, hops]
  simp only [exec, hparts]
  rfl

/-! ### Entering blocks -/

/-- A block without phis is entered as it is. -/
theorem enterBlock_plain {r : Routine} {regs : Registers} {source : Option Nat} {block : Nat}
    {blk : Block} (hblk : r.blocks[block]? = some blk) (hplain : ∀ op ∈ blk.ops, op.isPhi = false) :
    Frame.enterBlock r regs source block = .ok ⟨r, block, blk.ops, regs⟩ := by
  have htake : Frame.takePhis regs source blk.ops = .ok ([], blk.ops) := by
    cases hops : blk.ops with
    | nil => rfl
    | cons op ops =>
      have hop := hplain op (by simp [hops])
      cases op <;> first | rfl | cases hop
  rw [Frame.enterBlock, hblk]
  change (Frame.takePhis regs source blk.ops).bind _ = _
  rw [htake]
  rfl

/-- A block with one phi takes over the value that comes along the edge. -/
theorem enterBlock_phi {r : Routine} {regs : Registers} {source block dest reg : Nat} {blk : Block}
    {edges : List (Nat × Nat)} {ops : List Op} {v : Value} (hblk : r.blocks[block]? = some blk)
    (hops : blk.ops = .phi dest edges :: ops) (hplain : ∀ op ∈ ops, op.isPhi = false)
    (hedge : edges.find? (·.2 == source) = some (reg, source)) (hv : regs.Holds reg v)
    (hdest : dest < regs.size) :
    Frame.enterBlock r regs (some source) block =
      .ok ⟨r, block, ops, regs.set! dest (some v)⟩ := by
  have hrest : Frame.takePhis regs (some source) ops = .ok ([], ops) := by
    cases ops with
    | nil => rfl
    | cons op ops =>
      have hop := hplain op (by simp)
      cases op <;> first | rfl | cases hop
  have hvalue : Frame.edgeValue regs (some source) dest edges = .ok v := by
    rw [Frame.edgeValue, hedge]
    exact hv.read
  have htake : Frame.takePhis regs (some source) blk.ops = .ok ([(dest, v)], ops) := by
    rw [hops, Frame.takePhis, hvalue, hrest]
    rfl
  rw [Frame.enterBlock, hblk]
  change (Frame.takePhis regs (some source) blk.ops).bind _ = _
  rw [htake]
  change (regs.writeAll [(dest, v)]).bind _ = _
  rw [Registers.writeAll, Registers.write_ok hdest]
  rfl

theorem step_jump {target : Nat} {frame : Frame} (hops : c.frame.ops = .jump target :: rest)
    (henter : Frame.enterBlock c.frame.routine c.frame.regs (some c.frame.block) target =
      .ok frame) :
    c.step p = .next ⟨c.machine.tick, frame, c.callers⟩ := by
  rw [step, hops]
  change (c.takeUp rest).goTo target = _
  rw [goTo, show Frame.enterBlock (c.takeUp rest).frame.routine (c.takeUp rest).frame.regs
    (some (c.takeUp rest).frame.block) target = .ok frame from henter]
  rfl

theorem step_branch {cond t e : Nat} {b : Bool} {frame : Frame}
    (hops : c.frame.ops = .branch cond t e :: rest) (hb : c.frame.regs.Holds cond (.bool b))
    (henter : Frame.enterBlock c.frame.routine c.frame.regs (some c.frame.block)
      (if b then t else e) = .ok frame) :
    c.step p = .next ⟨c.machine.tick, frame, c.callers⟩ := by
  have htaken : (c.takeUp rest).frame.regs.taken cond = .ok b := by
    rw [Registers.taken, show (c.takeUp rest).frame.regs = c.frame.regs from rfl, hb.read]
    rfl
  rw [step, hops]
  simp only [exec, htaken]
  change (c.takeUp rest).goTo (if b then t else e) = _
  rw [goTo, show Frame.enterBlock (c.takeUp rest).frame.routine (c.takeUp rest).frame.regs
    (some (c.takeUp rest).frame.block) (if b then t else e) = .ok frame from henter]
  rfl

theorem step_ret {src : Nat} {v : Value} (hops : c.frame.ops = .ret src :: rest)
    (hv : c.frame.regs.Holds src v) : c.step p = (c.takeUp rest).giveBack v := by
  rw [step, hops]
  simp only [exec, show (c.takeUp rest).frame.regs = c.frame.regs from rfl, hv.read]

/-- A call of a function with numbers. -/
theorem step_call {d : Nat} {callee : String} {args : List Nat} {xs : List Float}
    (hops : c.frame.ops = .call d callee args :: rest) (hargs : c.frame.regs.HoldAll args xs) :
    c.step p = match c.machine.tick.invoke p c.depth callee (xs.map .float) with
      | .error fault => .failed ⟨fault, some c.frame.routine.name⟩ c.machine.tick
      | .ok (.returned v m) => { c.takeUp rest with machine := m }.write d (.ok v)
      | .ok (.body routine) =>
        match Frame.enter routine (xs.map .float) with
        | .ok frame => .next ⟨c.machine.tick, frame, ⟨(c.takeUp rest).frame, d⟩ :: c.callers⟩
        | .error fault => .failed ⟨fault, some routine.name⟩ c.machine.tick := by
  rw [step, hops]
  change (c.takeUp rest).call p d callee args = _
  have hinvoke : Machine.invoke p (c.takeUp rest).depth (c.takeUp rest).machine callee
      (xs.map .float) = Machine.invoke p c.depth c.machine.tick callee (xs.map .float) := rfl
  rw [call, show args.mapM (c.takeUp rest).frame.regs.read = _ from hargs.mapM_read]
  simp only [Except.bind, hinvoke]
  cases Machine.invoke p c.depth c.machine.tick callee (xs.map .float) with
  | error fault => rfl
  | ok i => cases i <;> rfl

end Config

/-- Starting a call of a function with as many numbers as it takes. -/
theorem Machine.invoke_floats {p : Program} {m : Machine} {depth : Nat} {name : String}
    {r : Routine} {xs : List Float} (hr : p.get? name = some r) (harity : r.arity = xs.length) :
    m.invoke p depth name (xs.map .float) =
      if r.isDeclaration then
        match Host.run? name xs with
        | some (x, text) => .ok (.returned (.float x) { m with output := m.output ++ text })
        | none => .error (.noHost name)
      else if maxDepth ≤ depth then .error .depthExceeded
      else .ok (.body r) := by
  have hfloats : (xs.map Value.float).mapM Value.asFloat = .ok xs := by
    clear harity
    induction xs with
    | nil => rfl
    | cons x xs ih =>
      rw [List.map_cons, List.mapM_cons, ih]
      rfl
  rw [invoke, hr]
  change (if r.arity ≠ (xs.map Value.float).length then _ else _) = _
  rw [if_neg (by simpa using harity), hfloats]
  split
  · change (match Host.run? name xs with | some (x, text) => _ | none => _ : Except Fault Invocation) = _
    cases Host.run? name xs <;> rfl
  · rfl

/-! ## Steps one after the other -/

namespace Config

/-- A number of steps leads from one configuration to another. -/
inductive Reaches (p : Program) : Nat → Config → Config → Prop
  | refl {c : Config} : Reaches p 0 c c
  | step {n : Nat} {c c₁ c₂ : Config} (first : c.step p = .next c₁) (rest : Reaches p n c₁ c₂) :
    Reaches p (n + 1) c c₂

variable {p : Program} {c c₁ c₂ : Config} {n k : Nat}

theorem Reaches.trans (h : Reaches p n c c₁) (h' : Reaches p k c₁ c₂) : Reaches p (n + k) c c₂ := by
  induction h with
  | refl => simpa using h'
  | step first rest ih =>
    rw [Nat.add_right_comm]
    exact .step first (ih h')

/-- A configuration that a step can be taken from has an operation to take up. -/
theorem ops_ne_nil_of_step (h : c.step p = .next c₁) : c.frame.ops ≠ [] := by
  intro hnil
  rw [step, hnil] at h
  cases h

/-- A run goes where steps lead. -/
theorem Reaches.run (h : Reaches p n c c₁) (budget left : Nat) :
    Machine.run p budget (n + left) c = Machine.run p budget left c₁ := by
  induction h with
  | refl => rw [Nat.zero_add]
  | step first rest ih =>
    rw [Nat.add_right_comm, Machine.run, first]
    exact ih

/-- A configuration with an operation to take up is stopped by the budget. -/
theorem run_zero (budget : Nat) (h : c.frame.ops ≠ []) :
    ∃ m, Machine.run p budget 0 c =
      (.error ⟨.budgetExhausted budget, some c.frame.routine.name⟩, m) := by
  rw [Machine.run, stop]
  cases hops : c.frame.ops with
  | nil => exact absurd hops h
  | cons op ops => exact ⟨_, rfl⟩

/-- A run that has fewer steps left than there are to take is stopped by the budget. -/
theorem Reaches.run_of_lt {left : Nat} (h : Reaches p n c c₁) (budget : Nat) (hlt : left < n) :
    ∃ function m, Machine.run p budget left c = (.error ⟨.budgetExhausted budget, function⟩, m) := by
  induction h generalizing left with
  | refl => exact absurd hlt (Nat.not_lt_zero _)
  | step first rest ih =>
    cases left with
    | zero =>
      obtain ⟨m, hm⟩ := run_zero (p := p) budget (ops_ne_nil_of_step first)
      exact ⟨_, m, hm⟩
    | succ left =>
      rw [Machine.run, first]
      exact ih (Nat.lt_of_succ_lt_succ hlt)

end Config

end PoseLang
