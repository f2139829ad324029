import PoseLang.Proofs.Machine.Reaches

/-!
# What a step does to the machine

A step counts itself and then does one of four things to what outlives the call: nothing, text is
written, a record is allocated, or a number is stored in a cell that there is (`Machine.Effect`). What
holds of all four holds of every step and so of every run. In particular text is only ever added, and
records stay (`Machine.Grown`).

A step may also fail. What it reads, calls and looks up makes it fail for what it meets in the run only
(`Fault.Dynamic`), and nothing makes it fail for the budget (`Fault.Unbudgeted`): that fault comes from a
run that takes no further step.
-/

namespace PoseLang

/-- The machine that a step leaves. -/
def Progress.machine : Progress → Machine
  | .next c => c.machine
  | .done _ m => m
  | .failed _ m => m

namespace Machine

/-- All that an operation can do to a machine. -/
inductive Effect (records : Registry) (m : Machine) : Machine → Prop
  | nothing : Effect records m m
  | write (text : String) : Effect records m { m with output := m.output ++ text }
  | allocate {record : String} {layout : Layout} (registered : records[record]? = some layout) :
    Effect records m (m.allocate layout record).2
  | store {alloc cell : Nat} (x : Float) (inside : cell < m.widthAt alloc) :
    Effect records m (m.store alloc cell x)

/-- Text has been added behind the text, and the records are still there. -/
structure Grown (m m' : Machine) : Prop where
  output : ∃ text, m'.output = m.output ++ text
  memory : Allocation.Kept m.memory m'.memory

namespace Grown

variable {m m₁ m₂ : Machine}

/-- Machines that differ in the number of steps at most. -/
theorem of_eq (houtput : m₁.output = m.output) (hmemory : m₁.memory = m.memory) : Grown m m₁ :=
  ⟨⟨"", by simp [houtput]⟩, hmemory ▸ .refl⟩

theorem trans (h : Grown m m₁) (h' : Grown m₁ m₂) : Grown m m₂ := by
  obtain ⟨text₁, htext₁⟩ := h.output
  obtain ⟨text₂, htext₂⟩ := h'.output
  exact ⟨⟨text₁ ++ text₂, by rw [htext₂, htext₁, String.append_assoc]⟩, h.memory.trans h'.memory⟩

theorem size_le (h : Grown m m₁) : m.memory.size ≤ m₁.memory.size :=
  h.memory.size_le

end Grown

namespace Effect

variable {records : Registry} {m m' : Machine}

theorem steps_eq (h : Effect records m m') : m'.steps = m.steps := by
  cases h <;> rfl

theorem grown (h : Effect records m m') : Grown m m' := by
  cases h with
  | nothing => exact .of_eq rfl rfl
  | write text => exact ⟨⟨text, rfl⟩, .refl⟩
  | allocate => exact ⟨⟨"", by simp [Machine.allocate]⟩, .push _⟩
  | store x => exact ⟨⟨"", by simp [Machine.store]⟩, .store m _ _ x⟩

end Effect

/-- What a call can start with: what a function that the machine provides returns, or a body. -/
theorem invoke_cases {p : Program} {m : Machine} {depth : Nat} {name : String} {args : List Value}
    {started : Invocation} (h : m.invoke p depth name args = .ok started) :
    ∃ r, p.get? name = some r ∧ r.arity = args.length ∧
      ((∃ x text, started = .returned (.float x) { m with output := m.output ++ text }) ∨
        (r.isDeclaration = false ∧ depth < maxDepth ∧ started = .body r)) := by
  unfold invoke at h
  split at h
  · cases h
  next r hr =>
    split at h
    · cases h
    next harity =>
      refine ⟨r, hr, Decidable.not_not.mp harity, ?_⟩
      split at h
      · obtain ⟨xs, -, h⟩ := Except.bind_ok h
        split at h
        next x text hrun => cases h; exact .inl ⟨x, text, rfl⟩
        next => cases h
      next hbody =>
        split at h
        · cases h
        next hdepth =>
          cases h
          exact .inr ⟨Bool.eq_false_iff.mpr hbody, Nat.lt_of_not_le hdepth, rfl⟩

/-- A function that the machine provides only writes text. -/
theorem effect_invoke {p : Program} {m m' : Machine} {depth : Nat} {name : String}
    {args : List Value} {v : Value} (h : m.invoke p depth name args = .ok (.returned v m')) :
    Effect p.records m m' := by
  obtain ⟨r, -, -, ⟨x, text, hstarted⟩ | ⟨-, -, hstarted⟩⟩ := invoke_cases h
  · cases hstarted
    exact .write text
  · cases hstarted

end Machine

/-! ## One step -/

namespace Config

open Machine (Effect)

variable {p : Program} {c : Config}

@[simp] theorem machine_withRegs (regs : Except Fault Registers) :
    (c.withRegs regs).machine = c.machine := by
  cases regs <;> rfl

@[simp] theorem machine_write (dest : Nat) (v : Except Fault Value) :
    (c.write dest v).machine = c.machine :=
  machine_withRegs _

@[simp] theorem machine_goTo (block : Nat) : (c.goTo block).machine = c.machine := by
  unfold goTo
  split <;> rfl

@[simp] theorem machine_giveBack (v : Value) : (c.giveBack v).machine = c.machine := by
  unfold giveBack
  split
  · rfl
  · simp

/-- What the start of a call by a function that runs consists of. -/
theorem started_ok {callee : String} {args : List Nat} {vs : List Value} {started : Invocation}
    (h : ((args.mapM c.frame.regs.read).bind fun vs =>
      (Machine.invoke p c.depth c.machine callee vs).map fun i => (vs, i)) = .ok (vs, started)) :
    args.mapM c.frame.regs.read = .ok vs ∧
      Machine.invoke p c.depth c.machine callee vs = .ok started := by
  obtain ⟨values, hread, h⟩ := Except.bind_ok h
  cases hinvoke : Machine.invoke p c.depth c.machine callee values with
  | error fault => rw [hinvoke] at h; cases h
  | ok invocation =>
    rw [hinvoke] at h
    cases h
    exact ⟨hread, hinvoke⟩

theorem effect_call (dest : Nat) (callee : String) (args : List Nat) :
    Effect p.records c.machine (c.call p dest callee args).machine := by
  unfold call
  split
  · exact .nothing
  next vs v m hstarted =>
    rw [machine_write]
    exact Machine.effect_invoke (started_ok hstarted).2
  · split <;> exact .nothing

theorem effect_alloca (dest : Nat) (record : String) :
    Effect p.records c.machine (c.alloca p dest record).machine := by
  unfold alloca
  split
  · exact .nothing
  next layout hlayout =>
    dsimp only
    rw [machine_write]
    exact .allocate hlayout

/-- A store that is carried out goes into a cell that there is. -/
theorem inside_of_storeParts {regs : Registers} {widthAt : Nat → Nat} {src addr alloc cell : Nat}
    {x : Float} (h : regs.storeParts widthAt src addr = .ok (x, alloc, cell)) :
    cell < widthAt alloc := by
  unfold Registers.storeParts at h
  obtain ⟨y, -, h⟩ := Except.bind_ok h
  obtain ⟨v, -, h⟩ := Except.bind_ok h
  cases v with
  | float => cases h
  | bool => cases h
  | ptr a i =>
    change (if i < widthAt a then .ok (y, a, i)
      else .error (.outsideAllocation a i) : Except Fault (Float × Nat × Nat)) = _ at h
    split at h
    next hlt => cases h; exact hlt
    next => cases h

/-- What an operation does to the machine, whatever becomes of it. -/
theorem effect_exec (p : Program) (c : Config) (op : Op) :
    Effect p.records c.machine (c.exec p op).machine := by
  cases op with
  | const => rw [exec, machine_write]; exact .nothing
  | arith => rw [exec, machine_write]; exact .nothing
  | truthy => rw [exec, machine_write]; exact .nothing
  | call dest callee args => exact effect_call dest callee args
  | alloca dest record => exact effect_alloca dest record
  | fieldAddr => rw [exec, machine_write]; exact .nothing
  | store src addr =>
    rw [exec]
    split
    next x alloc cell hparts => exact .store x (inside_of_storeParts hparts)
    next => exact .nothing
  | phi => exact .nothing
  | jump target => rw [exec, machine_goTo]; exact .nothing
  | branch cond thenBlock elseBlock =>
    rw [exec]
    split
    · rw [machine_goTo]; exact .nothing
    · exact .nothing
  | ret src =>
    rw [exec]
    split
    · rw [machine_giveBack]; exact .nothing
    · exact .nothing

/-- A step is counted, and then does what an operation can do. -/
theorem effect_step (p : Program) (h : c.frame.ops ≠ []) :
    Effect p.records c.machine.tick (c.step p).machine := by
  unfold step
  split
  next hnil => exact absurd hnil h
  next op rest hops => exact effect_exec p (c.takeUp rest) op

/-- Where a block has no operation left, nothing is done and nothing is counted. -/
theorem step_of_nil (p : Program) (h : c.frame.ops = []) :
    c.step p = .failed ⟨.fellOff c.frame.block, some c.frame.routine.name⟩ c.machine := by
  rw [step, h]
  rfl

theorem grown_step (p : Program) (c : Config) : Machine.Grown c.machine (c.step p).machine := by
  cases hops : c.frame.ops with
  | nil => rw [step_of_nil p hops]; exact .of_eq rfl rfl
  | cons op rest =>
    have htick : Machine.Grown c.machine c.machine.tick := .of_eq rfl rfl
    exact htick.trans (effect_step p (by simp [hops])).grown

theorem steps_step (p : Program) (h : c.frame.ops ≠ []) :
    (c.step p).machine.steps = c.machine.steps + 1 :=
  (effect_step p h).steps_eq

theorem Reaches.steps_eq {n : Nat} {c' : Config} (h : Reaches p n c c') :
    c'.machine.steps = c.machine.steps + n := by
  induction h with
  | refl => rfl
  | @step n c c₁ c₂ first rest ih =>
    have hfirst := steps_step p (ops_ne_nil_of_step first)
    rw [first] at hfirst
    rw [ih, show c₁.machine.steps = c.machine.steps + 1 from hfirst]
    omega

end Config

/-! ## Faults of a step -/

namespace Fault

/-- A computation does not fail for the budget. -/
def Unbudgeted {α : Type} (x : Except Fault α) : Prop :=
  ∀ budget, x ≠ .error (.budgetExhausted budget)

/-- Whether a fault comes of what the code meets in a run: values, other functions, records, and the
block that it comes from. The other faults are those of the budget, and those of blocks and registers
that are not what they should be. -/
def isDynamic : Fault → Bool
  | .budgetExhausted _ => false
  | .missingBlock _ => false
  | .latePhi => false
  | .fellOff _ => false
  | .outsideFrame _ => false
  | _ => true

/-- A computation fails only for what it meets in the run. -/
def Dynamic {α : Type} (x : Except Fault α) : Prop :=
  ∀ fault, x = .error fault → fault.isDynamic = true

variable {α β : Type}

namespace Dynamic

theorem ok (a : α) : Dynamic (.ok a) := by
  intro fault h
  cases h

theorem error {fault : Fault} (h : fault.isDynamic = true) :
    Dynamic (.error fault : Except Fault α) := by
  intro other heq
  cases heq
  exact h

theorem bind {x : Except Fault α} {f : α → Except Fault β} (hx : Dynamic x)
    (hf : ∀ a, Dynamic (f a)) : Dynamic (x >>= f) := by
  intro fault h
  cases x with
  | error found => cases h; exact hx fault rfl
  | ok a => exact hf a fault h

theorem mapM {f : α → Except Fault β} (hf : ∀ a, Dynamic (f a)) (xs : List α) :
    Dynamic (xs.mapM f) := by
  induction xs with
  | nil => exact ok []
  | cons x xs ih =>
    rw [List.mapM_cons]
    exact bind (hf x) fun b => bind ih fun bs => ok (b :: bs)

theorem unbudgeted {x : Except Fault α} (h : Dynamic x) : Unbudgeted x := by
  intro budget heq
  cases h _ heq

end Dynamic

namespace Unbudgeted

theorem ok (a : α) : Unbudgeted (.ok a) :=
  (Dynamic.ok a).unbudgeted

theorem error {fault : Fault} (h : ∀ budget, fault ≠ .budgetExhausted budget) :
    Unbudgeted (.error fault : Except Fault α) :=
  fun budget heq => h budget (Except.error.inj heq)

theorem bind {x : Except Fault α} {f : α → Except Fault β} (hx : Unbudgeted x)
    (hf : ∀ a, Unbudgeted (f a)) : Unbudgeted (x >>= f) := by
  intro budget h
  cases x with
  | error fault => cases h; exact hx budget rfl
  | ok a => exact hf a budget h

end Unbudgeted

end Fault

open Fault (Unbudgeted Dynamic)

namespace Registers

theorem dynamic_read (regs : Registers) (reg : Nat) : Dynamic (regs.read reg) := by
  unfold read
  split
  · exact .ok _
  · exact .error rfl

theorem unbudgeted_write (regs : Registers) (reg : Nat) (v : Value) :
    Unbudgeted (regs.write reg v) := by
  intro budget h
  unfold write at h
  split at h <;> cases h

theorem unbudgeted_writeAll (regs : Registers) (values : List (Nat × Value)) :
    Unbudgeted (regs.writeAll values) := by
  induction values generalizing regs with
  | nil => exact .ok regs
  | cons value values ih => exact .bind (unbudgeted_write regs value.1 value.2) ih

end Registers

theorem Value.dynamic_asFloat (v : Value) : Dynamic v.asFloat := by
  cases v with
  | float x => exact .ok x
  | bool b => exact .error rfl
  | ptr alloc cell => exact .error rfl

theorem Registers.dynamic_readFloat (regs : Registers) (reg : Nat) :
    Dynamic (regs.readFloat reg) :=
  .bind (dynamic_read regs reg) Value.dynamic_asFloat

namespace Frame

theorem dynamic_edgeValue (regs : Registers) (source : Option Nat) (dest : Nat)
    (incoming : List (Nat × Nat)) : Dynamic (edgeValue regs source dest incoming) := by
  unfold edgeValue
  split
  · exact .error rfl
  · split
    · exact .error rfl
    · exact Registers.dynamic_read regs _

theorem dynamic_takePhis (regs : Registers) (source : Option Nat) (ops : List Op) :
    Dynamic (takePhis regs source ops) := by
  fun_induction takePhis regs source ops with
  | case1 dest incoming ops ih =>
    exact .bind (dynamic_edgeValue regs source dest incoming) fun v => .bind ih fun r => .ok _
  | case2 ops hphi => exact .ok _

theorem unbudgeted_enterBlock (r : Routine) (regs : Registers) (source : Option Nat) (block : Nat) :
    Unbudgeted (enterBlock r regs source block) := by
  unfold enterBlock
  split
  · exact .error fun _ h => by cases h
  · exact .bind (dynamic_takePhis regs source _).unbudgeted fun taken =>
      .bind (Registers.unbudgeted_writeAll regs taken.1) fun _ => .ok _

theorem unbudgeted_enter (r : Routine) (args : List Value) : Unbudgeted (enter r args) := by
  refine .bind (fun budget h => ?_) fun regs => unbudgeted_enterBlock r regs none 0
  unfold argumentRegisters at h
  dsimp only at h
  split at h <;> cases h

end Frame

theorem Machine.dynamic_invoke (p : Program) (depth : Nat) (m : Machine) (name : String)
    (args : List Value) : Dynamic (m.invoke p depth name args) := by
  unfold invoke
  split
  · exact .error rfl
  · split
    · exact .error rfl
    · split
      · refine .bind (.mapM Value.dynamic_asFloat args) fun xs => ?_
        split
        · exact .ok _
        · exact .error rfl
      · split
        · exact .error rfl
        · exact .ok _

namespace Registers

variable (regs : Registers) (widthAt : Nat → Nat)

theorem dynamic_fieldAddr (base outer inner : Nat) :
    Dynamic (regs.fieldAddr widthAt base outer inner) := by
  refine .bind (dynamic_read _ base) fun v => ?_
  cases v with
  | ptr alloc cell => exact .ok _
  | float x => exact .error rfl
  | bool b => exact .error rfl

theorem dynamic_storeParts (src addr : Nat) : Dynamic (regs.storeParts widthAt src addr) := by
  refine .bind (dynamic_readFloat _ src) fun x => .bind (dynamic_read _ addr) fun v => ?_
  cases v with
  | ptr alloc cell =>
    dsimp only
    split
    · exact .ok _
    · exact .error rfl
  | float y => exact .error rfl
  | bool b => exact .error rfl

theorem dynamic_taken (cond : Nat) : Dynamic (regs.taken cond) := by
  refine .bind (dynamic_read _ cond) fun v => ?_
  cases v with
  | bool b => exact .ok b
  | float x => exact .ok _
  | ptr alloc cell => exact .error rfl

end Registers

namespace Config

variable (c : Config)

/-- The start of a call by a function that runs. -/
theorem dynamic_started (p : Program) (callee : String) (args : List Nat) :
    Dynamic ((args.mapM c.frame.regs.read).bind fun vs =>
      (Machine.invoke p c.depth c.machine callee vs).map fun i => (vs, i)) := by
  refine .bind (.mapM (Registers.dynamic_read c.frame.regs) args) fun vs => ?_
  have hinvoke := Machine.dynamic_invoke p c.depth c.machine callee vs
  cases hresult : Machine.invoke p c.depth c.machine callee vs with
  | ok invocation => exact .ok _
  | error fault => exact .error (hinvoke fault hresult)

end Config

/-- A step does not fail for the budget. -/
def Progress.Unbudgeted : Progress → Prop
  | .failed e _ => ∀ budget, e.fault ≠ .budgetExhausted budget
  | _ => True

namespace Config

variable {c : Config}

theorem unbudgeted_fail {α : Type} {x : Except Fault α} {fault : Fault} (h : Unbudgeted x)
    (hfault : x = .error fault) : (c.fail fault).Unbudgeted := by
  rintro budget rfl
  exact h budget hfault

theorem unbudgeted_withRegs {regs : Except Fault Registers} (h : Unbudgeted regs) :
    (c.withRegs regs).Unbudgeted := by
  cases regs with
  | ok regs => trivial
  | error fault => exact unbudgeted_fail h rfl

theorem unbudgeted_write {v : Except Fault Value} (dest : Nat) (h : Unbudgeted v) :
    (c.write dest v).Unbudgeted :=
  unbudgeted_withRegs (.bind h fun v => Registers.unbudgeted_write c.frame.regs dest v)

theorem unbudgeted_goTo (block : Nat) : (c.goTo block).Unbudgeted := by
  unfold goTo
  split
  · trivial
  next hfault => exact unbudgeted_fail (Frame.unbudgeted_enterBlock _ _ _ _) hfault

theorem unbudgeted_giveBack (v : Value) : (c.giveBack v).Unbudgeted := by
  unfold giveBack
  split
  · trivial
  · exact unbudgeted_write _ (.ok v)

theorem unbudgeted_call (p : Program) (dest : Nat) (callee : String) (args : List Nat) :
    (c.call p dest callee args).Unbudgeted := by
  unfold call
  split
  next hfault => exact unbudgeted_fail (c.dynamic_started p callee args).unbudgeted hfault
  · exact unbudgeted_write dest (.ok _)
  next vs routine _ =>
    split
    · trivial
    next fault hfault =>
      rintro budget rfl
      exact Frame.unbudgeted_enter routine vs budget hfault

theorem unbudgeted_alloca (p : Program) (dest : Nat) (record : String) :
    (c.alloca p dest record).Unbudgeted := by
  unfold alloca
  split
  · exact fun _ h => by cases h
  · exact unbudgeted_write dest (.ok _)

theorem unbudgeted_exec (p : Program) (c : Config) (op : Op) : (c.exec p op).Unbudgeted := by
  have hfloat := Registers.dynamic_readFloat c.frame.regs
  cases op with
  | const dest x => exact unbudgeted_write dest (.ok _)
  | arith kind dest a b =>
    exact unbudgeted_write dest
      (Dynamic.bind (hfloat a) fun x => .bind (hfloat b) fun y => .ok _).unbudgeted
  | truthy dest src =>
    exact unbudgeted_write dest (Dynamic.bind (hfloat src) fun x => .ok _).unbudgeted
  | call dest callee args => exact unbudgeted_call p dest callee args
  | alloca dest record => exact unbudgeted_alloca p dest record
  | fieldAddr dest base outer inner =>
    exact unbudgeted_write dest (c.frame.regs.dynamic_fieldAddr _ base outer inner).unbudgeted
  | store src addr =>
    rw [exec]
    split
    · trivial
    next hfault => exact unbudgeted_fail (c.frame.regs.dynamic_storeParts _ src addr).unbudgeted hfault
  | phi => exact fun _ h => by cases h
  | jump target => exact unbudgeted_goTo target
  | branch cond thenBlock elseBlock =>
    rw [exec]
    split
    · exact unbudgeted_goTo _
    next hfault => exact unbudgeted_fail (c.frame.regs.dynamic_taken cond).unbudgeted hfault
  | ret src =>
    rw [exec]
    split
    · exact unbudgeted_giveBack _
    next hfault => exact unbudgeted_fail (Registers.dynamic_read _ src).unbudgeted hfault

theorem unbudgeted_step (p : Program) (c : Config) : (c.step p).Unbudgeted := by
  unfold step
  split
  · exact fun _ h => by cases h
  next op rest _ => exact unbudgeted_exec p (c.takeUp rest) op

end Config

end PoseLang
