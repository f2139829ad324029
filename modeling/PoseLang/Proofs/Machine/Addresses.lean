import PoseLang.Proofs.Machine.Budget

/-!
# Addresses stay good

Nothing that a function does makes an address up. An address comes from an allocation; it is copied from
register to register, given to functions and given back, and moved from cell to cell of the same
allocation. So in every register of every function that runs or waits there are only addresses of
allocations that there are (`Config.Points`), and the same holds of the value that a call gives back
(`Machine.points_call`). This is so for all code, also for code that no lowering gives: what has no type
may fail, but does not lead astray.

Allocations have the widths of their records (`Machine.Laid`), since they are made with them and a store
does not change them.
-/

namespace PoseLang

/-- A value is no address, or one of an allocation that there is. -/
def Value.Points (memory : Array Allocation) : Value → Prop
  | .ptr alloc _ => alloc < memory.size
  | _ => True

/-- All addresses in registers are of allocations that there are. -/
def Registers.Point (memory : Array Allocation) (regs : Registers) : Prop :=
  ∀ (reg : Nat) (v : Value), regs.Holds reg v → v.Points memory

/-- All addresses in the registers of functions that run or wait are of allocations that there are. -/
structure Config.Points (c : Config) : Prop where
  running : c.frame.regs.Point c.machine.memory
  waiting : ∀ caller ∈ c.callers, caller.frame.regs.Point c.machine.memory

/-- A step leads to no address but of allocations that there are. -/
def Progress.Points : Progress → Prop
  | .next c => c.Points
  | .done v m => v.Points m.memory
  | .failed _ _ => True

/-- Every allocation has as many cells as the layout of its record has fields. -/
def Machine.Laid (records : Registry) (m : Machine) : Prop :=
  ∀ (i : Nat) (a : Allocation), m.memory[i]? = some a →
    ∃ l, records[a.record]? = some l ∧ a.cells.length = l.width

/-! ## Registers -/

section

variable {memory memory' : Array Allocation} {regs regs' : Registers} {v : Value} {reg : Nat}

theorem Value.Points.mono (h : v.Points memory) (hsize : memory.size ≤ memory'.size) :
    v.Points memory' := by
  cases v with
  | float x => trivial
  | bool b => trivial
  | ptr alloc cell => exact Nat.lt_of_lt_of_le h hsize

namespace Registers.Point

theorem mono (h : regs.Point memory) (hsize : memory.size ≤ memory'.size) : regs.Point memory' :=
  fun reg v hv => (h reg v hv).mono hsize

theorem read (h : regs.Point memory) (hread : regs.read reg = .ok v) : v.Points memory := by
  unfold Registers.read at hread
  split at hread
  next w hholds =>
    cases hread
    exact h reg v hholds
  next => cases hread

theorem mapM_read (h : regs.Point memory) {args : List Nat} {vs : List Value}
    (hread : args.mapM regs.read = .ok vs) : ∀ v ∈ vs, v.Points memory := by
  induction args generalizing vs with
  | nil =>
    cases hread
    exact fun _ hv => by cases hv
  | cons arg args ih =>
    rw [List.mapM_cons] at hread
    obtain ⟨w, hw, hread⟩ := Except.bind_ok hread
    obtain ⟨ws, hws, hread⟩ := Except.bind_ok hread
    cases hread
    intro v hv
    rcases List.mem_cons.mp hv with rfl | hv
    · exact h.read hw
    · exact ih hws v hv

theorem write (h : regs.Point memory) (hv : v.Points memory)
    (hwrite : regs.write reg v = .ok regs') : regs'.Point memory := by
  unfold Registers.write at hwrite
  split at hwrite
  next hlt =>
    cases hwrite
    intro other w hw
    by_cases heq : reg = other
    · subst heq
      have hself := holds_set (v := v) hlt
      rw [Holds] at hw hself
      cases hself.symm.trans hw
      exact hv
    · have hkept : (regs.set! reg (some v))[other]? = regs[other]? := by
        simp [Array.set!_eq_setIfInBounds, heq]
      rw [Holds, hkept] at hw
      exact h other w hw
  next => cases hwrite

theorem writeAll (h : regs.Point memory) {values : List (Nat × Value)}
    (hvalues : ∀ e ∈ values, e.2.Points memory) (hwrite : regs.writeAll values = .ok regs') :
    regs'.Point memory := by
  induction values generalizing regs with
  | nil =>
    cases hwrite
    exact h
  | cons e values ih =>
    obtain ⟨regs₁, hfirst, hrest⟩ := Except.bind_ok hwrite
    exact ih (h.write (hvalues e List.mem_cons_self) hfirst)
      (fun e' he' => hvalues e' (List.mem_cons_of_mem e he')) hrest

end Registers.Point

/-! ## Frames -/

namespace Frame

theorem points_takePhis (h : regs.Point memory) (source : Option Nat) (ops : List Op) :
    ∀ values rest, takePhis regs source ops = .ok (values, rest) →
      ∀ e ∈ values, e.2.Points memory := by
  fun_induction takePhis regs source ops with
  | case1 dest incoming ops ih =>
    intro values rest htake
    obtain ⟨v, hv, htake⟩ := Except.bind_ok htake
    obtain ⟨⟨vs, behind⟩, hvs, htake⟩ := Except.bind_ok htake
    cases htake
    intro e he
    rcases List.mem_cons.mp he with rfl | he
    · unfold edgeValue at hv
      split at hv
      · cases hv
      · split at hv
        · cases hv
        · exact h.read hv
    · exact ih vs _ hvs e he
  | case2 ops hphi =>
    intro values rest htake
    cases htake
    exact fun _ he => by cases he

theorem points_enterBlock (h : regs.Point memory) {routine : Routine} {source : Option Nat}
    {block : Nat} {f : Frame} (henter : enterBlock routine regs source block = .ok f) :
    f.regs.Point memory := by
  unfold enterBlock at henter
  split at henter
  · cases henter
  next b hblock =>
    obtain ⟨⟨values, rest⟩, htake, henter⟩ := Except.bind_ok henter
    obtain ⟨regs₁, hwrite, henter⟩ := Except.bind_ok henter
    cases henter
    exact h.writeAll (points_takePhis h source b.ops values rest htake) hwrite

/-- The registers of a function that is called hold its arguments, and nothing else. -/
theorem points_enter {routine : Routine} {args : List Value} {f : Frame}
    (hargs : ∀ v ∈ args, v.Points memory) (henter : enter routine args = .ok f) :
    f.regs.Point memory := by
  obtain ⟨regs, hregs, henter⟩ := Except.bind_ok henter
  refine points_enterBlock (fun reg v hv => ?_) henter
  unfold argumentRegisters at hregs
  dsimp only at hregs
  split at hregs
  next hle =>
    cases hregs
    rw [Registers.Holds, List.getElem?_toArray] at hv
    have hmem := List.mem_of_getElem? hv
    simp only [List.mem_append, List.mem_map, Option.some.injEq, exists_eq_right,
      List.mem_replicate, reduceCtorEq, and_false, or_false] at hmem
    exact hargs v hmem
  next => cases hregs

end Frame

end

/-! ## One step -/

/-- A function that the machine provides gives a number and leaves the memory alone. -/
theorem Machine.invoke_returned {p : Program} {m m' : Machine} {depth : Nat} {name : String}
    {args : List Value} {v : Value} (h : m.invoke p depth name args = .ok (.returned v m')) :
    (∃ x, v = .float x) ∧ m'.memory = m.memory := by
  obtain ⟨r, -, -, ⟨x, text, hstarted⟩ | ⟨-, -, hstarted⟩⟩ := invoke_cases h
  · cases hstarted
    exact ⟨⟨x, rfl⟩, rfl⟩
  · cases hstarted

namespace Config

variable {p : Program} {c : Config}

/-- A value that is written is no address, or one of an allocation that there is. -/
theorem Points.write (h : c.Points) (dest : Nat) {v : Except Fault Value}
    (hv : ∀ w, v = .ok w → w.Points c.machine.memory) : (c.write dest v).Points := by
  unfold Config.write withRegs
  split
  next regs hregs =>
    obtain ⟨w, hw, hwrite⟩ := Except.bind_ok hregs
    exact ⟨h.running.write (hv w hw) hwrite, h.waiting⟩
  next => trivial

theorem Points.goTo (h : c.Points) (block : Nat) : (c.goTo block).Points := by
  unfold Config.goTo
  split
  next f henter => exact ⟨Frame.points_enterBlock h.running henter, h.waiting⟩
  next => trivial

theorem Points.giveBack (h : c.Points) {v : Value} (hv : v.Points c.machine.memory) :
    (c.giveBack v).Points := by
  unfold Config.giveBack
  split
  · exact hv
  next caller callers hcallers =>
    have hwaiting := h.waiting
    rw [hcallers] at hwaiting
    have hbelow : Points { c with frame := caller.frame, callers } :=
      ⟨hwaiting caller List.mem_cons_self, fun q hq => hwaiting q (List.mem_cons_of_mem caller hq)⟩
    exact hbelow.write caller.dest fun w hw => by cases hw; exact hv

/-- More memory does no harm. -/
theorem Points.grown (h : c.Points) {m : Machine} (hsize : c.machine.memory.size ≤ m.memory.size) :
    Points { c with machine := m } :=
  ⟨h.running.mono hsize, fun q hq => (h.waiting q hq).mono hsize⟩

theorem points_call (h : c.Points) (dest : Nat) (callee : String) (args : List Nat) :
    (c.call p dest callee args).Points := by
  unfold call
  split
  · trivial
  next vs v m hstarted =>
    obtain ⟨⟨x, rfl⟩, hmemory⟩ := Machine.invoke_returned (started_ok hstarted).2
    have hgrown : Points { c with machine := m } := h.grown (Nat.le_of_eq (by rw [hmemory]))
    exact hgrown.write dest fun w hw => by cases hw; trivial
  next vs routine hstarted =>
    split
    next f henter =>
      have hargs := h.running.mapM_read (started_ok hstarted).1
      refine ⟨Frame.points_enter hargs henter, fun caller hcaller => ?_⟩
      rcases List.mem_cons.mp hcaller with rfl | hcaller
      · exact h.running
      · exact h.waiting caller hcaller
    next => trivial

/-- The new address is that of the new allocation. -/
theorem points_alloca (h : c.Points) (dest : Nat) (record : String) :
    (c.alloca p dest record).Points := by
  unfold alloca
  split
  · trivial
  next layout hlayout =>
    have hsize : c.machine.memory.size < (c.machine.allocate layout record).2.memory.size := by
      rw [Machine.allocate, Array.size_push]
      exact Nat.lt_succ_self _
    exact (h.grown (Nat.le_of_lt hsize)).write dest fun w hw => by cases hw; exact hsize

/-- Another cell is one of the same allocation. -/
theorem points_fieldAddr {memory : Array Allocation} {regs : Registers} (h : regs.Point memory)
    {widthAt : Nat → Nat} {base outer inner : Nat} {v : Value}
    (hv : regs.fieldAddr widthAt base outer inner = .ok v) : v.Points memory := by
  obtain ⟨w, hread, hv⟩ := Except.bind_ok hv
  have hw := h.read hread
  cases w with
  | float x => cases hv
  | bool b => cases hv
  | ptr alloc cell =>
    cases hv
    exact hw

/-- No operation makes an address up. -/
theorem points_exec (p : Program) (h : c.Points) (op : Op) : (c.exec p op).Points := by
  cases op with
  | const dest x => exact h.write dest fun w hw => by cases hw; trivial
  | arith kind dest a b =>
    refine h.write dest fun w hw => ?_
    obtain ⟨x, -, hw⟩ := Except.bind_ok hw
    obtain ⟨y, -, hw⟩ := Except.bind_ok hw
    cases hw
    trivial
  | truthy dest src =>
    refine h.write dest fun w hw => ?_
    obtain ⟨x, -, hw⟩ := Except.bind_ok hw
    cases hw
    trivial
  | call dest callee args => exact points_call h dest callee args
  | alloca dest record => exact points_alloca h dest record
  | fieldAddr dest base outer inner => exact h.write dest fun w hw => points_fieldAddr h.running hw
  | store src addr =>
    rw [exec]
    split
    next x alloc cell hparts => exact h.grown (by simp [Machine.store])
    next => trivial
  | phi dest incoming => trivial
  | jump target => exact h.goTo target
  | branch cond thenBlock elseBlock =>
    rw [exec]
    split
    · exact h.goTo _
    · trivial
  | ret src =>
    rw [exec]
    split
    next v hread => exact h.giveBack (h.running.read hread)
    next => trivial

theorem points_step (p : Program) (h : c.Points) : (c.step p).Points := by
  unfold step
  split
  · trivial
  next op rest hops =>
    have htaken : (c.takeUp rest).Points := ⟨h.running, h.waiting⟩
    exact points_exec p htaken op

end Config

/-! ## Runs and calls -/

namespace Machine

variable {p : Program} {records : Registry} {m m' : Machine}

theorem Laid.of_eq (h : m.Laid records) (hmemory : m'.memory = m.memory) : m'.Laid records := by
  unfold Laid
  rw [hmemory]
  exact h

theorem Laid.effect (h : m.Laid records) (heffect : Effect records m m') : m'.Laid records := by
  cases heffect with
  | nothing => exact h
  | write text => exact h.of_eq rfl
  | @allocate record layout registered =>
    intro i a ha
    rw [allocate, Array.getElem?_push] at ha
    split at ha
    · cases ha
      exact ⟨layout, registered, List.length_replicate⟩
    · exact h i a ha
  | @store alloc cell x inside =>
    intro i a ha
    rw [store, Array.getElem?_modify] at ha
    split at ha
    · obtain ⟨b, hb, rfl⟩ := Option.map_eq_some_iff.mp ha
      obtain ⟨l, hl, hwidth⟩ := h i b hb
      exact ⟨l, hl, List.length_set.trans hwidth⟩
    · exact h i a ha

theorem laid_step {c : Config} (h : c.machine.Laid p.records) :
    (c.step p).machine.Laid p.records := by
  cases hops : c.frame.ops with
  | nil => rw [Config.step_of_nil p hops]; exact h
  | cons op rest =>
    have htick : c.machine.tick.Laid p.records := h.of_eq rfl
    exact htick.effect (Config.effect_step p (by simp [hops]))

/-- Allocations have their widths after a run, whether it fails or not. -/
theorem laid_run (p : Program) (budget left : Nat) {c : Config} (h : c.machine.Laid p.records) :
    (run p budget left c).2.Laid p.records := by
  induction left generalizing c with
  | zero => exact h.of_eq (stop_eq budget c).2
  | succ left ih =>
    have hstep := laid_step h
    rw [run]
    split
    next c₁ hnext => rw [hnext] at hstep; exact ih hstep
    next hdone => rw [hdone] at hstep; exact hstep
    next hfailed => rw [hfailed] at hstep; exact hstep

/-- An address that a run ends with is one of an allocation that there is. -/
theorem points_run (p : Program) (budget left : Nat) {c : Config} (h : c.Points) {v : Value}
    (hv : (run p budget left c).1 = .ok v) : v.Points (run p budget left c).2.memory := by
  induction left generalizing c with
  | zero => cases hv
  | succ left ih =>
    have hstep := Config.points_step p h
    rw [run] at hv ⊢
    split at hv
    next c₁ hnext => rw [hnext] at hstep; exact ih hstep hv
    next w m' hdone => rw [hdone] at hstep; cases hv; exact hstep
    next => cases hv

/-- A call is over before it has allocated anything, or it is the run of a body in which there are no
addresses yet. -/
theorem call_points_cases (p : Program) (budget : Nat) (m : Machine) (name : String)
    (args : List Float) :
    (m.call p budget name args).2.memory = m.memory ∧
        (∀ v, (m.call p budget name args).1 = .ok v → ∃ x, v = .float x) ∨
      ∃ c : Config, c.machine = m ∧ c.Points ∧
        m.call p budget name args = run p budget (budget - m.steps) c := by
  cases hinvoke : m.invoke p 0 name (args.map .float) with
  | error fault =>
    rw [call, hinvoke]
    exact .inl ⟨rfl, fun v hv => by cases hv⟩
  | ok invocation =>
    cases invocation with
    | returned v m' =>
      obtain ⟨hfloat, hmemory⟩ := invoke_returned hinvoke
      rw [call, hinvoke]
      exact .inl ⟨hmemory, fun w hw => by cases hw; exact hfloat⟩
    | body routine =>
      cases henter : Frame.enter routine (args.map .float) with
      | error fault =>
        simp only [call, hinvoke, henter]
        exact .inl ⟨trivial, fun v hv => by cases hv⟩
      | ok frame =>
        have hargs : ∀ v ∈ args.map Value.float, v.Points m.memory := by
          intro v hv
          obtain ⟨x, -, rfl⟩ := List.mem_map.mp hv
          trivial
        refine .inr ⟨⟨m, frame, []⟩, rfl, ⟨Frame.points_enter hargs henter, fun q hq => by cases hq⟩, ?_⟩
        simp only [call, hinvoke, henter]

theorem laid_call (h : m.Laid p.records) (budget : Nat) (name : String) (args : List Float) :
    (m.call p budget name args).2.Laid p.records := by
  rcases call_points_cases p budget m name args with ⟨hmemory, -⟩ | ⟨c, rfl, -, hcall⟩
  · exact h.of_eq hmemory
  · rw [hcall]
    exact laid_run p budget _ h

theorem points_call (p : Program) (budget : Nat) (m : Machine) (name : String) (args : List Float)
    {v : Value} (hv : (m.call p budget name args).1 = .ok v) :
    v.Points (m.call p budget name args).2.memory := by
  rcases call_points_cases p budget m name args with ⟨-, hfloat⟩ | ⟨c, rfl, hpoints, hcall⟩
  · obtain ⟨x, rfl⟩ := hfloat v hv
    trivial
  · rw [hcall] at hv ⊢
    exact points_run p budget _ hpoints hv

theorem kept_call (p : Program) (budget : Nat) (m : Machine) (name : String) (args : List Float) :
    Allocation.Kept m.memory (m.call p budget name args).2.memory := by
  rcases call_points_cases p budget m name args with ⟨hmemory, -⟩ | ⟨c, rfl, -, hcall⟩
  · rw [hmemory]
    exact .refl
  · rw [hcall]
    exact (grown_run p budget _ c).memory

end Machine

end PoseLang
