import PoseLang.Proofs.Code.Program
import PoseLang.Proofs.Lowering.Flawless
import PoseLang.Proofs.Machine.Budget

/-!
# Verified code

The check of a routine's shape looks at the ends of blocks and then, operation by operation, at places,
edges and registers. The machine looks at none of this: it takes the phis in front of a block, and then
one operation after the other. What the check promises of a block is what the machine needs of it: phis,
then operations that are neither phis nor ends, and then one end that leads to blocks that there are, all
with registers that the frame has (`Routine.Completes`). This holds of what is left to do in every frame,
running or waiting, after every step (`Config.step_verified`). So all the ways in which verified code can
fail can be listed (`RunError.Tolerated`), however it was made.

The check does not look at parameters. A function may have more of them than it has registers, and then
its arguments have no place to go.
-/

namespace PoseLang

/-! ## Routines without flaws -/

namespace Routine

variable {r : Routine} {i : Nat} {ops : List Op} {last op : Op}

/-- What is left of a block: operations that are neither phis nor ends, and then an end that leads to
blocks that there are. All registers have types. -/
inductive Completes (r : Routine) : List Op → Prop
  | ends {op : Op} (terminates : op.isTerminator = true)
    (leads : ∀ t ∈ op.successors, t < r.blocks.length)
    (typed : ∀ reg ∈ op.registers, reg < r.regTypes.length) : Completes r [op]
  | inner {op : Op} {ops : List Op} (plain : op.isInner = true)
    (typed : ∀ reg ∈ op.registers, reg < r.regTypes.length) (rest : Completes r ops) :
    Completes r (op :: ops)

theorem Completes.ne_nil (h : r.Completes ops) : ops ≠ [] := by
  cases h with
  | ends => exact List.cons_ne_nil _ _
  | inner => exact List.cons_ne_nil _ _

/-- No block of a routine without a flaw has one. -/
theorem block_of_flaw? (h : r.flaw? = none) {block : Block} (hblock : r.blocks[i]? = some block) :
    r.endFlaw? block i = none ∧ r.opsFlaw? i true block.ops = none := by
  have hmem : (block, i) ∈ r.blocks.zipIdx := List.mk_mem_zipIdx_iff_getElem?.mpr hblock
  unfold flaw? at h
  cases hends : r.blocks.zipIdx.findSome? fun x => r.endFlaw? x.1 x.2 with
  | some flaw =>
    simp only [hends] at h
    cases h
  | none =>
    simp only [hends] at h
    exact ⟨List.findSome?_eq_none_iff.mp hends _ hmem, List.findSome?_eq_none_iff.mp h _ hmem⟩

/-- A block without a flaw ends with an end that leads to blocks that there are. -/
theorem last_of_endFlaw? {block : Block} (h : r.endFlaw? block i = none) :
    ∃ last, block.ops.getLast? = some last ∧ last.isTerminator = true ∧
      ∀ t ∈ last.successors, t < r.blocks.length := by
  unfold endFlaw? at h
  split at h
  · cases h
  next last hlast =>
    split at h
    · cases h
    next hend =>
      rw [Option.map_eq_none_iff, List.find?_eq_none] at h
      refine ⟨last, hlast, by simpa using hend, fun t ht => ?_⟩
      simpa using h t ht

theorem registers_of_registerFlaw? (h : r.registerFlaw? op = none) :
    ∀ reg ∈ op.registers, reg < r.regTypes.length := by
  unfold registerFlaw? at h
  rw [Option.map_eq_none_iff, List.find?_eq_none] at h
  intro reg hreg
  simpa using h reg hreg

/-- What it means for the first of some operations, and for those behind it, to have no flaw. -/
theorem of_opsFlaw?_cons {rest : List Op} {leading : Bool}
    (h : r.opsFlaw? i leading (op :: rest) = none) :
    (op.isTerminator = true → rest = []) ∧ (op.isPhi = true → leading = true) ∧
      (∀ reg ∈ op.registers, reg < r.regTypes.length) ∧
      r.opsFlaw? i (leading && op.isPhi) rest = none := by
  rw [opsFlaw?] at h
  split at h
  · cases h
  next hend =>
    split at h
    · cases h
    next hphi =>
      cases hedges : r.edgeFlaw? i op with
      | some flaw => simp only [hedges] at h; cases h
      | none =>
        cases hregs : r.registerFlaw? op with
        | some flaw => simp only [hedges, hregs] at h; cases h
        | none =>
          simp only [hedges, hregs] at h
          refine ⟨fun hop => ?_, fun hop => ?_, registers_of_registerFlaw? hregs, h⟩
          · simpa [hop] using hend
          · simpa [hop] using hphi

/-- Behind the phis of a block there are the operations that complete it. -/
theorem completes_of_opsFlaw? {leading : Bool} (h : r.opsFlaw? i leading ops = none)
    (hfirst : ∀ op rest, ops = op :: rest → op.isPhi = false) (hlast : ops.getLast? = some last)
    (hend : last.isTerminator = true) (hleads : ∀ t ∈ last.successors, t < r.blocks.length) :
    r.Completes ops := by
  induction ops generalizing leading with
  | nil => cases hlast
  | cons op rest ih =>
    obtain ⟨hterminates, -, htyped, hrest⟩ := of_opsFlaw?_cons h
    have hop := hfirst op rest rfl
    cases rest with
    | nil =>
      cases hlast
      exact .ends hend hleads htyped
    | cons next rest =>
      have hplain : op.isInner = true := by
        cases hop' : op.isTerminator with
        | true => cases hterminates hop'
        | false => simp [Op.isInner, hop, hop']
      rw [hop, Bool.and_false] at hrest
      refine .inner hplain htyped (ih hrest (fun o more heq => ?_) hlast)
      cases heq
      cases ho : next.isPhi with
      | false => rfl
      | true => cases (of_opsFlaw?_cons hrest).2.1 ho

end Routine

theorem Routine.flaw?_of_verify {r : Routine} (h : r.verify = .ok ()) : r.flaw? = none := by
  unfold verify at h
  split at h
  next hflaw => exact hflaw
  next => cases h

/-- All functions of a program that have a body have been verified. -/
def Program.Verified (p : Program) : Prop :=
  ∀ r ∈ p.routines, r.isDeclaration = false → r.verify = .ok ()

/-! ## Frames -/

/-- A frame of a routine without a flaw has the registers that the routine has. -/
structure Frame.Flawless (f : Frame) : Prop where
  flawless : f.routine.flaw? = none
  sized : f.regs.size = f.routine.regTypes.length

/-- A frame of a routine without a flaw is in front of operations that complete a block. -/
structure Frame.Verified (f : Frame) : Prop extends f.Flawless where
  completes : f.routine.Completes f.ops

/-- A function of verified code waits for a value, and has the register that it wants it in. -/
structure Caller.Verified (q : Caller) : Prop where
  frame : q.frame.Verified
  dest_lt : q.dest < q.frame.routine.regTypes.length

namespace Frame

open Fault (Dynamic)

variable {r : Routine} {regs : Registers} {source : Option Nat} {block : Nat}

/-- Taking the phis in front of a block that has no flaw leaves the operations that complete it, and
values for registers that there are. -/
theorem completes_takePhis {i : Nat} {ops rest : List Op} {values : List (Nat × Value)} {last : Op}
    (h : takePhis regs source ops = .ok (values, rest)) (hops : r.opsFlaw? i true ops = none)
    (hlast : ops.getLast? = some last) (hend : last.isTerminator = true)
    (hleads : ∀ t ∈ last.successors, t < r.blocks.length) :
    r.Completes rest ∧ ∀ value ∈ values, value.1 < r.regTypes.length := by
  fun_induction takePhis regs source ops generalizing values with
  | case1 dest incoming ops ih =>
    obtain ⟨v, -, h⟩ := Except.bind_ok h
    obtain ⟨⟨vs, rest'⟩, htaken, h⟩ := Except.bind_ok h
    cases h
    obtain ⟨-, -, htyped, hrest⟩ := Routine.of_opsFlaw?_cons hops
    cases ops with
    | nil =>
      cases hlast
      cases hend
    | cons op ops =>
      obtain ⟨hcompletes, hvalues⟩ := ih htaken hrest hlast
      refine ⟨hcompletes, fun value hvalue => ?_⟩
      cases hvalue with
      | head => exact htyped dest (by simp [Op.registers, Op.dest?])
      | tail _ hvalue => exact hvalues value hvalue
  | case2 ops hphi =>
    cases h
    refine ⟨Routine.completes_of_opsFlaw? hops (fun op rest heq => ?_) hlast hend hleads, by simp⟩
    cases op with
    | phi dest incoming => exact absurd heq (hphi dest incoming rest)
    | _ => rfl

theorem writeAll_verified {values : List (Nat × Value)} {count : Nat} (hsize : regs.size = count)
    (hvalues : ∀ value ∈ values, value.1 < count) :
    ∃ regs', regs.writeAll values = .ok regs' ∧ regs'.size = count := by
  induction values generalizing regs with
  | nil => exact ⟨regs, rfl, hsize⟩
  | cons value values ih =>
    have hlt : value.1 < regs.size := hsize ▸ hvalues value (by simp)
    have hset : (regs.set! value.1 (some value.2)).size = count := by simp [hsize]
    obtain ⟨regs', hwritten, hsize'⟩ := ih hset fun other hother => hvalues other (by simp [hother])
    refine ⟨regs', ?_, hsize'⟩
    rw [Registers.writeAll, Registers.write, if_pos hlt]
    exact hwritten

/-- Entering a block that a routine without a flaw has. -/
theorem enterBlock_verified (hflaw : r.flaw? = none) (hsize : regs.size = r.regTypes.length)
    (source : Option Nat) (hblock : block < r.blocks.length) : Dynamic (enterBlock r regs source block) ∧
      ∀ f, enterBlock r regs source block = .ok f → f.Verified := by
  obtain ⟨hends, hops⟩ := Routine.block_of_flaw? hflaw (List.getElem?_eq_getElem hblock)
  obtain ⟨last, hlast, hend, hleads⟩ := Routine.last_of_endFlaw? hends
  have hsteps : enterBlock r regs source block =
      takePhis regs source r.blocks[block].ops >>= fun taken =>
        regs.writeAll taken.1 >>= fun regs => .ok ⟨r, block, taken.2, regs⟩ := by
    rw [enterBlock, List.getElem?_eq_getElem hblock]
    rfl
  cases htaken : takePhis regs source r.blocks[block].ops with
  | error fault =>
    rw [hsteps, htaken]
    refine ⟨.error (dynamic_takePhis _ _ _ fault htaken), fun f h => ?_⟩
    cases h
  | ok taken =>
    obtain ⟨hcompletes, hvalues⟩ := completes_takePhis htaken hops hlast hend hleads
    obtain ⟨regs', hwritten, hsize'⟩ := writeAll_verified hsize hvalues
    have hentered : enterBlock r regs source block = .ok ⟨r, block, taken.2, regs'⟩ := by
      rw [hsteps, htaken]
      change regs.writeAll taken.1 >>= _ = _
      rw [hwritten]
      rfl
    rw [hentered]
    refine ⟨.ok _, fun f h => ?_⟩
    cases h
    exact ⟨⟨hflaw, hsize'⟩, hcompletes⟩

theorem argumentRegisters_outside {args : List Value} (h : r.regTypes.length < args.length) :
    argumentRegisters r args = .error (.outsideFrame r.regTypes.length) :=
  if_neg (Nat.not_le_of_lt h)

theorem enter_outside {args : List Value} (h : r.regTypes.length < args.length) :
    enter r args = .error (.outsideFrame r.regTypes.length) := by
  rw [enter, argumentRegisters_outside h]
  rfl

/-- The start of a body. Its arguments may be more than its registers. -/
theorem enter_verified (hflaw : r.flaw? = none) (hbody : r.isDeclaration = false)
    (args : List Value) : (∀ fault, enter r args = .error fault → fault.isDynamic = true ∨
        r.regTypes.length < args.length ∧ fault = .outsideFrame r.regTypes.length) ∧
      ∀ f, enter r args = .ok f → f.Verified := by
  by_cases hfits : args.length ≤ r.regTypes.length
  · have hsize : (args.map some ++ List.replicate (r.regTypes.length - args.length) none).toArray.size =
        r.regTypes.length := by
      simp only [List.size_toArray, List.length_append, List.length_map, List.length_replicate]
      omega
    have hblocks : 0 < r.blocks.length := by
      simpa [Routine.isDeclaration, List.length_pos_iff] using hbody
    obtain ⟨hdynamic, hverified⟩ := enterBlock_verified hflaw hsize none hblocks
    rw [enter, argumentRegisters, if_pos hfits]
    exact ⟨fun fault h => .inl (hdynamic fault h), hverified⟩
  · rw [enter_outside (Nat.lt_of_not_le hfits)]
    refine ⟨fun fault h => ?_, fun f h => ?_⟩
    · cases h
      exact .inr ⟨Nat.lt_of_not_le hfits, rfl⟩
    · cases h

end Frame

/-! ## Failures -/

/-- The failures that verified code may have: what it meets in the run, the budget, and a function that
has more parameters than registers. -/
inductive RunError.Tolerated (p : Program) : RunError → Prop
  | dynamic {fault : Fault} {function : Option String} (dynamic : fault.isDynamic = true) :
    Tolerated p ⟨fault, function⟩
  | budget {budget : Nat} {function : Option String} : Tolerated p ⟨.budgetExhausted budget, function⟩
  | arguments {r : Routine} (mem : r ∈ p.routines) (body : r.isDeclaration = false)
    (lacks : r.regTypes.length < r.arity) :
    Tolerated p ⟨.outsideFrame r.regTypes.length, some r.name⟩

/-- A configuration whose frames all are of verified code. -/
structure Config.Verified (c : Config) : Prop where
  running : c.frame.Verified
  waiting : ∀ q ∈ c.callers, q.Verified

/-- What a step of verified code leads to. -/
def Progress.Verified (p : Program) : Progress → Prop
  | .next c => c.Verified
  | .done _ _ => True
  | .failed e _ => e.Tolerated p

namespace Program.Verified

variable {p : Program} {m : Machine} {depth : Nat} {name : String} {args : List Value} {r : Routine}

/-- A body that a call starts with: it has no flaw, and entering it leads to verified code or to a
failure that verified code may have. -/
theorem enter (hp : p.Verified) (h : m.invoke p depth name args = .ok (.body r)) :
    (∀ fault, Frame.enter r args = .error fault → RunError.Tolerated p ⟨fault, some r.name⟩) ∧
      ∀ f, Frame.enter r args = .ok f → f.Verified := by
  obtain ⟨r', hr, harity, ⟨x, text, hstarted⟩ | ⟨hbody, -, hstarted⟩⟩ := Machine.invoke_cases h
  · cases hstarted
  · cases hstarted
    have hmem := Program.mem_of_get? hr
    obtain ⟨hfaults, hentered⟩ :=
      Frame.enter_verified (Routine.flaw?_of_verify (hp r hmem hbody)) hbody args
    refine ⟨fun fault hfault => ?_, hentered⟩
    obtain hdynamic | ⟨hlacks, rfl⟩ := hfaults fault hfault
    · exact .dynamic hdynamic
    · exact .arguments hmem hbody (harity ▸ hlacks)

end Program.Verified

/-! ## One step -/

namespace Config

open Fault (Dynamic)

variable {p : Program} {c : Config}

theorem fail_verified {α : Type} {x : Except Fault α} {fault : Fault} (hx : Dynamic x)
    (hfault : x = .error fault) : (c.fail fault).Verified p :=
  .dynamic (hx fault hfault)

theorem write_verified (hc : c.Verified) {dest : Nat} {v : Except Fault Value}
    (hdest : dest < c.frame.routine.regTypes.length) (hv : Dynamic v) :
    (c.write dest v).Verified p := by
  cases v with
  | error fault => exact fail_verified hv rfl
  | ok v =>
    have hlt : dest < c.frame.regs.size := hc.running.sized ▸ hdest
    have hwritten : c.write dest (.ok v) =
        .next { c with frame := { c.frame with regs := c.frame.regs.set! dest (some v) } } := by
      change c.withRegs (c.frame.regs.write dest v) = _
      rw [Registers.write, if_pos hlt]
      rfl
    have hsize : (c.frame.regs.set! dest (some v)).size = c.frame.routine.regTypes.length := by
      simp [hc.running.sized]
    rw [hwritten]
    exact ⟨⟨⟨hc.running.flawless, hsize⟩, hc.running.completes⟩, hc.waiting⟩

/-- Going on in another block. The block that is left has no operations left, so that the configuration
itself is not one of verified code. -/
theorem goTo_verified (hframe : c.frame.Flawless) (hwaiting : ∀ q ∈ c.callers, q.Verified)
    {block : Nat} (hblock : block < c.frame.routine.blocks.length) : (c.goTo block).Verified p := by
  obtain ⟨hdynamic, hentered⟩ :=
    Frame.enterBlock_verified hframe.flawless hframe.sized (some c.frame.block) hblock
  unfold goTo
  split
  next frame henter => exact ⟨hentered frame henter, hwaiting⟩
  next fault hfault => exact fail_verified hdynamic hfault

theorem giveBack_verified (hwaiting : ∀ q ∈ c.callers, q.Verified) (v : Value) :
    (c.giveBack v).Verified p := by
  unfold giveBack
  split
  · trivial
  next caller callers hcallers =>
    rw [hcallers] at hwaiting
    have hcaller := hwaiting caller (by simp)
    have hc : Verified { c with frame := caller.frame, callers } :=
      ⟨hcaller.frame, fun q hq => hwaiting q (by simp [hq])⟩
    exact write_verified hc hcaller.dest_lt (.ok v)

theorem call_verified (hp : p.Verified) (hc : c.Verified) {dest : Nat}
    (hdest : dest < c.frame.routine.regTypes.length) (callee : String) (args : List Nat) :
    (c.call p dest callee args).Verified p := by
  unfold call
  split
  next fault hfault => exact fail_verified (c.dynamic_started p callee args) hfault
  next vs v m hstarted =>
    have hc' : Verified { c with machine := m } := ⟨hc.running, hc.waiting⟩
    exact write_verified hc' hdest (.ok v)
  next vs routine hstarted =>
    obtain ⟨hfaults, hentered⟩ := hp.enter (started_ok hstarted).2
    split
    next frame henter =>
      refine ⟨hentered frame henter, fun caller hcaller => ?_⟩
      rcases List.mem_cons.mp hcaller with rfl | hcaller
      · exact ⟨hc.running, hdest⟩
      · exact hc.waiting caller hcaller
    next fault hfault => exact hfaults fault hfault

theorem alloca_verified (hc : c.Verified) {dest : Nat}
    (hdest : dest < c.frame.routine.regTypes.length) (record : String) :
    (c.alloca p dest record).Verified p := by
  unfold alloca
  split
  · exact .dynamic rfl
  next layout hlayout =>
    have hc' : Verified ⟨(c.machine.allocate layout record).2, c.frame, c.callers⟩ :=
      ⟨hc.running, hc.waiting⟩
    exact write_verified hc' hdest (.ok _)

/-- An operation that is neither a phi nor an end. -/
theorem exec_inner_verified (hp : p.Verified) (hc : c.Verified) {op : Op} (hop : op.isInner = true)
    (htyped : ∀ reg ∈ op.registers, reg < c.frame.routine.regTypes.length) :
    (c.exec p op).Verified p := by
  have hdest {dest : Nat} (h : op.dest? = some dest) : dest < c.frame.routine.regTypes.length :=
    htyped dest (by simp [Op.registers, h])
  have hfloat := Registers.dynamic_readFloat c.frame.regs
  cases op with
  | const dest x => exact write_verified hc (hdest rfl) (.ok _)
  | arith kind dest a b =>
    exact write_verified hc (hdest rfl) (.bind (hfloat a) fun x => .bind (hfloat b) fun y => .ok _)
  | truthy dest src => exact write_verified hc (hdest rfl) (.bind (hfloat src) fun x => .ok _)
  | call dest callee args => exact call_verified hp hc (hdest rfl) callee args
  | alloca dest record => exact alloca_verified hc (hdest rfl) record
  | fieldAddr dest base outer inner =>
    exact write_verified hc (hdest rfl) (c.frame.regs.dynamic_fieldAddr _ base outer inner)
  | store src addr =>
    rw [exec]
    split
    · exact ⟨hc.running, hc.waiting⟩
    next fault hfault => exact fail_verified (c.frame.regs.dynamic_storeParts _ src addr) hfault
  | phi dest incoming => cases hop
  | jump target => cases hop
  | branch cond thenBlock elseBlock => cases hop
  | ret src => cases hop

/-- An operation that ends a block. -/
theorem exec_end_verified {op : Op} (hop : op.isTerminator = true)
    (hleads : ∀ t ∈ op.successors, t < c.frame.routine.blocks.length) (hframe : c.frame.Flawless)
    (hwaiting : ∀ q ∈ c.callers, q.Verified) : (c.exec p op).Verified p := by
  cases op with
  | jump target => exact goTo_verified hframe hwaiting (hleads target (by simp [Op.successors]))
  | branch cond thenBlock elseBlock =>
    rw [exec]
    split
    next taken _ =>
      refine goTo_verified hframe hwaiting (hleads _ ?_)
      cases taken <;> simp [Op.successors]
    next fault hfault => exact fail_verified (c.frame.regs.dynamic_taken cond) hfault
  | ret src =>
    rw [exec]
    split
    next v _ => exact giveBack_verified hwaiting v
    next fault hfault => exact fail_verified (Registers.dynamic_read _ src) hfault
  | _ => cases hop

/-- Verified code stays verified code, or ends, or fails in a way that verified code may. -/
theorem step_verified (hp : p.Verified) (hc : c.Verified) : (c.step p).Verified p := by
  have hcompletes := hc.running.completes
  unfold step
  split
  next hops => exact absurd hops hcompletes.ne_nil
  next op rest hops =>
    have hframe : (c.takeUp rest).frame.Flawless := ⟨hc.running.flawless, hc.running.sized⟩
    rw [hops] at hcompletes
    cases hcompletes with
    | ends terminates leads => exact exec_end_verified terminates leads hframe hc.waiting
    | inner plain typed behind =>
      have hc' : (c.takeUp rest).Verified := ⟨⟨hframe, behind⟩, hc.waiting⟩
      exact exec_inner_verified hp hc' plain typed

end Config

/-! ## Runs -/

namespace Machine

variable {p : Program}

/-- If no step is left there still is an operation, so that the budget is what stops the run. -/
theorem run_tolerated (hp : p.Verified) (budget left : Nat) {c : Config} (hc : c.Verified)
    {e : RunError} (h : (run p budget left c).1 = .error e) : e.Tolerated p := by
  induction left generalizing c with
  | zero =>
    obtain ⟨m, hm⟩ := Config.run_zero (p := p) budget hc.running.completes.ne_nil
    rw [hm] at h
    cases h
    exact .budget
  | succ left ih =>
    have hstep := c.step_verified hp hc
    rw [run] at h
    split at h
    next c' hnext => rw [hnext] at hstep; exact ih hstep h
    next => cases h
    next e' m hfailed =>
      rw [hfailed] at hstep
      cases h
      exact hstep

theorem call_tolerated (hp : p.Verified) (budget : Nat) (m : Machine) (name : String)
    (args : List Float) {e : RunError} (h : (m.call p budget name args).1 = .error e) :
    e.Tolerated p := by
  rw [call] at h
  split at h
  next fault hfault =>
    cases h
    exact .dynamic (dynamic_invoke p 0 m name _ fault hfault)
  next => cases h
  next routine hstarted =>
    obtain ⟨hfaults, hentered⟩ := hp.enter hstarted
    split at h
    next fault hfault =>
      cases h
      exact hfaults fault hfault
    next frame henter =>
      have hc : Config.Verified ⟨m, frame, []⟩ := ⟨hentered frame henter, by simp⟩
      exact run_tolerated hp budget _ hc h

/-- A function with more parameters than registers cannot be called. -/
theorem call_outside {r : Routine} {name : String} (hr : p.get? name = some r)
    (hbody : r.isDeclaration = false) (hlacks : r.regTypes.length < r.arity) (budget : Nat)
    (m : Machine) {args : List Float} (hargs : args.length = r.arity) :
    m.call p budget name args = (.error ⟨.outsideFrame r.regTypes.length, some r.name⟩, m) := by
  have hlength : (args.map Value.float).length = r.arity := by simp [hargs]
  have hstarted : m.invoke p 0 name (args.map Value.float) = .ok (.body r) := by
    simp [invoke, hr, hbody, hargs, maxDepth]
  rw [call, hstarted]
  dsimp only
  rw [Frame.enter_outside (hlength ▸ hlacks)]

end Machine

/-- Calls of verified code do not leave the blocks that there are, do not run over the end of a block and
do not come upon a phi behind its start, whoever wrote the code. -/
theorem Program.Verified.stays_in_blocks {p : Program} (hp : p.Verified) (budget : Nat) (m : Machine)
    (name : String) (args : List Float) {e : RunError}
    (h : (m.call p budget name args).1 = .error e) :
    (∀ block, e.fault ≠ .missingBlock block) ∧ (∀ block, e.fault ≠ .fellOff block) ∧
      e.fault ≠ .latePhi := by
  have he := Machine.call_tolerated hp budget m name args h
  refine ⟨fun block hfault => ?_, fun block hfault => ?_, fun hfault => ?_⟩
  all_goals
    cases he with
    | dynamic dynamic => cases hfault; cases dynamic
    | budget => cases hfault
    | arguments => cases hfault

/-- A function whose phi has no edge from the block that leads to it, which is no flaw. -/
def gapProgram : Program :=
  (Program.empty .builtin).define ⟨⟨"gap", ["x"], .f64⟩,
    [⟨"entry", [.jump 1]⟩, ⟨"join", [.phi 1 [], .ret 1]⟩], [.f64, .f64]⟩

theorem Program.Verified.stays_in_blocks_gap : gapProgram.Verified ∧
    (({} : Machine).call gapProgram 10 "gap" [1]).1 = .error ⟨.missingEdge 1 0, some "gap"⟩ ∧
      (∀ block, Fault.missingEdge 1 0 ≠ .missingBlock block) ∧
      (∀ block, Fault.missingEdge 1 0 ≠ .fellOff block) ∧ Fault.missingEdge 1 0 ≠ .latePhi := by
  have hp : gapProgram.Verified := by
    intro r hr _
    rw [List.mem_singleton.mp hr]
    rfl
  have hcall : (({} : Machine).call gapProgram 10 "gap" [1]).1 =
      .error ⟨.missingEdge 1 0, some "gap"⟩ := by
    rfl
  exact ⟨hp, hcall, hp.stays_in_blocks 10 {} "gap" [1] hcall⟩

/-- Verified code writes outside of a frame only where arguments are placed, and only in functions that
have more parameters than registers. Every call of such a function does so. -/
theorem Program.Verified.outside_frame {p : Program} (hp : p.Verified) (budget : Nat) (m : Machine)
    (name : String) (args : List Float) :
    (∀ reg function, (m.call p budget name args).1 = .error ⟨.outsideFrame reg, function⟩ →
      ∃ r ∈ p.routines, r.isDeclaration = false ∧ r.regTypes.length < r.arity ∧
        function = some r.name ∧ ∀ values : List Value, values.length = r.arity →
          Frame.argumentRegisters r values = .error (.outsideFrame reg)) ∧
    ∀ r, p.get? name = some r → r.isDeclaration = false → r.regTypes.length < r.arity →
      args.length = r.arity →
        m.call p budget name args = (.error ⟨.outsideFrame r.regTypes.length, some r.name⟩, m) := by
  refine ⟨fun reg function h => ?_, fun r hr hbody hlacks hargs =>
    Machine.call_outside hr hbody hlacks budget m hargs⟩
  cases Machine.call_tolerated hp budget m name args h with
  | dynamic dynamic => cases dynamic
  | arguments mem body lacks =>
    refine ⟨_, mem, body, lacks, rfl, fun values hvalues => ?_⟩
    exact Frame.argumentRegisters_outside (hvalues ▸ lacks)

/-- A function with two parameters and one register, which is no flaw. -/
def crampedProgram : Program :=
  (Program.empty .builtin).define ⟨⟨"first", ["x", "y"], .f64⟩, [⟨"entry", [.ret 0]⟩], [.f64]⟩

theorem verified_crampedProgram : crampedProgram.Verified := by
  intro r hr _
  rw [List.mem_singleton.mp hr]
  rfl

theorem Program.Verified.outside_frame_cramped : crampedProgram.Verified ∧
    (({} : Machine).call crampedProgram 10 "first" [1, 2]).1 =
      .error ⟨.outsideFrame 1, some "first"⟩ ∧
    ∃ r ∈ crampedProgram.routines, r.isDeclaration = false ∧ r.regTypes.length < r.arity := by
  have hcall : (({} : Machine).call crampedProgram 10 "first" [1, 2]).1 =
      .error ⟨.outsideFrame 1, some "first"⟩ := by
    rfl
  obtain ⟨r, hr, hbody, hlacks, -⟩ :=
    (verified_crampedProgram.outside_frame 10 {} "first" [1, 2]).1 _ _ hcall
  exact ⟨verified_crampedProgram, hcall, r, hr, hbody, hlacks⟩

/-- That all functions are verified does not keep calls from writing outside of a frame. -/
theorem Program.verified_not_sufficient : ¬ ∀ p : Program, p.Verified →
    ∀ budget (m : Machine) name args reg function,
      (m.call p budget name args).1 ≠ .error ⟨.outsideFrame reg, function⟩ := by
  intro h
  refine h crampedProgram verified_crampedProgram 10 {} "first" [1, 2] 1 (some "first") ?_
  rfl

end PoseLang
