import PoseLang.Proofs.Machine.Budget
import PoseLang.Proofs.Meaning.Simulation

/-!
# Calls do what they mean

Where a program implements a source, what calls do in the machine is what they do in the evaluator, from
inside of functions by induction on the ticks (`Source.Implemented.callsRealized`), and so from outside
(`Source.Implemented.call`).
-/

namespace PoseLang

open Registers (Agree)
open Allocation (Kept)

/-! ## Parameters -/

namespace Builder

variable {b : Builder} {p : String}

theorem VarsIn.parameter {vars : Std.ExtTreeMap String Float} {regs : Registers} {x : Float}
    (h : b.VarsIn vars regs) (hb : b.Ready) (hx : regs.Holds b.regTypes.length (.float x)) :
    (b.parameter p).VarsIn (vars.insert p x) regs := by
  intro name reg hname
  rw [Std.ExtTreeMap.getElem?_insert]
  rcases lookup?_parameter hname with ⟨rfl, rfl⟩ | ⟨hne, hold⟩
  · exact ⟨by simp [typeAt, typeOf?, parameter_regTypes], x, by simp, hx⟩
  · obtain ⟨hty, y, hy, hreg⟩ := h hold
    refine ⟨?_, y, by simp [hne, hy], hreg⟩
    rw [← hty]
    exact typeAt_of_prefix (List.prefix_append _ _) (hb.bound_lt hold)

end Builder

namespace Definition

variable {b : Builder}

/-- The parameters are the arguments, of a repeated one the last. -/
theorem varsIn_bindParams {vars : Std.ExtTreeMap String Float} {regs : Registers}
    {params : List String} {args : List Float} (hb : b.Ready) (hvars : b.VarsIn vars regs)
    (hlen : params.length = args.length)
    (hargs : ∀ i x, args[i]? = some x → regs.Holds (b.regTypes.length + i) (.float x)) :
    (bindParams params b).VarsIn
      ((params.zip args).foldl (fun vars p => vars.insert p.1 p.2) vars) regs := by
  induction params generalizing b vars args with
  | nil => exact hvars
  | cons p params ih =>
    cases args with
    | nil => cases hlen
    | cons x args =>
      refine ih (b := b.parameter p) hb.parameter (hvars.parameter hb (hargs 0 x rfl))
        (Nat.succ.inj hlen) fun i y hy => ?_
      rw [Builder.parameter_regTypes, List.length_append, List.length_singleton, Nat.add_assoc,
        Nat.add_comm 1 i]
      exact hargs (i + 1) y hy

end Definition

theorem Builder.varsIn_start (regs : Registers) : Builder.start.VarsIn ∅ regs :=
  fun h => by simp [Builder.lookup?, Builder.start] at h

/-- The registers of a call that starts. -/
theorem Frame.argumentRegisters_ok {r : Routine} {xs : List Float}
    (hlen : xs.length ≤ r.regTypes.length) :
    ∃ regs, argumentRegisters r (xs.map .float) = .ok regs ∧ regs.size = r.regTypes.length ∧
      ∀ i x, xs[i]? = some x → regs.Holds i (.float x) := by
  refine ⟨_, if_pos (by simpa using hlen), ?_, fun i x hx => ?_⟩
  · simp
    omega
  · obtain ⟨hi, rfl⟩ := List.getElem?_eq_some_iff.mp hx
    simp [Registers.Holds, List.getElem?_append_left, hi]

theorem Frame.enter_ok {r : Routine} {args : List Value} {regs : Registers} {frame : Frame}
    (hregs : argumentRegisters r args = .ok regs) (henter : enterBlock r regs none 0 = .ok frame) :
    enter r args = .ok frame := by
  rw [enter, hregs]
  exact henter

/-! ## Bodies -/

namespace Op.Begin

/-- Every block is a beginning of itself. -/
theorem refl : ∀ ops : List Op, Begin ops ops
  | [] => .rest (by simp)
  | _ :: ops => .cons .same (refl ops)

end Op.Begin

theorem Builder.Within.refl {pending : Nat → Prop} (b : Builder) : b.Within pending b.blocks :=
  fun _ blk hblk => ⟨blk, hblk, .inr (.refl blk.ops)⟩

/-- A value is about to be given back: by the next step a function ends that was called with some
callers waiting. -/
structure Config.Returns (p : Program) (r : Routine) (callers : List Caller) (memory : Array Allocation)
    (v : Value) (c : Config) : Prop where
  callers : c.callers = callers
  memory : Kept memory c.machine.memory
  fits : v.Fits p.records c.machine.memory r.signature.ret
  step : ∃ rest, c.step p = (c.takeUp rest).giveBack v

section

variable {p : Program} {r : Routine} {params : List String} {body : Expr} {ticks : Nat}
  {onCall : Scope → String → List Float → Eval Value}

/-- A body that is entered: the machine stands where lowering started, with the arguments in the
registers of the parameters. -/
theorem Lowered.enter {ctx : Context} {b : Builder} {result : Nat}
    (derived : Lowered ctx body (Definition.bindParams params .start) result b) {name : String}
    (hr : r = (b.emit (.ret result)).finish ⟨name, params, b.typeAt result⟩) {args : List Float}
    (hlen : params.length = args.length) (m : Machine) (callers : List Caller) :
    ∃ frame, Frame.enter r (args.map .float) = .ok frame ∧ frame.routine = r ∧
      Config.At r (Definition.bindParams params .start) ⟨m, frame, callers⟩ ∧
      Scope.Held ⟨r.name, callers.length + 1, Scope.parameters params args⟩ r
        (Definition.bindParams params .start) ⟨m, frame, callers⟩ ∧
      (Definition.bindParams params .start).Open (fun _ => False) ∧
      b.Inside (fun _ => False) r b.declarations := by
  obtain ⟨hblocks, hcurrent, -, hparams⟩ := Definition.bindParams_eq (b := .start) params
  have hready := Definition.ready_bindParams params Builder.ready_start
  have hb : (Definition.bindParams params .start).Open fun _ => False :=
    ⟨hready, fun _ h => h.elim, id⟩
  have hcount : args.length ≤ b.regTypes.length := by
    have hregs := (derived.grown hready).1.regTypes.length_le
    rw [hparams, hlen] at hregs
    exact Nat.le_trans (Nat.le_add_left _ _) hregs
  subst hr
  have hi : b.Inside (fun _ => False)
      ((b.emit (.ret result)).finish ⟨name, params, b.typeAt result⟩) b.declarations :=
    ⟨.of_emit (.refl (b.emit (.ret result))) rfl, Nat.le_refl _, fun _ hs => hs⟩
  have hstart := derived.inside hready hi
  obtain ⟨regs, hregs, hsize, hargs⟩ := Frame.argumentRegisters_ok
    (r := (b.emit (.ret result)).finish ⟨name, params, b.typeAt result⟩) hcount
  have henter := hstart.enterBlock hb (by rw [hblocks, hcurrent]; rfl) regs none
  have hentered := Frame.enter_ok hregs
    ((congrArg (Frame.enterBlock _ regs none) hcurrent).symm.trans henter)
  refine ⟨_, hentered, rfl, ⟨rfl, rfl, rfl, hsize⟩, ⟨rfl, rfl, ?_⟩, hb, hi⟩
  exact Definition.varsIn_bindParams Builder.ready_start (Builder.varsIn_start regs) hlen
    (by simpa [Builder.start] using hargs)

/-- Behind a body its value is given back. -/
theorem Lowered.ops_end {ctx : Context} {b : Builder} {result : Nat}
    (derived : Lowered ctx body (Definition.bindParams params .start) result b) {name : String}
    (hr : r = (b.emit (.ret result)).finish ⟨name, params, b.typeAt result⟩) {c : Config}
    (hat : c.At r b) : ∃ rest, c.frame.ops = .ret result :: rest := by
  subst hr
  have hended : (b.emit (.ret result)).Within (fun _ => False) (b.emit (.ret result)).blocks := .refl _
  have hready := Definition.ready_bindParams params Builder.ready_start
  exact ⟨_, hat.ops.trans (hended.rest_emit (derived.grown hready).1.current_lt id rfl)⟩

/-- A body that is entered does what it means, and gives the value back. -/
theorem Routine.Implements.realizes (h : r.Implements p params body)
    (calls : CallsRealized p ticks onCall) {args : List Float} (hlen : params.length = args.length)
    (m : Machine) (callers : List Caller) :
    ∃ frame, Frame.enter r (args.map .float) = .ok frame ∧ frame.routine = r ∧
      Config.Realizes p ticks (Config.Returns p r callers m.memory) ⟨m, frame, callers⟩
        (body.eval p.records onCall ticks
          ⟨r.name, callers.length + 1, Scope.parameters params args⟩ m.world) := by
  cases h with
  | @lowered ctx b name result linked derived =>
    obtain ⟨frame, hentered, hroutine, hat, held, hb, hi⟩ := derived.enter rfl hlen m callers
    refine ⟨frame, hentered, hroutine, (derived.simulates linked calls hb hi hat held).imp ?_⟩
    rintro v c ⟨hat, hf, has⟩
    obtain ⟨rest, hops⟩ := derived.ops_end rfl hat
    exact ⟨hf.callers, hf.memory, has.fits, _, Config.step_ret hops has.holds⟩

end

/-! ## Calls from inside -/

section

variable {s : Source} {p : Program} {name : String} {f : SourceFunction} {r : Routine}

theorem Source.invoke_eq {run : Scope → Expr → Eval Value} {caller : Option String} {depth : Nat}
    {args : List Float} (hf : s.functions[name]? = some f) (hlen : f.params.length = args.length) :
    s.invoke run caller depth name args =
      match f.body with
      | none =>
        match Host.run? name args with
        | some (x, text) => do
          Eval.write text
          pure (.float x)
        | none => Eval.fault (.noHost name) caller
      | some body =>
        if maxDepth ≤ depth then Eval.fault .depthExceeded caller
        else run ⟨name, depth + 1, Scope.parameters f.params args⟩ body := by
  rw [invoke, hf]
  exact if_neg (not_not_intro hlen)

section

variable {run : Scope → Expr → Eval Value} {ticks : Nat} {scope : Scope} {c : Config} {dest : Nat}
  {args : List Nat} {rest : List Op} {xs : List Float}

/-- A call inside of a function, given what bodies do. -/
theorem Source.Implemented.realizes_invoke (h : s.Implemented p)
    (hops : c.frame.ops = .call dest name args :: rest) (hdest : dest < c.frame.regs.size)
    (hargs : c.frame.regs.HoldAll args xs) (hr : p.get? name = some r) (hlen : r.arity = xs.length)
    (hfunction : scope.function = c.frame.routine.name) (hdepth : scope.depth = c.depth)
    (hbody : ∀ {params : List String} {body : Expr}, r.Implements p params body →
      params.length = xs.length →
      (∀ frame, Frame.enter r (xs.map .float) = .ok frame →
        c.step p = .next ⟨c.machine.tick, frame, ⟨(c.takeUp rest).frame, dest⟩ :: c.callers⟩) →
      c.Realizes p ticks (fun v c' => ∃ m, c' = c.wrote rest dest v m ∧
        Kept c.machine.memory m.memory ∧ v.Fits p.records m.memory r.signature.ret)
        (run ⟨name, c.depth + 1, Scope.parameters params xs⟩ body c.machine.world)) :
    c.Realizes p ticks (fun v c' => ∃ m, c' = c.wrote rest dest v m ∧
      Kept c.machine.memory m.memory ∧ v.Fits p.records m.memory r.signature.ret)
      (s.invoke run (some scope.function) scope.depth name xs c.machine.world) := by
  obtain ⟨f, hf, hstands⟩ := h.function hr
  have hparams : f.params.length = xs.length := hstands.arity.symm.trans hlen
  have hstep := Config.step_call (p := p) hops hargs
  rw [Machine.invoke_floats hr hlen] at hstep
  rw [invoke_eq hf hparams, hfunction, hdepth]
  cases hstands with
  | @declared _ params' external _ =>
    have hdeclaration : (Routine.declaration (.external external params')).isDeclaration = true := rfl
    rw [if_pos hdeclaration] at hstep
    cases hhost : Host.run? name xs with
    | none =>
      rw [hhost] at hstep
      exact .failed hstep rfl (.inr ⟨name, rfl⟩)
    | some answer =>
      obtain ⟨x, text⟩ := answer
      rw [hhost] at hstep
      have hwritten := hstep.trans (Config.write_ok
        (c := ⟨{ c.machine.tick with output := c.machine.output ++ text }, _, c.callers⟩) hdest)
      exact .step hwritten (.value rfl ⟨_, rfl, .refl, .float⟩)
  | defined lowered =>
    rw [if_neg (by simp [lowered.isDeclaration])] at hstep
    by_cases hdeep : maxDepth ≤ c.depth
    · rw [if_pos hdeep] at hstep
      simp only [if_pos hdeep]
      exact .failed hstep rfl (.inl rfl)
    · rw [if_neg hdeep] at hstep
      simp only [if_neg hdeep]
      refine hbody lowered hparams fun frame hframe => ?_
      simp only [hframe] at hstep
      exact hstep

/-- What calls inside of functions do in the machine is what they do in the evaluator. -/
theorem Source.Implemented.callsRealized (h : s.Implemented p) (ticks : Nat) :
    CallsRealized p ticks
      fun scope => s.invoke (s.run ticks) (some scope.function) scope.depth := by
  induction ticks with
  | zero =>
    intro scope c dest callee args rest xs r hops hdest hargs hr hlen hfunction hdepth
    refine h.realizes_invoke hops hdest hargs hr hlen hfunction hdepth fun _ _ _ => ?_
    exact ⟨0, c, Nat.le_refl _, .refl⟩
  | succ ticks ih =>
    intro scope c dest callee args rest xs r hops hdest hargs hr hlen hfunction hdepth
    refine h.realizes_invoke hops hdest hargs hr hlen hfunction hdepth
      fun lowered hparams hstep => ?_
    obtain ⟨frame, hframe, -, hrun⟩ := lowered.realizes ih hparams c.machine.tick
      (⟨(c.takeUp rest).frame, dest⟩ :: c.callers)
    rw [Program.name_of_get? hr, ← h.records] at hrun
    refine .tick (hstep frame hframe) (hrun.followed fun v c' hreturns => ?_)
    obtain ⟨rest', hback⟩ := hreturns.step
    rw [Config.giveBack, show (c'.takeUp rest').callers = _ from hreturns.callers] at hback
    have hwritten := hback.trans (Config.write_ok
      (c := ⟨c'.machine.tick, (c.takeUp rest).frame, c.callers⟩) hdest)
    exact .step hwritten (.value rfl ⟨_, rfl, hreturns.memory, hreturns.fits⟩)

end

end

/-! ## Calls from outside -/

namespace Machine

/-- A call does what an evaluation says. -/
def Realizes (p : Program) (ticks : Nat) (ret : Ty) (m : Machine) (name : String)
    (args : List Float) : Option (Except Failure Value × World) → Prop
  | none => ∀ budget, budget - m.steps + 1 < ticks → m.Exhausts p budget name args
  | some (.ok v, w) =>
    ∃ m', m.Ends p name args (.ok v) m' ∧ m'.world = w ∧ v.Fits p.records m'.memory ret
  | some (.error (.fault e), w) =>
    ∃ m', m.Ends p name args (.error e) m' ∧ m'.world = w ∧ e.fault.IsLimit
  | some (.error .meaningless, _) => False

end Machine

namespace Config

variable {p : Program} {c : Config}

/-- Where a block ends without an end, none of the limits is what is run into. -/
theorem ops_ne_nil_of_failed {e : RunError} {m : Machine} (h : c.step p = .failed e m)
    (he : e.fault.IsLimit) : c.frame.ops ≠ [] := by
  intro hnil
  rw [step, hnil] at h
  cases h
  rcases he with he | ⟨_, he⟩ <;> cases he

end Config

section

variable {s : Source} {p : Program} {name : String} {r : Routine} {args : List Float}

/-- A call of a function with a body is a run of the body. -/
theorem Machine.realizes_of_run {m : Machine} {frame : Frame} {ticks : Nat}
    {result : Option (Except Failure Value × World)}
    (hcall : ∀ budget, m.call p budget name args = run p budget (budget - m.steps) ⟨m, frame, []⟩)
    (h : Config.Realizes p ticks (Config.Returns p r [] m.memory) ⟨m, frame, []⟩ result) :
    m.Realizes p (ticks + 1) r.signature.ret name args result := by
  match result, h with
  | none, ⟨n, c, hn, hreach⟩ =>
    intro budget hlt
    rw [Exhausts, hcall]
    exact hreach.run_of_lt budget (by omega)
  | some (.ok v, w), ⟨n, c, hreach, hw, hreturns⟩ =>
    obtain ⟨rest, hstep⟩ := hreturns.step
    rw [Config.giveBack, show (c.takeUp rest).callers = _ from hreturns.callers] at hstep
    refine ⟨c.machine.tick, ends_of_reaches hcall hreach (Config.ops_ne_nil_of_done hstep) ?_, hw,
      hreturns.fits⟩
    intro budget left
    rw [run, hstep]
    rfl
  | some (.error (.fault e), w), ⟨n, c, m', hreach, hstep, hw, he⟩ =>
    refine ⟨m', ends_of_reaches hcall hreach (Config.ops_ne_nil_of_failed hstep he) ?_, hw, he⟩
    intro budget left
    rw [run, hstep]

/-- Calls from outside do what they mean. -/
theorem Source.Implemented.call (h : s.Implemented p) (ticks : Nat) (m : Machine)
    (hr : p.get? name = some r) (hlen : r.arity = args.length) :
    m.Realizes p ticks r.signature.ret name args (s.call ticks name args m.world) := by
  obtain ⟨f, hf, hstands⟩ := h.function hr
  have hparams : f.params.length = args.length := hstands.arity.symm.trans hlen
  have hinvoke : m.invoke p 0 name (args.map .float) = _ := Machine.invoke_floats hr hlen
  rw [Source.call, invoke_eq hf hparams]
  cases hstands with
  | @declared _ params' external _ =>
    have hdeclaration : (Routine.declaration (.external external params')).isDeclaration = true := rfl
    rw [if_pos hdeclaration] at hinvoke
    cases hhost : Host.run? name args with
    | none =>
      rw [hhost] at hinvoke
      refine ⟨m, Machine.ends_of_call fun budget => ?_, rfl, .inr ⟨name, rfl⟩⟩
      rw [Machine.call, hinvoke]
    | some answer =>
      obtain ⟨x, text⟩ := answer
      rw [hhost] at hinvoke
      refine ⟨{ m with output := m.output ++ text }, Machine.ends_of_call fun budget => ?_, rfl, .float⟩
      rw [Machine.call, hinvoke]
  | defined lowered =>
    rw [if_neg (by simp [lowered.isDeclaration]), if_neg (by decide)] at hinvoke
    simp only [if_neg (show ¬ maxDepth ≤ 0 by decide)]
    cases ticks with
    | zero => exact fun budget hlt => absurd hlt (Nat.not_lt_zero _)
    | succ ticks =>
      obtain ⟨frame, hframe, -, hrun⟩ := lowered.realizes (h.callsRealized ticks) hparams m []
      rw [Program.name_of_get? hr, ← h.records] at hrun
      refine Machine.realizes_of_run (fun budget => ?_) hrun
      rw [Machine.call, hinvoke]
      simp only [hframe]

/-- A call of a function that there is not fails, on the machine and in the source. -/
theorem Source.Implemented.call_unknown (h : s.Implemented p) (hr : p.get? name = none) (ticks : Nat)
    (m : Machine) (args : List Float) :
    s.call ticks name args m.world = some (.error (.fault ⟨.unknownFunction name, none⟩), m.world) ∧
      m.Ends p name args (.error ⟨.unknownFunction name, none⟩) m := by
  refine ⟨by rw [Source.call, invoke, h.missing.mpr hr]; rfl, Machine.ends_of_call fun budget => ?_⟩
  rw [Machine.call, Machine.invoke, hr]

/-- A call with another number of arguments fails, on the machine and in the source. -/
theorem Source.Implemented.call_arity (h : s.Implemented p) (hr : p.get? name = some r)
    (hlen : r.arity ≠ args.length) (ticks : Nat) (m : Machine) :
    s.call ticks name args m.world =
        some (.error (.fault ⟨.wrongArity name r.arity args.length, none⟩), m.world) ∧
      m.Ends p name args (.error ⟨.wrongArity name r.arity args.length, none⟩) m := by
  obtain ⟨f, hf, hstands⟩ := h.function hr
  rw [hstands.arity] at hlen
  refine ⟨?_, Machine.ends_of_call fun budget => ?_⟩
  · rw [Source.call, invoke, hf, hstands.arity]
    simp only [if_pos hlen]
    rfl
  · rw [Machine.call, Machine.invoke, hr]
    simp only [hstands.arity, List.length_map, if_pos hlen]

end

end PoseLang
