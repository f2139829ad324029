import PoseLang.Proofs.Machine.Budget
import PoseLang.Proofs.Machine.Engine

/-!
# Engines do what machines do

A machine keeps an allocation with its name in one place, and a run has a list of the functions that wait.
An engine that starts with what a machine holds (`Machine.engine`) does to its two arrays what the machine
does to its memory, and comes to the same end (`Machine.agrees`). However a call ends, the engine then
holds what the machine holds, in as many functions as before: its arrays are of one length, and its number
is back (`Machine.call_engine`).

The recursion of an engine has no fuel. So the calls of every program end, verified or not, within the
budget and the limit on the depth of calls.
-/

namespace PoseLang

open Engine (Ending runOps runBlock)

/-- The operations that go on to the next one in the block. -/
def Op.isStraight : Op → Bool
  | .call .. | .jump .. | .branch .. | .ret .. => false
  | _ => true

namespace Machine

/-- The engine that holds what a machine holds, in a number of functions with bodies. -/
def engine (m : Machine) (depth : Nat) : Engine where
  cells := m.memory.map Allocation.cells
  records := m.memory.map Allocation.record
  steps := m.steps
  output := m.output
  depth := depth

/-! ## The two arrays -/

theorem engine_fresh : engine {} 0 = {} := by
  simp only [engine, Array.map_empty]

section

variable (m : Machine) (depth : Nat)

theorem size_cells_engine : (m.engine depth).cells.size = m.memory.size :=
  Array.size_map

theorem size_records_engine : (m.engine depth).records.size = m.memory.size :=
  Array.size_map

theorem widthAt_engine : (m.engine depth).widthAt = m.widthAt := by
  funext alloc
  rw [Engine.widthAt, widthAt, engine, Array.getElem?_map]
  cases m.memory[alloc]? <;> rfl

theorem allocate_engine (l : Layout) (record : String) :
    (m.engine depth).allocate l record = (m.allocate l record).2.engine depth := by
  simp only [Engine.allocate, allocate, engine, Array.map_push]

/-- An update of an allocation, seen through a part of it. -/
theorem map_modify {α : Type} (part : Allocation → α) (f : Allocation → Allocation) (g : α → α)
    (h : ∀ a, part (f a) = g (part a)) (memory : Array Allocation) (alloc : Nat) :
    (memory.modify alloc f).map part = (memory.map part).modify alloc g := by
  apply Array.ext_getElem?
  intro i
  simp only [Array.getElem?_map, Array.getElem?_modify]
  split
  · cases memory[i]? with
    | none => rfl
    | some a => exact congrArg some (h a)
  · rfl

theorem store_engine (alloc cell : Nat) (x : Float) :
    (m.engine depth).store alloc cell x = (m.store alloc cell x).engine depth := by
  have hcells := map_modify Allocation.cells (fun a => { a with cells := a.cells.set cell x })
    (·.set cell x) (fun _ => rfl) m.memory alloc
  have hrecords := map_modify Allocation.record (fun a => { a with cells := a.cells.set cell x })
    id (fun _ => rfl) m.memory alloc
  have hsame : (m.memory.map Allocation.record).modify alloc id = m.memory.map Allocation.record := by
    apply Array.ext'
    rw [Array.toList_modify, List.modify_id]
  simp only [Engine.store, store, engine, hcells, hrecords, hsame]

/-- No allocation is without a name. -/
theorem materialize_engine (v : Value) : (m.engine depth).materialize v = m.materialize v := by
  cases v with
  | float x => rfl
  | bool b => rfl
  | ptr alloc cell =>
    simp only [Engine.materialize, materialize, engine, Array.getElem?_map]
    cases m.memory[alloc]? <;> rfl

end

end Machine

/-- What a machine starts a call with, where an engine starts it with something. -/
def Engine.Start.invocation (m : Machine) : Engine.Start → Invocation
  | .host x text => .returned (.float x) { m with output := m.output ++ text }
  | .body routine => .body routine

namespace Machine

theorem invoke_engine (p : Program) (m : Machine) (depth : Nat) (name : String) (args : List Value) :
    m.invoke p depth name args =
      ((m.engine depth).invoke p name args).map (Engine.Start.invocation m) := by
  unfold invoke Engine.invoke
  cases p.get? name with
  | none => rfl
  | some r =>
    dsimp only
    split
    · rfl
    · split
      · cases args.mapM Value.asFloat with
        | error fault => rfl
        | ok xs =>
          dsimp only [Bind.bind, Except.bind]
          cases Host.run? name xs <;> rfl
      · rw [show (m.engine depth).depth = depth from rfl]
        split <;> rfl

/-- An operation that goes on to the next one does on an engine what it does on a machine. -/
theorem exec_engine (p : Program) (m : Machine) (f : Frame) (callers : List Caller) {op : Op}
    (hop : op.isStraight = true) (depth : Nat) :
    ∃ m' : Machine, ((m.engine depth).exec p f.regs op).2 = m'.engine depth ∧
      Config.exec p ⟨m, f, callers⟩ op =
        Config.withRegs ⟨m', f, callers⟩ ((m.engine depth).exec p f.regs op).1 := by
  cases op with
  | const dest x => exact ⟨m, rfl, rfl⟩
  | arith kind dest a b =>
    refine ⟨m, rfl, ?_⟩
    rw [Config.exec, Engine.exec, Config.write]
    cases f.regs.readFloat a with
    | error fault => rfl
    | ok x => cases f.regs.readFloat b <;> rfl
  | truthy dest src =>
    refine ⟨m, rfl, ?_⟩
    rw [Config.exec, Engine.exec, Config.write]
    cases f.regs.readFloat src <;> rfl
  | alloca dest record =>
    rw [Config.exec, Config.alloca, Engine.exec]
    cases p.records[record]? with
    | none => exact ⟨m, rfl, rfl⟩
    | some l =>
      refine ⟨(m.allocate l record).2, m.allocate_engine depth l record, ?_⟩
      rw [m.size_cells_engine]
      rfl
  | fieldAddr dest base outer inner =>
    refine ⟨m, rfl, ?_⟩
    rw [Config.exec, Engine.exec, widthAt_engine, Config.write]
    cases f.regs.fieldAddr m.widthAt base outer inner <;> rfl
  | store src addr =>
    rw [Config.exec, Engine.exec, widthAt_engine]
    cases f.regs.storeParts m.widthAt src addr with
    | error fault => exact ⟨m, rfl, rfl⟩
    | ok parts => exact ⟨m.store parts.2.1 parts.2.2 parts.1, m.store_engine depth _ _ _, rfl⟩
  | phi dest incoming => exact ⟨m, rfl, rfl⟩
  | call dest callee args => cases hop
  | jump target => cases hop
  | branch cond thenBlock elseBlock => cases hop
  | ret src => cases hop

end Machine

namespace Frame

theorem routine_of_enterBlock {routine : Routine} {regs : Registers} {source : Option Nat}
    {block : Nat} {f : Frame} (h : enterBlock routine regs source block = .ok f) :
    f.routine = routine := by
  unfold enterBlock at h
  split at h
  · cases h
  · obtain ⟨taken, -, h⟩ := Except.bind_ok h
    obtain ⟨regs', -, h⟩ := Except.bind_ok h
    cases h
    rfl

theorem routine_of_enter {routine : Routine} {args : List Value} {f : Frame}
    (h : enter routine args = .ok f) : f.routine = routine := by
  obtain ⟨regs, -, hblock⟩ := Except.bind_ok h
  exact routine_of_enterBlock hblock

end Frame

/-! ## Both ways lead to the same end -/

/-- The end of a run behind a step. -/
def Progress.finish (p : Program) (budget left : Nat) : Progress → Except RunError Value × Machine
  | .next c => Machine.run p budget left c
  | .done v m => (.ok v, m)
  | .failed e m => (.error e, m)

/-- The end of a run behind the end of the function that is running: the one that waits for its value
goes on with it. -/
def Machine.resume (p : Program) (budget : Nat) (m : Machine) (name : String) (callers : List Caller) :
    Except RunError Value → Except RunError Value × Machine
  | .error e => (.error (e.inFunction name), m)
  | .ok v =>
    match callers with
    | [] => (.ok v, m)
    | caller :: callers =>
      ((Config.mk m caller.frame callers).write caller.dest (.ok v)).finish p budget (budget - m.steps)

/-- The end of a body on an engine, and then of the functions that wait for it, is the end of a run. -/
def Engine.Ending.Resumes {s : Engine} (p : Program) (budget : Nat) (name : String)
    (callers : List Caller) (e : s.Ending) (finish : Except RunError Value × Machine) : Prop :=
  ∃ m : Machine, e.engine = m.engine s.depth ∧ m.resume p budget name callers e.result = finish

namespace Machine

/-- Both ways of running a body from the middle of a block on lead to the same end, whatever functions
wait for it. -/
def Agrees (p : Program) (budget : Nat) (m : Machine) (f : Frame) : Prop :=
  ∀ callers, (runOps p budget (m.engine (callers.length + 1)) f).Resumes p budget f.routine.name callers
    (run p budget (budget - m.steps) ⟨m, f, callers⟩)

section

variable {p : Program} {budget depth : Nat} {m m' : Machine} {f : Frame} {rest : List Op} {op : Op}
  {callers : List Caller} {name : String} {args : List Value} {fault : Fault} {routine : Routine}
  {s t : Engine} {finish : Except RunError Value × Machine}

theorem resumes_since {e : t.Ending} (he : e.Resumes p budget name callers finish)
    (earlier : List Engine.Round) (h : s.steps ≤ t.steps) (hdepth : t.depth = s.depth) :
    (e.since earlier h).Resumes p budget name callers finish := by
  obtain ⟨m, hengine, hfinish⟩ := he
  exact ⟨m, hdepth ▸ hengine, hfinish⟩

theorem resumes_error (m : Machine) (depth : Nat) (fault : Fault) :
    (Ending.here (m.engine depth) (.error ⟨fault, none⟩)).Resumes p budget name callers
      (.error ⟨fault, some name⟩, m) :=
  ⟨m, rfl, rfl⟩

/-- Behind an operation that leaves registers or fails. -/
theorem resumes_behind (ht : t = m.engine s.depth) (h : s.steps ≤ t.steps)
    (regs : Except Fault Registers) {next : Registers → t.Ending}
    (hnext : ∀ regs, (next regs).Resumes p budget f.routine.name callers
      (run p budget (budget - m.steps) ⟨m, { f with regs }, callers⟩)) :
    (Ending.behind h regs next).Resumes p budget f.routine.name callers
      ((Config.withRegs ⟨m, f, callers⟩ regs).finish p budget (budget - m.steps)) := by
  subst ht
  cases regs with
  | ok regs => exact resumes_since (hnext regs) [] h rfl
  | error fault => exact resumes_since (resumes_error m s.depth fault) [] h rfl

theorem run_succ (left : Nat) (c : Config) :
    run p budget (left + 1) c = (c.step p).finish p budget left := by
  rw [run]
  cases c.step p <;> rfl

/-- A run whose next step is taken. -/
theorem run_cons (hops : f.ops = op :: rest) (hleft : ¬ budget ≤ m.steps) (callers : List Caller) :
    run p budget (budget - m.steps) ⟨m, f, callers⟩ =
      (Config.exec p ⟨m.tick, { f with ops := rest }, callers⟩ op).finish p budget
        (budget - m.tick.steps) := by
  have hsucc : budget - m.steps = budget - m.tick.steps + 1 := by
    have htick : m.tick.steps = m.steps + 1 := rfl
    omega
  rw [hsucc, run_succ, Config.step, hops]
  rfl

theorem agrees_nil (hops : f.ops = []) : Agrees p budget m f := by
  intro callers
  have hrun (left : Nat) : run p budget left ⟨m, f, callers⟩ =
      (.error ⟨.fellOff f.block, some f.routine.name⟩, m) := by
    cases left with
    | zero => simp only [run, Config.stop, hops]
    | succ left => simp only [run, Config.step, hops, Config.fail]
  rw [hrun, runOps, hops]
  exact resumes_error m _ _

theorem agrees_exhausted (hops : f.ops = op :: rest) (hleft : budget ≤ m.steps) :
    Agrees p budget m f := by
  intro callers
  rw [Nat.sub_eq_zero_of_le hleft, runOps]
  simp only [run, Config.stop, hops, show budget ≤ (m.engine _).steps from hleft, dite_true]
  exact resumes_since (resumes_error m.tick _ _) [] _ rfl

/-! ### Going to a block -/

theorem resumes_goTo (ih : ∀ f, Agrees p budget m f) (block : Nat) (callers : List Caller) :
    (runBlock p budget (m.engine (callers.length + 1)) f.routine f.regs (some f.block) block).Resumes
      p budget f.routine.name callers
      (((Config.mk m f callers).goTo block).finish p budget (budget - m.steps)) := by
  rw [runBlock, Config.goTo]
  dsimp only
  cases henter : Frame.enterBlock f.routine f.regs (some f.block) block with
  | error fault => exact resumes_since (resumes_error m _ fault) _ _ rfl
  | ok frame =>
    rw [← Frame.routine_of_enterBlock henter]
    exact resumes_since (ih frame callers) _ _ rfl

theorem agrees_jump {target : Nat} (hops : f.ops = .jump target :: rest)
    (hleft : ¬ budget ≤ m.steps) (ih : ∀ f, Agrees p budget m.tick f) : Agrees p budget m f := by
  intro callers
  rw [run_cons hops hleft, runOps]
  simp only [hops, show ¬ budget ≤ (m.engine _).steps from hleft, dite_false]
  exact resumes_since (resumes_goTo (f := { f with ops := rest }) ih target callers) [] _ rfl

theorem agrees_branch {cond thenBlock elseBlock : Nat}
    (hops : f.ops = .branch cond thenBlock elseBlock :: rest) (hleft : ¬ budget ≤ m.steps)
    (ih : ∀ f, Agrees p budget m.tick f) : Agrees p budget m f := by
  intro callers
  rw [run_cons hops hleft, runOps]
  simp only [hops, show ¬ budget ≤ (m.engine _).steps from hleft, dite_false, Config.exec]
  refine resumes_since ?_ [] _ rfl
  cases f.regs.taken cond with
  | error fault => exact resumes_error m.tick _ fault
  | ok b =>
    exact resumes_goTo (f := { f with ops := rest }) ih (if b then thenBlock else elseBlock) callers

/-! ### Staying in a block -/

theorem runOps_straight (hops : f.ops = op :: rest) (hop : op.isStraight = true)
    (hleft : ¬ budget ≤ s.steps) :
    runOps p budget s f = .since [] s.le_tick
      (.behind (Nat.le_of_eq (Engine.exec_counts p s.tick f.regs op).1.symm)
        (s.tick.exec p f.regs op).1 fun regs =>
          runOps p budget (s.tick.exec p f.regs op).2 { f with ops := rest, regs }) := by
  rw [runOps]
  simp only [hops, hleft, dite_false]
  cases op with
  | call dest callee args => cases hop
  | jump target => cases hop
  | branch cond thenBlock elseBlock => cases hop
  | ret src => cases hop
  | _ => rfl

/-- An engine that holds what a machine holds goes on as the machine does. -/
theorem Agrees.resumes (h : Agrees p budget m f) (ht : t = m.engine (callers.length + 1)) :
    (runOps p budget t f).Resumes p budget f.routine.name callers
      (run p budget (budget - m.steps) ⟨m, f, callers⟩) := by
  subst ht
  exact h callers

theorem agrees_straight (hops : f.ops = op :: rest) (hop : op.isStraight = true)
    (hleft : ¬ budget ≤ m.steps) (ih : ∀ m' f, m.tick.steps ≤ m'.steps → Agrees p budget m' f) :
    Agrees p budget m f := by
  intro callers
  obtain ⟨m', hengine, hexec⟩ :=
    exec_engine p m.tick { f with ops := rest } callers hop (callers.length + 1)
  have hsteps : m'.steps = m.tick.steps := by
    have hcounts := (Engine.exec_counts p (m.tick.engine (callers.length + 1)) f.regs op).1
    rw [hengine] at hcounts
    exact hcounts
  rw [run_cons hops hleft, runOps_straight hops hop hleft, hexec, ← hsteps]
  refine resumes_since ?_ [] _ rfl
  exact resumes_behind (f := { f with ops := rest }) hengine _ _ fun regs =>
    (ih m' { f with ops := rest, regs } (Nat.le_of_eq hsteps.symm)).resumes hengine

theorem agrees_ret {src : Nat} (hops : f.ops = .ret src :: rest) (hleft : ¬ budget ≤ m.steps) :
    Agrees p budget m f := by
  intro callers
  rw [run_cons hops hleft, runOps]
  simp only [hops, show ¬ budget ≤ (m.engine _).steps from hleft, dite_false, Config.exec]
  refine resumes_since ?_ [] _ rfl
  cases f.regs.read src with
  | error fault => exact resumes_error m.tick _ fault
  | ok v =>
    refine ⟨m.tick, rfl, ?_⟩
    cases callers <;> rfl

/-! ### Calling a function -/

/-- A function whose body cannot be entered fails itself. -/
theorem call_unentered (budget : Nat)
    (hstart : (m.engine depth).invoke p name args = .ok (.body routine))
    (henter : Frame.enter routine args = .error fault) :
    (Engine.call p budget (m.engine depth) name args).result = .error ⟨fault, some routine.name⟩ ∧
      (Engine.call p budget (m.engine depth) name args).engine = m.engine depth := by
  rw [Engine.call, hstart]
  dsimp only
  rw [Frame.enter] at henter
  cases hregs : Frame.argumentRegisters routine args with
  | error fault' =>
    rw [hregs] at henter
    cases henter
    exact ⟨rfl, rfl⟩
  | ok regs =>
    rw [hregs] at henter
    have hblock : Frame.enterBlock routine regs none 0 = .error fault := henter
    dsimp only
    rw [runBlock, hblock]
    exact ⟨rfl, rfl⟩

/-- A function whose body is entered ends as its body does. -/
theorem call_entered (budget : Nat)
    (hstart : (m.engine depth).invoke p name args = .ok (.body routine))
    (henter : Frame.enter routine args = .ok f) :
    (Engine.call p budget (m.engine depth) name args).result =
        (runOps p budget (m.engine (depth + 1)) f).result.mapError (·.inFunction routine.name) ∧
      (Engine.call p budget (m.engine depth) name args).engine =
        (runOps p budget (m.engine (depth + 1)) f).engine.shallower := by
  obtain ⟨regs, hregs, hblock⟩ := Except.bind_ok henter
  rw [Engine.call, hstart]
  dsimp only
  rw [hregs]
  dsimp only
  rw [runBlock, hblock]
  exact ⟨rfl, rfl⟩

/-- Behind a call: the function that called goes on with its value, or fails with it. -/
theorem resumes_andThen {called : s.Ending} {dest : Nat} (hs : s.depth = callers.length + 1)
    (hengine : called.engine = m.engine s.depth) (ih : ∀ f, Agrees p budget m f) :
    (called.andThen fun v => .behind (Nat.le_refl _) (f.regs.write dest v) fun regs =>
        runOps p budget called.engine { f with regs }).Resumes p budget f.routine.name callers
      (m.resume p budget f.routine.name (⟨f, dest⟩ :: callers) called.result) := by
  have hdepth : called.engine.depth = s.depth := by rw [hengine]; rfl
  have hback : called.engine = m.engine called.engine.depth := by rw [hdepth]; exact hengine
  unfold Ending.andThen
  cases hresult : called.result with
  | error e => exact ⟨m, hengine, rfl⟩
  | ok v =>
    refine resumes_since ?_ _ _ hdepth
    exact resumes_behind hback _ _ fun regs => (ih { f with regs }).resumes (hs ▸ hengine)

/-- A call from a body. A failure of the call is one of the function that is called if its body has been
entered, and otherwise one of the body that it is called from. -/
theorem finish_call {callee : String} {regs : List Nat} {vs : List Value} (dest : Nat)
    (hargs : regs.mapM f.regs.read = .ok vs)
    (ih : ∀ f, Agrees p budget m f) (callers : List Caller) :
    ∃ m' : Machine, (Engine.call p budget (m.engine (callers.length + 1)) callee vs).engine =
        m'.engine (callers.length + 1) ∧
      (Config.call p ⟨m, f, callers⟩ dest callee regs).finish p budget (budget - m.steps) =
        m'.resume p budget f.routine.name (⟨f, dest⟩ :: callers)
          (Engine.call p budget (m.engine (callers.length + 1)) callee vs).result := by
  have hinvoke := invoke_engine p m (callers.length + 1) callee vs
  rw [Config.call]
  simp only [hargs, Except.bind, Config.depth, hinvoke]
  cases hstart : (m.engine (callers.length + 1)).invoke p callee vs with
  | error fault =>
    rw [Engine.call, hstart]
    exact ⟨m, rfl, rfl⟩
  | ok start =>
    cases start with
    | host x text =>
      rw [Engine.call, hstart]
      exact ⟨{ m with output := m.output ++ text }, rfl, rfl⟩
    | body routine =>
      simp only [Except.map, Engine.Start.invocation]
      cases henter : Frame.enter routine vs with
      | error fault =>
        obtain ⟨hresult, hengine⟩ := call_unentered budget hstart henter
        refine ⟨m, hengine, ?_⟩
        rw [hresult]
        rfl
      | ok frame =>
        obtain ⟨hresult, hengine⟩ := call_entered budget hstart henter
        obtain ⟨m', hleft, hbody⟩ := ih frame (⟨f, dest⟩ :: callers)
        rw [Frame.routine_of_enter henter] at hbody
        refine ⟨m', hengine.trans (congrArg Engine.shallower hleft), hbody.symm.trans ?_⟩
        rw [hresult]
        simp only [List.length_cons]
        cases (runOps p budget (m.engine (callers.length + 1 + 1)) frame).result <;> rfl

theorem agrees_call {dest : Nat} {callee : String} {regs : List Nat}
    (hops : f.ops = .call dest callee regs :: rest) (hleft : ¬ budget ≤ m.steps)
    (ih : ∀ m' f, m.tick.steps ≤ m'.steps → Agrees p budget m' f) : Agrees p budget m f := by
  intro callers
  rw [run_cons hops hleft, runOps]
  simp only [hops, show ¬ budget ≤ (m.engine _).steps from hleft, dite_false, Config.exec]
  refine resumes_since ?_ [] _ rfl
  cases hargs : regs.mapM f.regs.read with
  | error fault =>
    rw [Config.call]
    simp only [hargs]
    exact resumes_error m.tick _ fault
  | ok vs =>
    obtain ⟨m', hengine, hfinish⟩ := finish_call (f := { f with ops := rest }) dest hargs
      (fun f => ih m.tick f (Nat.le_refl _)) callers
    have hcounted := (Engine.call p budget (m.tick.engine (callers.length + 1)) callee vs).counted
    rw [hengine] at hcounted
    rw [hfinish]
    exact resumes_andThen (f := { f with ops := rest }) rfl hengine fun f => ih m' f hcounted

end

/-- Both ways of running a body lead to the same end. The induction is on the steps that are left of the
budget. -/
theorem agrees (p : Program) (budget : Nat) (m : Machine) (f : Frame) : Agrees p budget m f := by
  induction hn : budget - m.steps using Nat.strongRecOn generalizing m f with
  | _ n ih =>
    subst hn
    cases hops : f.ops with
    | nil => exact agrees_nil hops
    | cons op rest =>
      by_cases hleft : budget ≤ m.steps
      · exact agrees_exhausted hops hleft
      · have hlater (m' f) (hcounted : m.tick.steps ≤ m'.steps) : Agrees p budget m' f :=
          ih _ (Engine.left_lt (s := m.engine 0) (t := m'.engine 0) hleft hcounted) m' f rfl
        have hticked (f) : Agrees p budget m.tick f := hlater m.tick f (Nat.le_refl _)
        by_cases hop : op.isStraight = true
        · exact agrees_straight hops hop hleft hlater
        · cases op with
          | call dest callee args => exact agrees_call hops hleft hlater
          | jump target => exact agrees_jump hops hleft hticked
          | branch cond thenBlock elseBlock => exact agrees_branch hops hleft hticked
          | ret src => exact agrees_ret hops hleft
          | _ => exact absurd rfl hop

/-- However a call ends, an engine in which nothing runs comes to its result, and holds what the machine
is left with. -/
theorem call_engine (p : Program) (budget : Nat) (m : Machine) (name : String) (args : List Float) :
    (Engine.call p budget (m.engine 0) name (args.map .float)).result =
        (m.call p budget name args).1 ∧
      (Engine.call p budget (m.engine 0) name (args.map .float)).engine =
        (m.call p budget name args).2.engine 0 := by
  rw [call, invoke_engine]
  cases hstart : (m.engine 0).invoke p name (args.map .float) with
  | error fault =>
    rw [Engine.call, hstart]
    exact ⟨rfl, rfl⟩
  | ok start =>
    cases start with
    | host x text =>
      rw [Engine.call, hstart]
      exact ⟨rfl, rfl⟩
    | body routine =>
      simp only [Except.map, Engine.Start.invocation]
      cases henter : Frame.enter routine (args.map .float) with
      | error fault => exact call_unentered budget hstart henter
      | ok frame =>
        obtain ⟨hresult, hengine⟩ := call_entered budget hstart henter
        obtain ⟨m', hleft, hbody⟩ := agrees p budget m frame []
        have hleft : (runOps p budget (m.engine (0 + 1)) frame).engine = m'.engine 1 := hleft
        rw [Frame.routine_of_enter henter] at hbody
        dsimp only
        rw [hresult, hengine, hleft, ← hbody]
        cases (runOps p budget (m.engine (0 + 1)) frame).result <;> exact ⟨rfl, rfl⟩

/-- A value is shown by an engine as it is by a machine. -/
theorem evaluate_engine (p : Program) (budget : Nat) (m : Machine) (name : String) (args : List Float) :
    (m.engine 0).evaluate p budget name args =
      ((m.evaluate p budget name args).1, (m.evaluate p budget name args).2.engine 0) := by
  obtain ⟨hresult, hengine⟩ := call_engine p budget m name args
  rw [Engine.evaluate, evaluate, hresult, hengine]
  cases m.call p budget name args with
  | mk result m' =>
    cases result with
    | error e => rfl
    | ok v => exact congrArg (·, m'.engine 0) (m'.materialize_engine 0 v)

/-- Every call of every program ends, under every budget less than the greatest word. It is what a recursion
without fuel gives, which goes from calls to blocks and from blocks to operations. In it a step is counted
between any two starts of a block, no more functions with bodies run inside each other than may, and the
steps that are counted in all are those left of the budget and one more, or a single one if none are left.
So the count of the steps stays in a word. -/
theorem call_terminates (p : Program) (budget : Nat) (m : Machine) (name : String) (args : List Float)
    (hbudget : budget < UInt64.size - 1) (hsteps : m.steps < UInt64.size - 1) :
    ∃ ending, Engine.call p budget (m.engine 0) name (args.map .float) = ending ∧
      ending.result = (m.call p budget name args).1 ∧
      ending.engine = (m.call p budget name args).2.engine 0 ∧
      (ending.rounds.Pairwise fun r r' => r.steps < r'.steps) ∧
      (∀ r ∈ ending.rounds, r.depth ≤ maxDepth ∧ m.steps ≤ r.steps ∧ r.steps ≤ ending.engine.steps) ∧
      m.steps ≤ ending.engine.steps ∧
      ending.engine.steps - m.steps ≤ max 1 (budget + 1 - m.steps) ∧
      ending.engine.steps < UInt64.size := by
  obtain ⟨hresult, hengine⟩ := call_engine p budget m name args
  have horder := Engine.inOrder_call p budget (m.engine 0) name (args.map .float)
  have hcounted := (Engine.call p budget (m.engine 0) name (args.map .float)).counted
  have hbound := steps_call_le p budget m name args
  have hsame : (Engine.call p budget (m.engine 0) name (args.map .float)).engine.steps =
      (m.call p budget name args).2.steps := by
    rw [hengine]
    rfl
  refine ⟨_, rfl, hresult, hengine, horder.rising,
    fun r hr => ⟨horder.nested r hr, horder.within r hr⟩, hcounted, ?_, ?_⟩
  · rw [hsame]
    exact Nat.sub_le_iff_le_add'.mpr hbound
  · rw [hsame]
    omega

/-- A program with a function whose only block goes to itself. -/
def spinProgram : Program :=
  (Program.empty ∅).define ⟨⟨"spin", [], .f64⟩, [⟨"entry", [.jump 0]⟩], []⟩

theorem call_terminates_spin :
    5 < UInt64.size - 1 ∧ ({} : Machine).steps < UInt64.size - 1 ∧
    ∃ ending, Engine.call spinProgram 5 (engine {} 0) "spin" [] = ending ∧ ending.engine.steps = 6 ∧
      (ending.rounds.Pairwise fun r r' => r.steps < r'.steps) ∧
      ∀ r ∈ ending.rounds, r.depth ≤ maxDepth := by
  have hbudget : 5 < UInt64.size - 1 := by decide
  have hfresh : ({} : Machine).steps < UInt64.size - 1 := by decide
  have hcount : (call spinProgram 5 {} "spin" []).2.steps = 6 := by decide +kernel
  obtain ⟨ending, hcall, -, hengine, hrising, hrounds, -⟩ :=
    call_terminates spinProgram 5 {} "spin" [] hbudget hfresh
  refine ⟨hbudget, hfresh, ending, hcall, ?_, hrising, fun r hr => (hrounds r hr).1⟩
  rw [hengine]
  exact hcount

end Machine

end PoseLang
