import PoseLang.Proofs.Machine.Effects

/-!
# Calls as a recursion

A run keeps the functions that wait for each other on a list and counts down the steps that are left.
An `Engine` runs calls in the way in which one would say what they are: a call runs the body of a function
(`Engine.call`), a body goes round a loop over its blocks (`Engine.runBlock`), and a block is run
operation by operation (`Engine.runOps`), among which there are calls again. The functions that run are
counted up before a body is run and down behind it, and in between their number is whatever the
operations of the body leave. The cells of the allocations and the names of their records are kept in two
arrays, which nothing ties together.

The recursion has no fuel. What makes it well-founded is that an operation is counted before it is run.
So the steps left of the budget get fewer before the loop comes round again and before another
function is called, and a call only ever adds to the number of steps (`Engine.Ending.counted`). Phis are
not counted, but behind the phis of a block there is an operation that is, or the block has no end.
-/

namespace PoseLang

/-- The state of an executor that calls itself for the calls that it meets. -/
structure Engine where
  /-- The cells of the allocations. -/
  cells : Array (List Float) := #[]
  /-- The records that the allocations were made for. -/
  records : Array String := #[]
  steps : Nat := 0
  output : String := ""
  /-- The number of functions with bodies that run. -/
  depth : Nat := 0

/-- Notes the function that was running, unless one is noted. -/
def RunError.inFunction (e : RunError) (name : String) : RunError :=
  { e with function := some (e.function.getD name) }

namespace Engine

/-- The engine with a step counted. -/
def tick (s : Engine) : Engine :=
  { s with steps := s.steps + 1 }

/-- The engine in one function more. -/
def deeper (s : Engine) : Engine :=
  { s with depth := s.depth + 1 }

/-- The engine in one function less. -/
def shallower (s : Engine) : Engine :=
  { s with depth := s.depth - 1 }

/-- The engine with more text. -/
def wrote (s : Engine) (text : String) : Engine :=
  { s with output := s.output ++ text }

/-- A zeroed record at the end of the memory. -/
def allocate (s : Engine) (l : Layout) (record : String) : Engine :=
  { s with cells := s.cells.push (List.replicate l.width 0), records := s.records.push record }

/-- The number of cells of an allocation. -/
def widthAt (s : Engine) (alloc : Nat) : Nat :=
  match s.cells[alloc]? with
  | some cells => cells.length
  | none => 0

/-- Puts a number into a cell. -/
def store (s : Engine) (alloc cell : Nat) (x : Float) : Engine :=
  { s with cells := s.cells.modify alloc fun cells => cells.set cell x }

/-- A value as it is seen from outside. An allocation whose record is not known has no name. -/
def materialize (s : Engine) : Value → Except RunError Datum
  | .float x => .ok (.number x)
  | .bool b => .ok (.bool b)
  | .ptr alloc _ =>
    match s.cells[alloc]? with
    | some cells => .ok (.record (s.records[alloc]?.getD "") cells)
    | none => .error ⟨.danglingPointer, none⟩

/-- What a call starts with: the number and the text of a function without a body, or a body. -/
inductive Start where
  | host (x : Float) (text : String)
  | body (routine : Routine)

/-- Starts a call. -/
def invoke (p : Program) (s : Engine) (name : String) (args : List Value) : Except Fault Start :=
  match p.get? name with
  | none => .error (.unknownFunction name)
  | some r =>
    if r.arity ≠ args.length then .error (.wrongArity name r.arity args.length)
    else if r.isDeclaration then do
      let xs ← args.mapM Value.asFloat
      match Host.run? name xs with
      | some (x, text) => return .host x text
      | none => throw (.noHost name)
    else if maxDepth ≤ s.depth then .error .depthExceeded
    else .ok (.body r)

/-- Runs an operation that goes on to the next one, and so leaves registers. The others do nothing
here. -/
def exec (p : Program) (s : Engine) (regs : Registers) : Op → Except Fault Registers × Engine
  | .const dest x => (regs.write dest (.float x), s)
  | .arith kind dest a b =>
    (do
      let x ← regs.readFloat a
      let y ← regs.readFloat b
      regs.write dest (.float (kind.apply x y)), s)
  | .truthy dest src =>
    (do
      let x ← regs.readFloat src
      regs.write dest (.bool (x != 0)), s)
  | .alloca dest record =>
    match p.records[record]? with
    | none => (.error (.unknownRecord record), s)
    | some l => (regs.write dest (.ptr s.cells.size 0), s.allocate l record)
  | .fieldAddr dest base outer inner =>
    (do regs.write dest (← regs.fieldAddr s.widthAt base outer inner), s)
  | .store src addr =>
    match regs.storeParts s.widthAt src addr with
    | .ok (x, alloc, cell) => (.ok regs, s.store alloc cell x)
    | .error fault => (.error fault, s)
  | .phi _ _ => (.error .latePhi, s)
  | .call .. | .jump _ | .branch .. | .ret _ => (.ok regs, s)

/-- Such an operation counts nothing. -/
theorem exec_counts (p : Program) (s : Engine) (regs : Registers) (op : Op) :
    (s.exec p regs op).2.steps = s.steps ∧ (s.exec p regs op).2.depth = s.depth := by
  cases op with
  | alloca dest record =>
    rw [exec]
    split <;> exact ⟨rfl, rfl⟩
  | store src addr =>
    rw [exec]
    split <;> exact ⟨rfl, rfl⟩
  | _ => exact ⟨rfl, rfl⟩

/-- The start of a block in the loop over the blocks of a body: how many functions with bodies run, and
how many steps have been counted. -/
structure Round where
  depth : Nat
  steps : Nat

/-- The end of a call or of the rest of one: the result, the engine that is left, and the blocks that
were started on the way. No step is taken back. -/
structure Ending (s : Engine) where
  result : Except RunError Value
  engine : Engine
  rounds : List Round
  counted : s.steps ≤ engine.steps

namespace Ending

variable {s t : Engine}

/-- An end right here. -/
def here (s : Engine) (result : Except RunError Value) : s.Ending :=
  ⟨result, s, [], Nat.le_refl _⟩

/-- The end of what comes later, seen from before. -/
def since (earlier : List Round) (h : s.steps ≤ t.steps) (e : t.Ending) : s.Ending :=
  ⟨e.result, e.engine, earlier ++ e.rounds, Nat.le_trans h e.counted⟩

/-- The end behind an operation that leaves an engine, and registers if it does not fail. -/
def behind (h : s.steps ≤ t.steps) (regs : Except Fault Registers) (next : Registers → t.Ending) :
    s.Ending :=
  since [] h <|
    match regs with
    | .ok regs => next regs
    | .error fault => here t (.error ⟨fault, none⟩)

/-- The end behind a call, unless the call fails. -/
def andThen (e : s.Ending) (next : Value → e.engine.Ending) : s.Ending :=
  since e.rounds e.counted <|
    match e.result with
    | .ok v => next v
    | .error err => here e.engine (.error err)

/-- The end of a body: the function is left, also if it fails, and then the failure is noted to be one of
it. -/
def leave (e : s.deeper.Ending) (name : String) : s.Ending :=
  ⟨e.result.mapError (·.inFunction name), e.engine.shallower, e.rounds, e.counted⟩

end Ending

theorem le_tick (s : Engine) : s.steps ≤ s.tick.steps :=
  Nat.le_succ s.steps

/-- A step that is counted leaves fewer steps of the budget, and so does all that comes behind it. -/
theorem left_lt {budget : Nat} {s t : Engine} (hleft : ¬ budget ≤ s.steps)
    (hcounted : s.tick.steps ≤ t.steps) : budget - t.steps < budget - s.steps := by
  have htick : s.tick.steps = s.steps + 1 := rfl
  omega

mutual

/-- Calls a function. -/
def call (p : Program) (budget : Nat) (s : Engine) (name : String) (args : List Value) : s.Ending :=
  match s.invoke p name args with
  | .error fault => .here s (.error ⟨fault, none⟩)
  | .ok (.host x text) => .since (t := s.wrote text) [] (Nat.le_refl _) (.here _ (.ok (.float x)))
  | .ok (.body routine) =>
    match Frame.argumentRegisters routine args with
    | .error fault => Ending.leave (.here s.deeper (.error ⟨fault, none⟩)) routine.name
    | .ok regs => (runBlock p budget s.deeper routine regs none 0).leave routine.name
termination_by (budget - s.steps, 2)
decreasing_by exact .right _ (by decide)

/-- Runs a body from the start of a block on, coming from another block or from none. -/
def runBlock (p : Program) (budget : Nat) (s : Engine) (routine : Routine) (regs : Registers)
    (source : Option Nat) (block : Nat) : s.Ending :=
  .since [⟨s.depth, s.steps⟩] (Nat.le_refl _) <|
    match Frame.enterBlock routine regs source block with
    | .error fault => .here s (.error ⟨fault, none⟩)
    | .ok frame => runOps p budget s frame
termination_by (budget - s.steps, 1)
decreasing_by exact .right _ (by decide)

/-- Runs a body from the middle of a block on. -/
def runOps (p : Program) (budget : Nat) (s : Engine) (f : Frame) : s.Ending :=
  match f.ops with
  | [] => .here s (.error ⟨.fellOff f.block, none⟩)
  | op :: rest =>
    .since [] s.le_tick <|
      if hleft : budget ≤ s.steps then .here s.tick (.error ⟨.budgetExhausted budget, none⟩)
      else
        have := left_lt hleft (Nat.le_refl s.tick.steps)
        match op with
        | .jump target => runBlock p budget s.tick f.routine f.regs (some f.block) target
        | .branch cond thenBlock elseBlock =>
          match f.regs.taken cond with
          | .error fault => .here s.tick (.error ⟨fault, none⟩)
          | .ok b =>
            runBlock p budget s.tick f.routine f.regs (some f.block) (if b then thenBlock else elseBlock)
        | .ret src => .here s.tick ((f.regs.read src).mapError (⟨·, none⟩))
        | .call dest callee args =>
          match args.mapM f.regs.read with
          | .error fault => .here s.tick (.error ⟨fault, none⟩)
          | .ok vs =>
            let called := call p budget s.tick callee vs
            have := left_lt hleft called.counted
            called.andThen fun v =>
              .behind (Nat.le_refl _) (f.regs.write dest v) fun regs =>
                runOps p budget called.engine { f with ops := rest, regs }
        | op =>
          have hcounted := Nat.le_of_eq (exec_counts p s.tick f.regs op).1.symm
          have := left_lt hleft hcounted
          .behind hcounted (s.tick.exec p f.regs op).1 fun regs =>
            runOps p budget (s.tick.exec p f.regs op).2 { f with ops := rest, regs }
termination_by (budget - s.steps, 0)
decreasing_by all_goals exact .left _ _ (by assumption)

end

/-- Calls a function with numbers, and shows its value as it is seen from outside. -/
def evaluate (p : Program) (budget : Nat) (s : Engine) (name : String) (args : List Float) :
    Except RunError Datum × Engine :=
  let ending := s.call p budget name (args.map .float)
  (ending.result.bind ending.engine.materialize, ending.engine)

/-! ## The blocks that are started -/

/-- The blocks that are started until an end: a step is counted between any two of them, none is started
before a number of steps, and no more functions run than may run inside each other. At the end as many
run as before. -/
structure Ending.InOrder {s : Engine} (first : Nat) (e : s.Ending) : Prop where
  rising : e.rounds.Pairwise fun r r' => r.steps < r'.steps
  within : ∀ r ∈ e.rounds, first ≤ r.steps ∧ r.steps ≤ e.engine.steps
  nested : ∀ r ∈ e.rounds, r.depth ≤ maxDepth
  depth : e.engine.depth = s.depth

namespace Ending.InOrder

variable {s t : Engine} {first : Nat}

theorem here (s : Engine) (result : Except RunError Value) : (Ending.here s result).InOrder first :=
  ⟨.nil, nofun, nofun, rfl⟩

theorem since {e : t.Ending} (h : s.steps ≤ t.steps) (hdepth : t.depth = s.depth)
    (he : e.InOrder first) : (e.since [] h).InOrder first :=
  ⟨he.rising, he.within, he.nested, he.depth.trans hdepth⟩

theorem mono {first' : Nat} {e : s.Ending} (he : e.InOrder first) (h : first' ≤ first) :
    e.InOrder first' :=
  ⟨he.rising, fun r hr => ⟨Nat.le_trans h (he.within r hr).1, (he.within r hr).2⟩, he.nested, he.depth⟩

theorem behind (h : s.steps ≤ t.steps) (hdepth : t.depth = s.depth) (regs : Except Fault Registers)
    {next : Registers → t.Ending} (hnext : ∀ regs, (next regs).InOrder first) :
    (Ending.behind h regs next).InOrder first := by
  cases regs with
  | ok regs => exact since h hdepth (hnext regs)
  | error fault => exact since h hdepth (here t _)

/-- What comes behind a call starts its blocks behind those of the call. -/
theorem andThen {e : s.Ending} {next : Value → e.engine.Ending} (he : e.InOrder first)
    (hfirst : first ≤ e.engine.steps + 1) (hnext : ∀ v, (next v).InOrder (e.engine.steps + 1)) :
    (e.andThen next).InOrder first := by
  have later (e' : e.engine.Ending) (he' : e'.InOrder (e.engine.steps + 1)) :
      (e'.since e.rounds e.counted).InOrder first := by
    refine ⟨List.pairwise_append.mpr ⟨he.rising, he'.rising, fun r hr r' hr' => ?_⟩,
      fun r hr => ?_, fun r hr => ?_, he'.depth.trans he.depth⟩
    · have hr := (he.within r hr).2
      have hr' := (he'.within r' hr').1
      omega
    · rcases List.mem_append.mp hr with hr | hr
      · exact ⟨(he.within r hr).1, Nat.le_trans (he.within r hr).2 e'.counted⟩
      · exact ⟨Nat.le_trans hfirst (he'.within r hr).1, (he'.within r hr).2⟩
    · rcases List.mem_append.mp hr with hr | hr
      · exact he.nested r hr
      · exact he'.nested r hr
  unfold Ending.andThen
  split
  next v _ => exact later _ (hnext v)
  next err _ => exact later _ (here _ _)

/-- The function is left by as much as it was entered. -/
theorem leave {e : s.deeper.Ending} (he : e.InOrder first) (name : String) :
    (e.leave name).InOrder first := by
  refine ⟨he.rising, he.within, he.nested, ?_⟩
  show e.engine.depth - 1 = s.depth
  rw [he.depth]
  exact Nat.add_sub_cancel s.depth 1

end Ending.InOrder

variable {p : Program} {budget : Nat} {s : Engine}

theorem inOrder_runBlock (hdepth : s.depth ≤ maxDepth)
    (hops : ∀ f, (runOps p budget s f).InOrder (s.steps + 1)) (routine : Routine) (regs : Registers)
    (source : Option Nat) (block : Nat) :
    (runBlock p budget s routine regs source block).InOrder s.steps := by
  have later (e : s.Ending) (he : e.InOrder (s.steps + 1)) :
      (e.since [⟨s.depth, s.steps⟩] (Nat.le_refl _)).InOrder s.steps := by
    refine ⟨List.pairwise_cons.mpr ⟨fun r hr => (he.within r hr).1, he.rising⟩, fun r hr => ?_,
      fun r hr => ?_, he.depth⟩
    · rcases List.mem_cons.mp hr with rfl | hr
      · exact ⟨Nat.le_refl _, e.counted⟩
      · exact (he.mono (Nat.le_succ _)).within r hr
    · rcases List.mem_cons.mp hr with rfl | hr
      · exact hdepth
      · exact he.nested r hr
  rw [runBlock]
  split
  · exact later _ (.here _ _)
  next frame _ => exact later _ (hops frame)

/-- A body is run only if one more function may run. -/
theorem depth_of_invoke {name : String} {args : List Value} {routine : Routine}
    (h : s.invoke p name args = .ok (.body routine)) : s.deeper.depth ≤ maxDepth := by
  unfold invoke at h
  split at h
  · cases h
  · split at h
    · cases h
    · split at h
      · obtain ⟨xs, -, h⟩ := Except.bind_ok h
        split at h <;> cases h
      · split at h
        next => cases h
        next hdepth => exact Nat.lt_of_not_le hdepth

/-- A call, if bodies start their blocks as they should. -/
theorem inOrder_call_of_runOps
    (hops : ∀ t : Engine, t.steps = s.steps → t.depth ≤ maxDepth → ∀ f,
      (runOps p budget t f).InOrder (t.steps + 1))
    (name : String) (args : List Value) : (call p budget s name args).InOrder s.steps := by
  rw [call]
  split
  · exact .here _ _
  · exact .since _ rfl (.here _ _)
  next routine hinvoke =>
    have hdeeper := depth_of_invoke hinvoke
    split
    · exact .leave (.here _ _) _
    next regs _ =>
      have hblock := inOrder_runBlock hdeeper (hops s.deeper rfl hdeeper) routine regs none 0
      exact hblock.leave routine.name

/-- The rest of a body starts its blocks in order, none of them before the next operation has been
counted. The induction is on the steps that are left of the budget. -/
theorem inOrder_runOps (hdepth : s.depth ≤ maxDepth) (f : Frame) :
    (runOps p budget s f).InOrder (s.steps + 1) := by
  induction hn : budget - s.steps using Nat.strongRecOn generalizing s f with
  | _ n ih =>
    subst hn
    rw [runOps]
    split
    · exact .here _ _
    next op rest hops =>
      refine .since _ rfl ?_
      split
      · exact .here _ _
      next hleft =>
        have hlater (t : Engine) (hcounted : s.tick.steps ≤ t.steps) (ht : t.depth ≤ maxDepth) (f) :
            (runOps p budget t f).InOrder (t.steps + 1) :=
          ih _ (left_lt hleft hcounted) ht f rfl
        have hblock := inOrder_runBlock (s := s.tick) hdepth (hlater s.tick (Nat.le_refl _) hdepth)
        have hstraight (op : Op) : (Ending.behind (Nat.le_of_eq (exec_counts p s.tick f.regs op).1.symm)
            (s.tick.exec p f.regs op).1 fun regs => runOps p budget (s.tick.exec p f.regs op).2
              { f with ops := rest, regs }).InOrder (s.steps + 1) := by
          obtain ⟨hsteps, hsame⟩ := exec_counts p s.tick f.regs op
          refine .behind _ hsame _ fun regs => ?_
          have hrest := hlater (s.tick.exec p f.regs op).2 (Nat.le_of_eq hsteps.symm)
            (Nat.le_trans (Nat.le_of_eq hsame) hdepth) { f with ops := rest, regs }
          rw [hsteps] at hrest
          exact hrest.mono (Nat.le_succ _)
        cases op with
        | jump target => exact hblock f.routine f.regs (some f.block) target
        | branch cond thenBlock elseBlock =>
          dsimp only
          split
          · exact .here _ _
          next b _ => exact hblock f.routine f.regs (some f.block) (if b then thenBlock else elseBlock)
        | ret src => exact .here _ _
        | call dest callee args =>
          dsimp only
          split
          · exact .here _ _
          next vs _ =>
            have hcall := inOrder_call_of_runOps (s := s.tick)
              (fun t ht => hlater t (Nat.le_of_eq ht.symm)) callee vs
            have hback := Nat.le_trans (Nat.le_of_eq hcall.depth) hdepth
            refine hcall.andThen ?_ fun v => .behind _ rfl _ fun regs => ?_
            · exact Nat.le_trans (Ending.counted _) (Nat.le_succ _)
            · exact hlater _ (Ending.counted _) hback _
        | _ => exact hstraight _

/-- However a call ends, a step has been counted between any two starts of a block, no more functions with
bodies have run inside each other than may, and as many run as before. -/
theorem inOrder_call (p : Program) (budget : Nat) (s : Engine) (name : String) (args : List Value) :
    (call p budget s name args).InOrder s.steps :=
  inOrder_call_of_runOps (fun _ _ hdepth f => inOrder_runOps hdepth f) name args

end Engine

end PoseLang
