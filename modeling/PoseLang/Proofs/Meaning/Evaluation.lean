import Std.Data.ExtTreeMap
import PoseLang.Item.Basic
import PoseLang.Machine.Step

/-!
# What expressions mean

The meaning of a source, without registers, blocks or steps: an evaluator on expressions. It works on
a world, which is the records allocated so far and the text written so far, and gives a value, fails,
or goes on forever.

Nothing bounds an evaluation but the number of functions with bodies that run inside each other. To
be a function nevertheless it is told how many *ticks* it may spend, one for each body that it enters
and one for each round of a loop, and answers `none` if it did not come to its end with those. So the
meaning is what it answers with enough ticks, and an evaluation goes on forever if there are never
enough.

No variable and no argument holds an address, so an evaluation can only store into records that it has
allocated itself. What there was before it is still there behind it, field by field, and an address that
it gives is that of a new record (`Eval.Apart`). This holds of every expression, whatever calls do, if
calls keep to it (`Expr.eval_apart`), and so of every body and every call (`Source.run_apart`).
-/

namespace PoseLang

open Std (ExtTreeMap)

/-- A function as the source gives it: its parameters, and its body unless it is implemented
elsewhere. -/
structure SourceFunction where
  params : List String
  body : Option Expr

/-- The functions and the records of a source. -/
structure Source where
  records : Registry
  functions : ExtTreeMap String SourceFunction

/-- What evaluation works on: the records allocated so far, and the text written so far. -/
structure World where
  memory : Array Allocation
  output : String

/-- Why an evaluation ends without a value. -/
inductive Failure where
  /-- The program runs into something that it cannot do. -/
  | fault (e : RunError)
  /-- An expression has no meaning where it stands. -/
  | meaningless

/-- Evaluations: they change the world, may fail, and may not come to an end. -/
abbrev Eval :=
  ExceptT Failure (StateT World Option)

namespace Eval

/-- The ticks are used up. -/
def outOfTicks {α : Type} : Eval α :=
  fun _ => none

/-- An expression has no meaning. -/
def meaningless {α : Type} : Eval α :=
  throw .meaningless

/-- Something goes wrong in a function, or outside of all functions. -/
def fault {α : Type} (f : Fault) (function : Option String) : Eval α :=
  throw (.fault ⟨f, function⟩)

/-- The number that a value has to be. -/
def number : Value → Eval Float
  | .float x => pure x
  | _ => meaningless

/-- Writes text. -/
def write (text : String) : Eval Unit :=
  modify fun w => { w with output := w.output ++ text }

/-- A zeroed record of a width behind the others. -/
def allocate (record : String) (width : Nat) : Eval Value := do
  let w ← get
  set { w with memory := w.memory.push ⟨record, List.replicate width 0⟩ }
  pure (.ptr w.memory.size 0)

/-- Puts a number into a cell of a record. -/
def store (alloc cell : Nat) (x : Float) : Eval Unit := do
  let w ← get
  match w.memory[alloc]? with
  | none => meaningless
  | some a =>
    if cell < a.cells.length then
      set { w with
        memory := w.memory.modify alloc fun a => { a with cells := a.cells.set cell x } }
    else meaningless

/-- Rounds one after the other, each with the number that the one before gave, until one gives none.
-/
def rounds (round : Float → Eval (Option Float)) : (ticks : Nat) → Float → Eval Unit
  | 0, _ => outOfTicks
  | ticks + 1, x => do
    match ← round x with
    | some next => rounds round ticks next
    | none => pure ()

end Eval

/-- The result of an operator of the language on two numbers. -/
def Expr.operate? : Char → Float → Float → Option Float
  | '+', x, y => some (x + y)
  | '-', x, y => some (x - y)
  | '*', x, y => some (x * y)
  | '/', x, y => some (x / y)
  | '<', x, y => some (if x < y then 1 else 0)
  | '>', x, y => some (if x > y then 1 else 0)
  | _, _, _ => none

/-- Where an expression is evaluated: the function whose body it belongs to, the number of functions
with bodies that run, and its variables. -/
structure Scope where
  function : String
  depth : Nat
  vars : ExtTreeMap String Float

/-- The scope with a variable; one of the same name is hidden. -/
def Scope.bind (s : Scope) (v : String) (x : Float) : Scope :=
  { s with vars := s.vars.insert v x }

/-- The variables of a function that is called; of a repeated parameter the last one counts. -/
def Scope.parameters (params : List String) (args : List Float) : ExtTreeMap String Float :=
  (params.zip args).foldl (fun vars p => vars.insert p.1 p.2) ∅

namespace Expr

open Eval

mutual

/-- The value of an expression, given what calls do and how many rounds a loop may take. -/
def eval (records : Registry) (call : Scope → String → List Float → Eval Value) (ticks : Nat)
    (scope : Scope) : Expr → Eval Value
  | .num _ x => pure (.float x)
  | .var _ name =>
    match scope.vars[name]? with
    | some x => pure (.float x)
    | none => meaningless
  | .binary _ op left right => do
    let x ← number (← eval records call ticks scope left)
    let y ← number (← eval records call ticks scope right)
    match operate? op x y with
    | some z => pure (.float z)
    | none => meaningless
  | .call _ callee args => do
    let xs ← evalArgs records call ticks scope args
    call scope callee xs
  | .cond _ condition thenBranch elseBranch => do
    let x ← number (← eval records call ticks scope condition)
    if x != 0 then eval records call ticks scope thenBranch
    else eval records call ticks scope elseBranch
  | .loop _ v start test stepBy body => do
    let first ← number (← eval records call ticks scope start)
    rounds (fun x => do
      let _ ← eval records call ticks (scope.bind v x) body
      let increment ← evalStep records call ticks (scope.bind v x) stepBy
      let again ← number (← eval records call ticks (scope.bind v x) test)
      pure (if again != 0 then some (x + increment) else none)) ticks first
    pure (.float 0)
  | .alloc _ record =>
    match records[record]? with
    | some layout => allocate record layout.width
    | none => meaningless
  | .construct _ destination fields => do
    match ← eval records call ticks scope destination with
    | .ptr place cell =>
      evalFields records call ticks scope place cell fields
      pure (.ptr place cell)
    | _ => meaningless

/-- The values of arguments, from left to right. -/
def evalArgs (records : Registry) (call : Scope → String → List Float → Eval Value) (ticks : Nat)
    (scope : Scope) : List Expr → Eval (List Float)
  | [] => pure []
  | e :: es => do
    let x ← number (← eval records call ticks scope e)
    let xs ← evalArgs records call ticks scope es
    pure (x :: xs)

/-- The value of a loop's step; a missing step is one. -/
def evalStep (records : Registry) (call : Scope → String → List Float → Eval Value) (ticks : Nat)
    (scope : Scope) : Option Expr → Eval Float
  | none => pure 1
  | some e => do number (← eval records call ticks scope e)

/-- Puts values into fields of a record, one after the other. -/
def evalFields (records : Registry) (call : Scope → String → List Float → Eval Value)
    (ticks : Nat) (scope : Scope) (place cell : Nat) : List (Nat × Expr) → Eval Unit
  | [] => pure ()
  | (i, e) :: fields => do
    let x ← number (← eval records call ticks scope e)
    store place (cell + i) x
    evalFields records call ticks scope place cell fields

end

end Expr

namespace Source

open Eval

/-- Calls a function from inside a function, or from outside of all, given what bodies do. -/
def invoke (s : Source) (run : Scope → Expr → Eval Value) (caller : Option String) (depth : Nat)
    (name : String) (args : List Float) : Eval Value :=
  match s.functions[name]? with
  | none => fault (.unknownFunction name) caller
  | some f =>
    if f.params.length ≠ args.length then fault (.wrongArity name f.params.length args.length) caller
    else
      match f.body with
      | none =>
        match Host.run? name args with
        | some (x, text) => do
          write text
          pure (.float x)
        | none => fault (.noHost name) caller
      | some body =>
        if maxDepth ≤ depth then fault .depthExceeded caller
        else run ⟨name, depth + 1, Scope.parameters f.params args⟩ body

/-- The value of a body, within some ticks. -/
def run (s : Source) : (ticks : Nat) → Scope → Expr → Eval Value
  | 0, _, _ => outOfTicks
  | ticks + 1, scope, body =>
    body.eval s.records
      (fun scope => s.invoke (s.run ticks) (some scope.function) scope.depth) ticks scope

/-- Calls a function from outside, within some ticks. -/
def call (s : Source) (ticks : Nat) (name : String) (args : List Float) : Eval Value :=
  s.invoke (s.run ticks) none 0 name args

end Source

/-! ## Evaluations one after the other -/

namespace Eval

variable {α β : Type} {w : World}

theorem bind_apply (x : Eval α) (f : α → Eval β) :
    (x >>= f) w = match x w with
      | none => none
      | some (.ok a, w') => f a w'
      | some (.error e, w') => some (.error e, w') := by
  change (x w).bind (fun r => (ExceptT.bindCont f r.1) r.2) = _
  cases hx : x w with
  | none => rfl
  | some r =>
    obtain ⟨r, w'⟩ := r
    cases r <;> rfl

theorem pure_apply (a : α) : (pure a : Eval α) w = some (.ok a, w) := rfl

/-- Putting a number into a cell that there is. -/
theorem store_apply {place cell : Nat} {a : Allocation} (x : Float)
    (ha : w.memory[place]? = some a) (hcell : cell < a.cells.length) :
    store place cell x w = some (.ok (), { w with
      memory := w.memory.modify place fun a => { a with cells := a.cells.set cell x } }) := by
  have hget : (get : Eval World) w = some (.ok w, w) := rfl
  rw [store, bind_apply, hget]
  dsimp only
  rw [ha]
  dsimp only
  rw [if_pos hcell]
  rfl

theorem number_bind (x : Float) (f : Float → Eval β) : (number (.float x) >>= f) w = f x w := rfl

end Eval

/-! ## Evaluations leave older records alone -/

/-- A value is no address, or that of a record from some number on. -/
def Value.Beyond (size : Nat) : Value → Prop
  | .ptr place _ => size ≤ place
  | _ => True

namespace Eval

variable {α β : Type} {size : Nat}

/-- An evaluation that ends with a value leaves the first `size` records as they are; what its value is
like is told by `post`. -/
def Apart (size : Nat) (post : α → Prop) (x : Eval α) : Prop :=
  ∀ w w' v, size ≤ w.memory.size → x w = some (.ok v, w') →
    (∀ i < size, w'.memory[i]? = w.memory[i]?) ∧ size ≤ w'.memory.size ∧ post v

theorem bind_ok {x : Eval α} {f : α → Eval β} {w w' : World} {b : β}
    (h : (x >>= f) w = some (.ok b, w')) :
    ∃ a w₁, x w = some (.ok a, w₁) ∧ f a w₁ = some (.ok b, w') := by
  rw [bind_apply] at h
  cases hx : x w with
  | none => rw [hx] at h; cases h
  | some r =>
    obtain ⟨result, w₁⟩ := r
    rw [hx] at h
    cases result with
    | error e => cases h
    | ok a => exact ⟨a, w₁, rfl, h⟩

theorem number_ok {v : Value} {w w' : World} {x : Float} (h : number v w = some (.ok x, w')) :
    v = .float x ∧ w' = w := by
  cases v with
  | float y => cases h; exact ⟨rfl, rfl⟩
  | bool b => cases h
  | ptr place cell => cases h

theorem store_ok {place cell : Nat} {x : Float} {w w' : World}
    (h : store place cell x w = some (.ok (), w')) : ∃ a, w.memory[place]? = some a ∧
      cell < a.cells.length ∧ w' = { w with
        memory := w.memory.modify place fun a => { a with cells := a.cells.set cell x } } := by
  obtain ⟨w₁, _, hget, h⟩ := bind_ok h
  cases hget
  cases ha : w.memory[place]? with
  | none => rw [ha] at h; cases h
  | some a =>
    rw [ha] at h
    dsimp only at h
    split at h
    next hcell => cases h; exact ⟨a, rfl, hcell, rfl⟩
    next => cases h

namespace Apart

variable {post : α → Prop} {post' : β → Prop}

theorem pure {v : α} (h : post v) : Apart size post (Pure.pure v) := by
  intro w w' v' hsize heq
  cases heq
  exact ⟨fun _ _ => rfl, hsize, h⟩

theorem meaningless : Apart size post Eval.meaningless := by
  intro w w' v hsize heq
  cases heq

theorem fault (f : Fault) (function : Option String) : Apart size post (Eval.fault f function) := by
  intro w w' v hsize heq
  cases heq

theorem outOfTicks : Apart size post Eval.outOfTicks := by
  intro w w' v hsize heq
  cases heq

theorem bind {x : Eval α} {f : α → Eval β} (hx : Apart size post x)
    (hf : ∀ v, post v → Apart size post' (f v)) : Apart size post' (x >>= f) := by
  intro w w' v hsize heq
  obtain ⟨a, w₁, hfirst, hsecond⟩ := bind_ok heq
  obtain ⟨hsame, hsize₁, hpost⟩ := hx _ _ _ hsize hfirst
  obtain ⟨hsame', hsize', hpost'⟩ := hf a hpost _ _ _ hsize₁ hsecond
  exact ⟨fun i hi => (hsame' i hi).trans (hsame i hi), hsize', hpost'⟩

theorem number (v : Value) : Apart size (fun _ => True) (Eval.number v) := by
  intro w w' x hsize heq
  obtain ⟨-, rfl⟩ := number_ok heq
  exact ⟨fun _ _ => rfl, hsize, trivial⟩

theorem write (text : String) : Apart size (fun _ => True) (Eval.write text) := by
  intro w w' v hsize heq
  cases heq
  exact ⟨fun _ _ => rfl, hsize, trivial⟩

theorem allocate (record : String) (width : Nat) :
    Apart size (Value.Beyond size) (Eval.allocate record width) := by
  intro w w' v hsize heq
  cases heq
  refine ⟨fun i hi => ?_, ?_, hsize⟩
  · have hne : i ≠ w.memory.size := by omega
    simp [Array.getElem?_push, hne]
  · rw [Array.size_push]
    exact Nat.le_succ_of_le hsize

/-- Storing into a newer record. -/
theorem store {place : Nat} (hplace : size ≤ place) (cell : Nat) (x : Float) :
    Apart size (fun _ => True) (Eval.store place cell x) := by
  intro w w' v hsize heq
  obtain ⟨a, -, -, rfl⟩ := store_ok heq
  refine ⟨fun i hi => ?_, ?_, trivial⟩
  · have hne : place ≠ i := by omega
    simp [Array.getElem?_modify, hne]
  · simpa using hsize

theorem rounds {round : Float → Eval (Option Float)}
    (h : ∀ x, Apart size (fun _ => True) (round x)) (ticks : Nat) (x : Float) :
    Apart size (fun _ => True) (Eval.rounds round ticks x) := by
  induction ticks generalizing x with
  | zero => exact outOfTicks
  | succ ticks ih =>
    refine bind (h x) fun next _ => ?_
    cases next with
    | none => exact pure trivial
    | some y => exact ih y

end Apart

end Eval

namespace Expr

open Eval (Apart)

variable {records : Registry} {call : Scope → String → List Float → Eval Value} {ticks size : Nat}

mutual

/-- An expression leaves older records alone, if calls do. -/
theorem eval_apart (hcall : ∀ scope name args, Apart size (Value.Beyond size) (call scope name args)) :
    ∀ (e : Expr) (scope : Scope), Apart size (Value.Beyond size) (e.eval records call ticks scope)
  | .num _ _, _ => by
    rw [eval]
    exact .pure trivial
  | .var _ name, scope => by
    rw [eval]
    split
    · exact .pure trivial
    · exact .meaningless
  | .binary _ op left right, scope => by
    rw [eval]
    refine .bind (eval_apart hcall left scope) fun v _ => .bind (.number v) fun x _ => ?_
    refine .bind (eval_apart hcall right scope) fun v _ => .bind (.number v) fun y _ => ?_
    split
    · exact .pure trivial
    · exact .meaningless
  | .call _ callee args, scope => by
    rw [eval]
    exact .bind (evalArgs_apart hcall args scope) fun xs _ => hcall scope callee xs
  | .cond _ condition thenBranch elseBranch, scope => by
    rw [eval]
    refine .bind (eval_apart hcall condition scope) fun v _ => .bind (.number v) fun x _ => ?_
    split
    · exact eval_apart hcall thenBranch scope
    · exact eval_apart hcall elseBranch scope
  | .loop _ v start test stepBy body, scope => by
    rw [eval]
    refine .bind (eval_apart hcall start scope) fun v₁ _ => .bind (.number v₁) fun first _ => ?_
    refine .bind (.rounds (fun x => ?_) ticks first) fun _ _ => .pure trivial
    refine .bind (eval_apart hcall body (scope.bind v x)) fun _ _ => ?_
    refine .bind (evalStep_apart hcall stepBy (scope.bind v x)) fun increment _ => ?_
    refine .bind (eval_apart hcall test (scope.bind v x)) fun v₂ _ => .bind (.number v₂) fun _ _ => ?_
    exact .pure trivial
  | .alloc _ record, _ => by
    rw [eval]
    split
    · exact .allocate record _
    · exact .meaningless
  | .construct _ destination fields, scope => by
    rw [eval]
    refine .bind (eval_apart hcall destination scope) fun v hv => ?_
    cases v with
    | ptr place cell =>
      exact .bind (evalFields_apart hcall fields scope hv cell) fun _ _ => .pure hv
    | float x => exact .meaningless
    | bool b => exact .meaningless

theorem evalArgs_apart
    (hcall : ∀ scope name args, Apart size (Value.Beyond size) (call scope name args)) :
    ∀ (es : List Expr) (scope : Scope),
      Apart size (fun _ => True) (evalArgs records call ticks scope es)
  | [], _ => by
    rw [evalArgs]
    exact .pure trivial
  | e :: es, scope => by
    rw [evalArgs]
    refine .bind (eval_apart hcall e scope) fun v _ => .bind (.number v) fun x _ => ?_
    exact .bind (evalArgs_apart hcall es scope) fun xs _ => .pure trivial

theorem evalStep_apart
    (hcall : ∀ scope name args, Apart size (Value.Beyond size) (call scope name args)) :
    ∀ (step : Option Expr) (scope : Scope),
      Apart size (fun _ => True) (evalStep records call ticks scope step)
  | none, _ => by
    rw [evalStep]
    exact .pure trivial
  | some e, scope => by
    rw [evalStep]
    exact .bind (eval_apart hcall e scope) fun v _ => .number v

/-- Values are stored into a record that is newer, too. -/
theorem evalFields_apart
    (hcall : ∀ scope name args, Apart size (Value.Beyond size) (call scope name args)) :
    ∀ (fields : List (Nat × Expr)) (scope : Scope) {place : Nat}, size ≤ place → ∀ cell,
      Apart size (fun _ => True) (evalFields records call ticks scope place cell fields)
  | [], _, _, _, _ => by
    rw [evalFields]
    exact .pure trivial
  | (i, e) :: fields, scope, _, hplace, cell => by
    rw [evalFields]
    refine .bind (eval_apart hcall e scope) fun v _ => .bind (.number v) fun x _ => ?_
    exact .bind (.store hplace _ x) fun _ _ => evalFields_apart hcall fields scope hplace cell

end

end Expr

namespace Source

open Eval (Apart)

variable {s : Source} {size : Nat}

theorem invoke_apart {run : Scope → Expr → Eval Value}
    (hrun : ∀ scope body, Apart size (Value.Beyond size) (run scope body)) (caller : Option String)
    (depth : Nat) (name : String) (args : List Float) :
    Apart size (Value.Beyond size) (s.invoke run caller depth name args) := by
  unfold invoke
  split
  · exact .fault _ _
  next f _ =>
    split
    · exact .fault _ _
    · split
      · split
        · exact .bind (.write _) fun _ _ => .pure trivial
        · exact .fault _ _
      next body _ =>
        split
        · exact .fault _ _
        · exact hrun _ body

/-- The induction is on the ticks: the calls in a body have one less. -/
theorem run_apart (s : Source) (ticks : Nat) (scope : Scope) (body : Expr) :
    Apart size (Value.Beyond size) (s.run ticks scope body) := by
  induction ticks generalizing scope body with
  | zero => exact .outOfTicks
  | succ ticks ih =>
    rw [run]
    exact Expr.eval_apart (fun scope => invoke_apart ih (some scope.function) scope.depth) body scope

end Source

end PoseLang
