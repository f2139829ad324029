import PoseLang.Machine.Step

/-!
# Runs within a budget

A run is a sequence of steps, of which the budget allows only so many: the step that would be one
too many is counted and fails. So a run ends by the number of steps that are left. Budgets are less than
the greatest word, `UInt64.size - 1`: with that one no step would ever be one too many, since there is no
word to count it.
-/

namespace PoseLang

namespace Machine

/-- Runs to the end with a number of steps left of the budget. -/
def run (p : Program) (budget : Nat) : Nat → Config → Except RunError Value × Machine
  | 0, c =>
    let (e, m) := c.stop budget
    (.error e, m)
  | left + 1, c =>
    match c.step p with
    | .next c => run p budget left c
    | .done v m => (.ok v, m)
    | .failed e m => (.error e, m)

/-- Calls a function with numbers. -/
def call (p : Program) (budget : Nat) (m : Machine) (name : String) (args : List Float) :
    Except RunError Value × Machine :=
  let values := args.map Value.float
  match m.invoke p 0 name values with
  | .error fault => (.error ⟨fault, none⟩, m)
  | .ok (.returned v m) => (.ok v, m)
  | .ok (.body routine) =>
    match Frame.enter routine values with
    | .error fault => (.error ⟨fault, some routine.name⟩, m)
    | .ok frame => run p budget (budget - m.steps) ⟨m, frame, []⟩

/-- The record that an address points to. -/
def record? (m : Machine) : Value → Option Allocation
  | .ptr alloc _ => m.memory[alloc]?
  | _ => none

/-- A value as it is seen from outside. -/
def materialize (m : Machine) : Value → Except RunError Datum
  | .float x => .ok (.number x)
  | .bool b => .ok (.bool b)
  | .ptr alloc _ =>
    match m.memory[alloc]? with
    | some a => .ok (.record a.record a.cells)
    | none => .error ⟨.danglingPointer, none⟩

/-- Calls a function with numbers, and shows its value as it is seen from outside. -/
def evaluate (p : Program) (budget : Nat) (m : Machine) (name : String) (args : List Float) :
    Except RunError Datum × Machine :=
  match m.call p budget name args with
  | (.ok v, m) => (m.materialize v, m)
  | (.error e, m) => (.error e, m)

end Machine

end PoseLang
