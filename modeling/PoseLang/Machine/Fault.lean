import PoseLang.Diagnostic
import PoseLang.Machine.Value

/-!
# Failures of the machine

Failures of the machine: what went wrong, and the innermost function with a body that was running.
-/

namespace PoseLang

/-- The greatest number of functions with bodies that may run inside each other. -/
def maxDepth : Nat :=
  512

/-- What goes wrong in a run. Registers, blocks, allocations and cells are given by their numbers.
-/
inductive Fault where
  | unknownFunction (name : String)
  | wrongArity (name : String) (expected found : Nat)
  | noHost (name : String)
  | depthExceeded
  | budgetExhausted (budget : Nat)
  | missingBlock (block : Nat)
  | entryPhi
  | missingEdge (dest source : Nat)
  | latePhi
  | fellOff (block : Nat)
  | unsetRegister (reg : Nat)
  | notNumber (found : Value)
  | baseNotPointer (reg : Nat)
  | addressNotPointer (reg : Nat)
  | unknownRecord (record : String)
  | outsideAllocation (alloc cell : Nat)
  | danglingPointer
  /-- A register is written that the frame does not have. -/
  | outsideFrame (reg : Nat)

/-- A fault in words. -/
def Fault.message : Fault → String
  | .unknownFunction n => "call to unknown function '" ++ n ++ "'"
  | .wrongArity n e f =>
    "'" ++ n ++ "' expects " ++ toString e ++ " argument(s), got " ++ toString f
  | .noHost n => "no host implementation for extern '" ++ n ++ "'"
  | .depthExceeded => "call depth limit of " ++ toString maxDepth ++ " exceeded"
  | .budgetExhausted n => "step budget of " ++ toString n ++ " exhausted"
  | .missingBlock b => "jump to missing block " ++ Op.block b
  | .entryPhi => "phi in entry block"
  | .missingEdge d b => "phi " ++ Op.register d ++ " has no edge from " ++ Op.block b
  | .latePhi => "phi after the start of a block"
  | .fellOff b => "fell off the end of " ++ Op.block b
  | .unsetRegister r => "read of unset register " ++ Op.register r
  | .notNumber v => "expected a number, found " ++ v.inspect
  | .baseNotPointer r => "fieldaddr base " ++ Op.register r ++ " is not a pointer"
  | .addressNotPointer r => "store address " ++ Op.register r ++ " is not a pointer"
  | .unknownRecord r => "alloca of unknown record '" ++ r ++ "'"
  | .outsideAllocation a c =>
    "store outside allocation " ++ toString a ++ " (cell " ++ toString c ++ ")"
  | .danglingPointer => "dangling record pointer"
  | .outsideFrame r => "write of register " ++ Op.register r ++ " outside the frame"

/-- A failure of the machine. -/
structure RunError where
  fault : Fault
  function : Option String

namespace RunError

/-- The fault and the function that was running, in words. -/
def message (e : RunError) : String :=
  match e.function with
  | some f => e.fault.message ++ " (in '" ++ f ++ "')"
  | none => e.fault.message

/-- The failure as a diagnostic. -/
def diagnostic (e : RunError) : Diagnostic :=
  ⟨.error, "posec.ir.exec", none, e.message⟩

end RunError

end PoseLang
