import Std.Data.ExtTreeMap
import PoseLang.Code.Program
import PoseLang.Item.Basic

/-!
# What is known while lowering

What is known while functions are lowered: the program so far, and the prototypes of the functions
that may be called.
-/

namespace PoseLang

open Std (ExtTreeMap)

/-- Prototypes by name. -/
abbrev Prototypes :=
  ExtTreeMap String Prototype

/-- Where the target of a call is known from. -/
inductive Target where
  /-- The program has a routine of that name. -/
  | routine (s : Signature)
  /-- Only a prototype is known, and the program needs a declaration. -/
  | prototype (s : Signature)

/-- The signature of a call's target. -/
def Target.signature : Target → Signature
  | .routine s | .prototype s => s

/-- The program so far and the prototypes of functions. -/
structure Context where
  prototypes : Prototypes
  program : Program

namespace Context

/-- The context in which nothing has been compiled. -/
def start (records : Registry) : Context :=
  ⟨∅, .empty records⟩

/-- Makes a prototype known; one of the same name gives way. -/
def register (c : Context) (p : Prototype) : Context :=
  { c with prototypes := c.prototypes.insert p.name p }

/-- Forgets the prototype of a name. -/
def forget (c : Context) (name : String) : Context :=
  { c with prototypes := c.prototypes.erase name }

/-- The target of a call: a routine of the program, or else a known prototype, which stands for a
function from numbers to a number. -/
def resolve? (c : Context) (name : String) : Option Target :=
  match c.program.get? name with
  | some r => some (.routine r.signature)
  | none => (c.prototypes[name]?).map fun p => .prototype (.external p.name p.params)

end Context

end PoseLang
