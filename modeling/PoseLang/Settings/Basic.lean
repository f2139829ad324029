import PoseLang.Diagnostic
import PoseLang.Dialect
import PoseLang.Text.Blank

/-!
# Settings

The settings of the compiler: the operators and the records of the dialect, the step budget of an
evaluation, and whether expressions are evaluated at all.
-/

namespace PoseLang

open Std (ExtTreeMap)

/-- The settings of the compiler. Nothing is demanded of the operators and the records; `flaw?` says
what is wrong with them. -/
structure Settings where
  operators : ExtTreeMap String Int32
  records : List Layout
  maxSteps : Nat
  /-- Whether an expression is run once it is lowered. -/
  evaluate : Bool
deriving DecidableEq

namespace Settings

/-- The usual settings: the standard dialect, a million steps, and evaluation. -/
def standard : Settings where
  operators := Operators.standard.toList.foldl (fun t p => t.insert p.1.toString p.2) ∅
  records := [Layout.pose2D]
  maxSteps := 1000000
  evaluate := true

/-- The operator table: an operator counts by its first character, and of two with the same one the
later wins, in the order of their texts. -/
def operatorTable (s : Settings) : Operators :=
  s.operators.toList.foldl (fun t p =>
    match p.1.toList with
    | c :: _ => t.insert c p.2
    | [] => t) ∅

/-- The record layouts by name; of two with the same name the later wins. -/
def registry (s : Settings) : Registry :=
  .ofLayouts s.records

/-- The dialect that the settings describe. -/
def dialect (s : Settings) : Dialect :=
  ⟨s.operatorTable, s.registry⟩

/-- What is wrong with settings. -/
inductive Flaw where
  | longOperator (symbol : String)
  | reservedOperator (c : Char)
  | precedence (c : Char) (p : Int32)
  | namelessRecord
  | emptyRecord (name : String)
  | repeatedRecord (name : String)
deriving Repr, DecidableEq

/-- A flaw in words. -/
def Flaw.message : Flaw → String
  | .longOperator s => "operator '" ++ s ++ "' must be a single character"
  | .reservedOperator c => "'" ++ c.toString ++ "' cannot be used as a binary operator"
  | .precedence c p =>
    "operator '" ++ c.toString ++ "' has precedence " ++ toString p.toInt ++ ", must be positive"
  | .namelessRecord => "record name is empty"
  | .emptyRecord n => "record '" ++ n ++ "' has no fields"
  | .repeatedRecord n => "duplicate record name '" ++ n ++ "'"

/-- A character that means something else in the language. -/
def isReserved (c : Char) : Bool :=
  c.isAlphanum || Text.isBlank c || "(),=;#".toList.contains c

/-- What is wrong with an operator. -/
def operatorFlaw? (symbol : String) (p : Int32) : Option Flaw :=
  match symbol.toList with
  | [c] =>
    if isReserved c then some (.reservedOperator c)
    else if p ≤ 0 then some (.precedence c p)
    else none
  | _ => some (.longOperator symbol)

/-- The first thing that is wrong with a list of records, behind records of some names. -/
def recordsFlaw? (seen : List String) : List Layout → Option Flaw
  | [] => none
  | l :: ls =>
    if Text.allBlank l.name then some .namelessRecord
    else if l.fields.isEmpty then some (.emptyRecord l.name)
    else if seen.contains l.name then some (.repeatedRecord l.name)
    else recordsFlaw? (l.name :: seen) ls

/-- The first thing that is wrong: with an operator, in the order of their texts, or else with a
record. -/
def flaw? (s : Settings) : Option Flaw :=
  (s.operators.toList.findSome? fun p => operatorFlaw? p.1 p.2) <|> recordsFlaw? [] s.records

end Settings

end PoseLang
