import PoseLang.Json.Parser
import PoseLang.Json.Printer
import PoseLang.Settings.Basic

/-!
# Settings as JSON

An object names its entries; an array gives them in order. Entries of settings may be missing and
then have their usual values, entries of a record may not. What is not known is passed over, but a
known entry must not stand there twice.
-/

namespace PoseLang

namespace Json

/-- The entries of an object whose names are all texts. -/
def namedEntries? (j : Json) : Option (List (String × Json)) :=
  match j with
  | .object es => es.mapM fun e => e.1.map fun n => (n, e.2)
  | _ => none

/-- The one entry with a name: `some none` if there is no such entry, and none if there are two. -/
def uniqueEntry? (entries : List (String × Json)) (name : String) : Option (Option Json) :=
  match entries.filter (·.1 == name) with
  | [] => some none
  | [e] => some (some e.2)
  | _ => none

/-- A list of texts. -/
def texts? (j : Json) : Option (List String) := do
  (← j.items?).mapM text?

/-- A whole number of 32 bits. -/
def int32? (j : Json) : Option Int32 := do
  let n ← j.int?
  if Int32.minValue.toInt ≤ n ∧ n ≤ Int32.maxValue.toInt then some (Int32.ofInt n) else none

/-- A whole number of 64 bits that is not negative. -/
def word64? (j : Json) : Option Nat := do
  let n ← j.nat?
  if n < UInt64.size then some n else none

end Json

namespace Layout

/-- A layout from its name and its fields. -/
def ofParts? (name fields : Json) : Option Layout := do
  ofFields? (← name.text?) (← fields.texts?)

/-- A layout from a document. -/
def ofJson? (j : Json) : Option Layout :=
  match j with
  | .array [name, fields] => ofParts? name fields
  | .object _ => do
    let entries ← j.namedEntries?
    let name ← ← Json.uniqueEntry? entries "name"
    let fields ← ← Json.uniqueEntry? entries "fields"
    ofParts? name fields
  | _ => none

end Layout

namespace Settings

/-- Operators with their precedences; the last of a repeated one counts. -/
def operatorsOfJson? (j : Json) : Option (Std.ExtTreeMap String Int32) := do
  let entries ← j.namedEntries?
  let pairs ← entries.mapM fun e => e.2.int32?.map fun p => (e.1, p)
  return pairs.foldl (fun t p => t.insert p.1 p.2) ∅

/-- A list of records. -/
def recordsOfJson? (j : Json) : Option (List Layout) := do
  (← j.items?).mapM Layout.ofJson?

/-- A part of settings, with its usual value if it is missing. -/
def partOr? {α : Type} (usual : α) (read : Json → Option α) : Option Json → Option α
  | none => some usual
  | some j => read j

/-- Settings from their four parts. -/
def ofParts? (operators records maxSteps evaluate : Option Json) : Option Settings := do
  return {
    operators := ← partOr? standard.operators operatorsOfJson? operators
    records := ← partOr? standard.records recordsOfJson? records
    maxSteps := ← partOr? standard.maxSteps Json.word64? maxSteps
    evaluate := ← partOr? standard.evaluate Json.bool? evaluate }

/-- Settings from a document. -/
def ofJson? (j : Json) : Option Settings :=
  match j with
  | .array items =>
    if items.length ≤ 4 then ofParts? items[0]? items[1]? items[2]? items[3]? else none
  | .object _ => do
    let entries ← j.namedEntries?
    ofParts? (← Json.uniqueEntry? entries "operators") (← Json.uniqueEntry? entries "records")
      (← Json.uniqueEntry? entries "max_steps") (← Json.uniqueEntry? entries "evaluate_top_level")
  | _ => none

/-- Settings as a document. -/
def json (s : Settings) : Json :=
  .ofEntries [
    ("operators", .ofEntries (s.operators.toList.map fun p => (p.1, .ofInt p.2.toInt))),
    ("records", .ofList Layout.json s.records),
    ("max_steps", .ofNat s.maxSteps),
    ("evaluate_top_level", .bool s.evaluate)]

end Settings

end PoseLang
