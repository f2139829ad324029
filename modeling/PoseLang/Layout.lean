import Std.Data.ExtTreeMap
import PoseLang.Json.Basic

/-!
# Record layouts

A layout is a name with an ordered list of number fields; a registry holds the layouts that a
program may use, one for each name.
-/

namespace PoseLang

open Std (ExtTreeMap)

/-- The shape of a record: its name and the names of its fields, in order. There are no more fields than a
word can number. -/
structure Layout where
  name : String
  fields : List String
  fields_lt : fields.length < UInt64.size
deriving Repr, DecidableEq

namespace Layout

/-- A layout with some fields, unless there are too many of them. -/
def ofFields? (name : String) (fields : List String) : Option Layout :=
  if h : fields.length < UInt64.size then some ⟨name, fields, h⟩ else none

/-- The number of fields. -/
def width (l : Layout) : Nat :=
  l.fields.length

/-- The position of the first field with a name. -/
def fieldIndex? (l : Layout) (field : String) : Option Nat :=
  l.fields.findIdx? (· == field)

/-- A layout as it is declared. -/
def text (l : Layout) : String :=
  "record " ++ l.name ++ " \x7b " ++ ", ".intercalate l.fields ++ " \x7d"

/-- A layout as a document. -/
def json (l : Layout) : Json :=
  .ofEntries [("name", .ofString l.name), ("fields", .ofList .ofString l.fields)]

/-- A position and a heading in the plane. -/
def pose2D : Layout :=
  ⟨"Pose2D", ["x", "y", "theta"], by decide⟩

end Layout

/-- The record layouts of a program, by name. -/
abbrev Registry :=
  ExtTreeMap String Layout

namespace Registry

/-- Adds a layout under its name; a layout of that name gives way. -/
def register (r : Registry) (l : Layout) : Registry :=
  r.insert l.name l

/-- The registry of some layouts, the later ones winning. -/
def ofLayouts (ls : List Layout) : Registry :=
  ls.foldl register ∅

/-- The layouts that every program has. -/
def builtin : Registry :=
  ofLayouts [Layout.pose2D]

/-- The layouts by their names, in the order of their characters. -/
def layouts (r : Registry) : List Layout :=
  r.values

/-- A registry as a document. -/
def json (r : Registry) : Json :=
  .ofEntries [("layouts", .ofEntries (r.toList.map fun (name, l) => (name, l.json)))]

end Registry

end PoseLang
