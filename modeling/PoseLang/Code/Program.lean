import Std.Data.ExtTreeMap
import PoseLang.Code.Routine
import PoseLang.Layout

/-!
# Programs

Programs: the routines compiled so far, in the order in which they came, and the record layouts that
they use. An index finds a routine by its name. That the index is right is part of the type, so no
two routines of a program share a name.
-/

namespace PoseLang

open Std (ExtTreeMap)

/-- Routines in order, with their places by name, and the layouts of records. -/
structure Program where
  routines : List Routine
  index : ExtTreeMap String Nat
  records : Registry
  /-- A name is indexed with the place of the routine that has it, and only then. -/
  index_iff : ∀ (n : String) (i : Nat),
    index[n]? = some i ↔ (routines[i]?).map Routine.name = some n

namespace Program

/-- The program without routines. -/
def empty (records : Registry) : Program where
  routines := []
  index := ∅
  records := records
  index_iff := by simp

/-- The routine with a name. -/
def get? (p : Program) (name : String) : Option Routine :=
  match p.index[name]? with
  | some i => p.routines[i]?
  | none => none

/-- Whether there is a routine with a name. -/
def contains (p : Program) (name : String) : Bool :=
  p.index.contains name

/-- The names of the routines, in order. -/
def names (p : Program) : List String :=
  p.routines.map Routine.name

/-- The number of routines. -/
def size (p : Program) : Nat :=
  p.routines.length

/-- Adds a routine with a new name at the end. -/
def push (p : Program) (r : Routine) (fresh : p.index[r.name]? = none) : Program where
  routines := p.routines ++ [r]
  index := p.index.insert r.name p.routines.length
  records := p.records
  index_iff := by
    intro n i
    have old := p.index_iff n i
    have absent := p.index_iff r.name i
    rw [fresh] at absent
    grind

/-- Adds a declaration at the end, unless there is a routine with its name. -/
def declare (p : Program) (s : Signature) : Program :=
  if h : p.index[s.name]? = none then p.push (.declaration s) h else p

/-- Puts a routine in the place of the one with its name. -/
def replace (p : Program) (r : Routine) (i : Nat) (here : p.index[r.name]? = some i) : Program where
  routines := p.routines.set i r
  index := p.index
  records := p.records
  index_iff := by
    intro n j
    have old := p.index_iff n j
    have there := (p.index_iff r.name i).mp here
    grind

/-- Adds a routine: in the place of the one with its name, or at the end. -/
def define (p : Program) (r : Routine) : Program :=
  match h : p.index[r.name]? with
  | some i => p.replace r i h
  | none => p.push r h

/-- The place of a routine once the one at `i` is gone. -/
def closeGap (i j : Nat) : Nat :=
  if i < j then j - 1 else j

theorem closeGap_eq_iff {i j k : Nat} :
    k ≠ i ∧ closeGap i k = j ↔ k = if j < i then j else j + 1 := by
  unfold closeGap
  split <;> split <;> omega

/-- The index stays right when the routine at a place is taken out and those behind it move up. -/
theorem index_iff_eraseIdx (p : Program) {name : String} {i : Nat} (here : p.index[name]? = some i)
    (n : String) (j : Nat) :
    ((p.index.erase name).map fun _ j => closeGap i j)[n]? = some j ↔
      ((p.routines.eraseIdx i)[j]?).map Routine.name = some n := by
  have hplace : p.index[n]? = some (if j < i then j else j + 1) ↔
      (if j < i then p.routines[j]? else p.routines[j + 1]?).map Routine.name = some n := by
    split <;> exact p.index_iff n _
  rw [ExtTreeMap.getElem?_map, ExtTreeMap.getElem?_erase, List.getElem?_eraseIdx, ← hplace]
  cases hk : p.index[n]? with
  | none => simp
  | some k =>
    -- The name that is taken out is the one at the place.
    have hname : name = n ↔ k = i := by
      constructor
      · rintro rfl
        exact Option.some.inj (hk.symm.trans here)
      · rintro rfl
        exact Option.some.inj (((p.index_iff name k).mp here).symm.trans ((p.index_iff n k).mp hk))
    rw [Option.some.injEq, ← closeGap_eq_iff, Ne, ← hname]
    by_cases h : name = n
    · simp [h]
    · simp [h]

/-- Takes out the routine at a place; those behind it move up. -/
def removeAt (p : Program) (name : String) (i : Nat) (here : p.index[name]? = some i) :
    Program where
  routines := p.routines.eraseIdx i
  index := (p.index.erase name).map fun _ j => closeGap i j
  records := p.records
  index_iff := p.index_iff_eraseIdx here

/-- Takes out the routine with a name, and gives it. -/
def remove (p : Program) (name : String) : Option Routine × Program :=
  match h : p.index[name]? with
  | some i => (p.routines[i]?, p.removeAt name i h)
  | none => (none, p)

/-- The listing of a program: the layouts, then every routine behind an empty line. -/
def text (p : Program) : String :=
  String.join (p.records.layouts.map fun l => l.text ++ "\n") ++
    String.join (p.routines.map fun r => "\n" ++ r.text)

/-- A program as a document. -/
def json (p : Program) : Json :=
  .ofEntries [("functions", .ofList Routine.json p.routines), ("records", p.records.json)]

end Program

end PoseLang
