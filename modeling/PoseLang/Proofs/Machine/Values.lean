import PoseLang.Machine.Run

/-!
# Values that fit types

A number fits the type of numbers, and the address of the first cell of a record fits the type of
addresses of such records. No truth value fits: tests are held in registers of their own and are
never the value of an expression.

An address fits as long as its record is there and has its width. Memory only grows: records stay
where they are, with their names and their widths (`Allocation.Kept`), so what fits once fits on.
-/

namespace PoseLang

/-- A value has a type, given the records that there are. -/
inductive Value.Fits (records : Registry) (memory : Array Allocation) : Value → Ty → Prop
  | float {x : Float} : Fits records memory (.float x) .f64
  | ptr {alloc : Nat} {record : String} {cells : List Float} {layout : Layout}
    (there : memory[alloc]? = some ⟨record, cells⟩) (registered : records[record]? = some layout)
    (wide : cells.length = layout.width) :
    Fits records memory (.ptr alloc 0) (.ptr record)

/-- A value as it is seen from outside has a type. -/
inductive Datum.Fits (records : Registry) : Datum → Ty → Prop
  | number {x : Float} : Fits records (.number x) .f64
  | record {name : String} {fields : List Float} {layout : Layout}
    (registered : records[name]? = some layout) (wide : fields.length = layout.width) :
    Fits records (.record name fields) (.ptr name)

/-- Allocations stay, with the names and the widths of their records. -/
def Allocation.Kept (memory memory' : Array Allocation) : Prop :=
  ∀ (i : Nat) (record : String) (cells : List Float), memory[i]? = some ⟨record, cells⟩ →
    ∃ cells', memory'[i]? = some ⟨record, cells'⟩ ∧ cells'.length = cells.length

namespace Allocation.Kept

variable {memory memory₁ memory₂ : Array Allocation}

theorem refl : Kept memory memory :=
  fun _ _ cells h => ⟨cells, h, rfl⟩

theorem trans (h : Kept memory memory₁) (h' : Kept memory₁ memory₂) : Kept memory memory₂ := by
  intro i record cells hi
  obtain ⟨cells₁, h₁, hlen₁⟩ := h i record cells hi
  obtain ⟨cells₂, h₂, hlen₂⟩ := h' i record cells₁ h₁
  exact ⟨cells₂, h₂, hlen₂.trans hlen₁⟩

theorem push (a : Allocation) : Kept memory (memory.push a) := by
  intro i record cells hi
  have hlt : i < memory.size := (Array.getElem?_eq_some_iff.mp hi).1
  exact ⟨cells, by rw [Array.getElem?_push_lt hlt, ← hi, Array.getElem?_eq_getElem hlt], rfl⟩

theorem store (m : Machine) (alloc cell : Nat) (x : Float) :
    Kept m.memory (m.store alloc cell x).memory := by
  intro i record cells hi
  by_cases h : alloc = i
  · exact ⟨cells.set cell x, by simp [Machine.store, Array.getElem?_modify, h, hi], by simp⟩
  · exact ⟨cells, by simp [Machine.store, Array.getElem?_modify, h, hi], rfl⟩

/-- There are at least as many records. -/
theorem size_le (h : Kept memory memory₁) : memory.size ≤ memory₁.size := by
  apply Nat.le_of_not_lt
  intro hlt
  obtain ⟨cells', hcells', -⟩ := h memory₁.size _ _ (Array.getElem?_eq_getElem hlt)
  exact absurd (Array.getElem?_eq_some_iff.mp hcells').1 (Nat.lt_irrefl _)

end Allocation.Kept

namespace Value.Fits

variable {records : Registry} {memory memory' : Array Allocation} {v : Value} {ty : Ty}

theorem kept (h : v.Fits records memory ty) (hkept : Allocation.Kept memory memory') :
    v.Fits records memory' ty := by
  cases h with
  | float => exact .float
  | ptr there registered wide =>
    obtain ⟨cells', hthere, hlen⟩ := hkept _ _ _ there
    exact .ptr hthere registered (hlen.trans wide)

theorem eq_float (h : v.Fits records memory .f64) : ∃ x, v = .float x := by
  cases h with
  | float => exact ⟨_, rfl⟩

theorem eq_ptr {record : String} (h : v.Fits records memory (.ptr record)) :
    ∃ place, v = .ptr place 0 := by
  cases h with
  | ptr => exact ⟨_, rfl⟩

/-- Behind an address that fits there is a record of the right width. -/
theorem allocation {place : Nat} {record : String} {layout : Layout}
    (h : Fits records memory (.ptr place 0) (.ptr record))
    (hlayout : records[record]? = some layout) :
    ∃ a, memory[place]? = some a ∧ a.cells.length = layout.width := by
  cases h with
  | ptr there registered wide =>
    rw [registered] at hlayout
    cases hlayout
    exact ⟨_, there, wide⟩

/-- An address that fits can be looked up from outside, and what is found has its type. -/
theorem materialize {m : Machine} (h : v.Fits records m.memory ty) :
    ∃ d, m.materialize v = .ok d ∧ d.Fits records ty := by
  cases h with
  | float => exact ⟨_, rfl, .number⟩
  | ptr there registered wide =>
    exact ⟨.record _ _, by rw [Machine.materialize, there], .record registered wide⟩

end Value.Fits

end PoseLang
