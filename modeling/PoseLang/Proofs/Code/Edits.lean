import PoseLang.Proofs.Code.Program

/-!
# Programs as ordered lists

A program keeps its routines in a list and their places in an index, and a change of the program changes
the two apart from each other. `Table` is a program without the promise that they fit: a place that is
found in the index may lie outside the list, and then a change fails. No change of a program ever does
(`Program.edit_table`), whatever changes came before it.

What is left to say is what a program is to its users: a list of routines with different names, in the
order in which the names came (`Program.Lists`). A declaration is added at the end if its name is new, a
routine takes the place of the one with its name or is added at the end, and a removal takes out one
routine and leaves all others as they are (`Edit.apply`).
-/

namespace PoseLang

open Std (ExtTreeMap)

/-- A change of a program. -/
inductive Edit where
  | declare (s : Signature)
  | define (r : Routine)
  | remove (name : String)

/-- What a change does to a list of routines with different names. -/
def Edit.apply (rs : List Routine) : Edit → List Routine
  | .declare s => if rs.any (·.name == s.name) then rs else rs ++ [.declaration s]
  | .define r =>
    if rs.any (·.name == r.name) then rs.map fun q => if q.name = r.name then r else q
    else rs ++ [r]
  | .remove name => rs.eraseP (·.name == name)

/-! ## Lists and indexes that nothing ties together -/

/-- Routines, and places by name, which may be anything. -/
structure Table where
  routines : List Routine := []
  index : ExtTreeMap String Nat := ∅

namespace Table

/-- The table with a routine at the end. -/
def push (t : Table) (r : Routine) : Table :=
  ⟨t.routines ++ [r], t.index.insert r.name t.routines.length⟩

/-- The routine with a name, if there is one. Fails if its place lies outside the list. -/
def get (t : Table) (name : String) : Option (Option Routine) :=
  match t.index[name]? with
  | some i => (t.routines[i]?).map some
  | none => some none

/-- The table behind a change. Fails if a place that is used lies outside the list. -/
def edit (t : Table) : Edit → Option Table
  | .declare s => some (if t.index.contains s.name then t else t.push (.declaration s))
  | .define r =>
    match t.index[r.name]? with
    | some i => if i < t.routines.length then some { t with routines := t.routines.set i r } else none
    | none => some (t.push r)
  | .remove name =>
    match t.index[name]? with
    | some i =>
      if i < t.routines.length then
        some ⟨t.routines.eraseIdx i, (t.index.erase name).map fun _ j => if i < j then j - 1 else j⟩
      else none
    | none => some t

end Table

namespace Program

/-- The program behind a change. -/
def edit (p : Program) : Edit → Program
  | .declare s => p.declare s
  | .define r => p.define r
  | .remove name => (p.remove name).2

/-- The program behind changes of the program without routines. -/
def edited (records : Registry) (edits : List Edit) : Program :=
  edits.foldl edit (.empty records)

/-- The list and the index of a program. -/
def table (p : Program) : Table :=
  ⟨p.routines, p.index⟩

variable {p : Program} {name : String} {i : Nat}

/-! ## Places -/

theorem lt_of_index (h : p.index[name]? = some i) : i < p.routines.length := by
  obtain ⟨r, hr, -⟩ := exists_of_index h
  exact (List.getElem?_eq_some_iff.mp hr).1

/-- The routine at the place of a name is the only one that has it. -/
theorem name_eq_iff (h : p.index[name]? = some i) {j : Nat} {q : Routine}
    (hq : p.routines[j]? = some q) : q.name = name ↔ j = i := by
  have hplace : p.index[q.name]? = some j := (p.index_iff q.name j).mpr (by rw [hq, Option.map_some])
  constructor
  · rintro rfl
    exact Option.some.inj (hplace.symm.trans h)
  · rintro rfl
    obtain ⟨r, hr, hname⟩ := exists_of_index h
    cases hq.symm.trans hr
    exact hname

theorem any_name_of_index (h : p.index[name]? = some i) : p.routines.any (·.name == name) = true := by
  obtain ⟨r, hr, hname⟩ := exists_of_index h
  exact List.any_eq_true.mpr ⟨r, List.mem_of_getElem? hr, beq_iff_eq.mpr hname⟩

theorem any_name_of_fresh (h : p.index[name]? = none) : p.routines.any (·.name == name) = false := by
  rw [Bool.eq_false_iff]
  intro hany
  obtain ⟨r, hr, hname⟩ := List.any_eq_true.mp hany
  exact notMem_names (get?_eq_none.mpr h) (List.mem_map.mpr ⟨r, hr, beq_iff_eq.mp hname⟩)

theorem findIdx?_of_index (h : p.index[name]? = some i) :
    p.routines.findIdx? (·.name == name) = some i := by
  have hi := lt_of_index h
  refine List.findIdx?_eq_some_iff_getElem.mpr ⟨hi, ?_, fun j hj hname => ?_⟩
  · exact beq_iff_eq.mpr ((name_eq_iff h (List.getElem?_eq_getElem hi)).mpr rfl)
  · have hj' := List.getElem?_eq_getElem (Nat.lt_trans hj hi)
    exact Nat.ne_of_lt hj ((name_eq_iff h hj').mp (beq_iff_eq.mp hname))

/-- The routine that a look-up finds is the first one in the list that has the name. -/
theorem get?_eq_find? (p : Program) (name : String) :
    p.get? name = p.routines.find? (·.name == name) := by
  cases h : p.get? name with
  | none =>
    symm
    rw [List.find?_eq_none]
    intro r hr hname
    exact notMem_names h (List.mem_map.mpr ⟨r, hr, beq_iff_eq.mp hname⟩)
  | some r =>
    symm
    cases hfind : p.routines.find? (·.name == name) with
    | none =>
      have hnot := List.find?_eq_none.mp hfind r (mem_of_get? h)
      exact absurd (beq_iff_eq.mpr (name_of_get? h)) hnot
    | some q =>
      have hname : q.name = name := by simpa using List.find?_some hfind
      rw [← h, ← hname]
      exact (get?_name (List.mem_of_find?_eq_some hfind)).symm

theorem contains_eq_any (p : Program) (name : String) :
    p.contains name = p.routines.any (·.name == name) := by
  rw [contains, ExtTreeMap.contains_eq_isSome_getElem?]
  cases h : p.index[name]? with
  | none => rw [any_name_of_fresh h]; rfl
  | some i => rw [any_name_of_index h]; rfl

/-! ## One change -/

theorem routines_declare (p : Program) (s : Signature) :
    (p.declare s).routines = Edit.apply p.routines (.declare s) := by
  cases h : p.index[s.name]? with
  | none =>
    have hnew : p.routines.any (·.name == s.name) = false := any_name_of_fresh h
    rw [declare_of_fresh h, Edit.apply, hnew]
    rfl
  | some i =>
    have hthere : p.routines.any (·.name == s.name) = true := any_name_of_index h
    rw [declare_of_index h, Edit.apply, hthere]
    rfl

theorem routines_define (p : Program) (r : Routine) :
    (p.define r).routines = Edit.apply p.routines (.define r) := by
  cases h : p.index[r.name]? with
  | none =>
    have hnew : p.routines.any (·.name == r.name) = false := any_name_of_fresh h
    rw [define_of_fresh h, Edit.apply, hnew]
    rfl
  | some i =>
    have hthere : p.routines.any (·.name == r.name) = true := any_name_of_index h
    rw [define_of_index h, Edit.apply, hthere, if_pos rfl]
    apply List.ext_getElem?
    intro j
    rw [List.getElem?_map]
    cases hq : p.routines[j]? with
    | none =>
      have hj := List.getElem?_eq_none_iff.mp hq
      simp [replace, hj]
    | some q =>
      have hj := (List.getElem?_eq_some_iff.mp hq).1
      by_cases hij : j = i
      · subst hij
        simp [replace, hj, (name_eq_iff h hq).mpr rfl]
      · have hname : q.name ≠ r.name := fun heq => hij ((name_eq_iff h hq).mp heq)
        simp [replace, Ne.symm hij, hq, hname]

theorem routines_remove (p : Program) (name : String) :
    (p.remove name).2.routines = Edit.apply p.routines (.remove name) := by
  rw [Edit.apply, List.eraseP_eq_eraseIdx]
  cases h : p.index[name]? with
  | none =>
    have hnone : p.routines.findIdx? (·.name == name) = none := by
      rw [List.findIdx?_eq_none_iff]
      simpa using any_name_of_fresh h
    rw [remove_of_fresh h, hnone]
  | some i =>
    rw [remove_of_index h, findIdx?_of_index h]
    rfl

/-- A change of a program is a change of its list. -/
theorem routines_edit (p : Program) (e : Edit) : (p.edit e).routines = e.apply p.routines := by
  cases e with
  | declare s => exact routines_declare p s
  | define r => exact routines_define p r
  | remove name => exact routines_remove p name

theorem fst_remove (p : Program) (name : String) : (p.remove name).1 = p.get? name := by
  cases h : p.index[name]? with
  | none => rw [remove_of_fresh h, get?_eq_none.mpr h]
  | some i => rw [remove_of_index h, get?, h]

theorem get_table (p : Program) (name : String) : p.table.get name = some (p.get? name) := by
  change (match p.index[name]? with
    | some i => (p.routines[i]?).map some
    | none => some none) = some (p.get? name)
  rw [get?]
  cases h : p.index[name]? with
  | none => rfl
  | some i =>
    obtain ⟨r, hr, -⟩ := exists_of_index h
    simp only [hr, Option.map_some]

/-- What a program does to its list and its index can be done without knowing that they fit. -/
theorem edit_table (p : Program) (e : Edit) : p.table.edit e = some (p.edit e).table := by
  cases e with
  | declare s =>
    have hcontains : p.table.index.contains s.name = (p.index[s.name]?).isSome :=
      ExtTreeMap.contains_eq_isSome_getElem?
    rw [edit, Table.edit, hcontains]
    cases h : p.index[s.name]? with
    | none => rw [declare_of_fresh h]; rfl
    | some i => rw [declare_of_index h]; rfl
  | define r =>
    rw [edit, Table.edit]
    cases h : p.index[r.name]? with
    | none =>
      have hindex : p.table.index[r.name]? = none := h
      rw [define_of_fresh h, hindex]
      rfl
    | some i =>
      have hindex : p.table.index[r.name]? = some i := h
      rw [define_of_index h, hindex]
      exact if_pos (lt_of_index h)
  | remove name =>
    rw [edit, Table.edit]
    cases h : p.index[name]? with
    | none =>
      have hindex : p.table.index[name]? = none := h
      rw [remove_of_fresh h, hindex]
    | some i =>
      have hindex : p.table.index[name]? = some i := h
      rw [remove_of_index h, hindex]
      exact if_pos (lt_of_index h)

/-! ## Changes one after the other -/

/-- A program is a list of routines with different names: each name is indexed with the place of the
routine that has it, and what is found, counted and given back is what the list has. -/
structure Lists (p : Program) (rs : List Routine) : Prop where
  routines : p.routines = rs
  distinct : (rs.map Routine.name).Nodup
  places : ∀ (name : String) (i : Nat),
    p.index[name]? = some i ↔ (rs[i]?).map Routine.name = some name
  found : ∀ name : String, p.get? name = rs.find? (·.name == name)
  contained : ∀ name : String, p.contains name = rs.any (·.name == name)
  counted : p.size = rs.length
  removed : ∀ name : String, (p.remove name).1 = rs.find? (·.name == name)

theorem lists_routines (p : Program) : p.Lists p.routines where
  routines := rfl
  distinct := p.nodup_names
  places := p.index_iff
  found := p.get?_eq_find?
  contained := p.contains_eq_any
  counted := rfl
  removed name := (p.fst_remove name).trans (p.get?_eq_find? name)

theorem routines_foldl_edit (p : Program) (edits : List Edit) :
    (edits.foldl edit p).routines = edits.foldl Edit.apply p.routines := by
  induction edits generalizing p with
  | nil => rfl
  | cons e edits ih => rw [List.foldl_cons, List.foldl_cons, ih, routines_edit]

theorem foldlM_edit_table (p : Program) (edits : List Edit) :
    edits.foldlM Table.edit p.table = some (edits.foldl edit p).table := by
  induction edits generalizing p with
  | nil => rfl
  | cons e edits ih =>
    rw [List.foldlM_cons, edit_table]
    exact ih (p.edit e)

/-- Programs are ordered lists of routines with different names. Whatever changes are made to the program
without routines, none of them uses a place outside the list, also not if the list and the index are
changed apart from each other and nothing is known about how they fit; and the program that they lead
to is the list that they lead to, in what it holds and in what it answers. -/
theorem edited_ordered (records : Registry) (edits : List Edit) :
    edits.foldlM Table.edit {} = some (edited records edits).table ∧
      (∀ name, (edited records edits).table.get name = some ((edited records edits).get? name)) ∧
      (edited records edits).Lists (edits.foldl Edit.apply []) := by
  have hlists := (edited records edits).lists_routines
  rw [edited, routines_foldl_edit] at hlists
  exact ⟨foldlM_edit_table (.empty records) edits, get_table _, hlists⟩

end Program

end PoseLang
