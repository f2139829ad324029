import PoseLang.Code.Program

/-!
# Routines by name

What a look-up finds after each change of a program. Two programs with the same routines and the same
records are the same, since the index is determined by the routines.
-/

namespace PoseLang

namespace Program

variable {p q : Program} {name : String} {r : Routine}

/-- A place that is indexed has a routine. -/
theorem exists_of_index {i : Nat} (h : p.index[name]? = some i) :
    ∃ r, p.routines[i]? = some r ∧ r.name = name :=
  Option.map_eq_some_iff.mp ((p.index_iff name i).mp h)

/-- What is found under a name has it. -/
theorem name_of_get? (h : p.get? name = some r) : r.name = name := by
  unfold get? at h
  split at h
  next i hi =>
    obtain ⟨r', hr', hname⟩ := exists_of_index hi
    rw [h] at hr'
    cases hr'
    exact hname
  next => cases h

theorem get?_eq_none : p.get? name = none ↔ p.index[name]? = none := by
  unfold get?
  split
  next i hi =>
    obtain ⟨r, hr, -⟩ := exists_of_index hi
    simp [hr, hi]
  next hi => simp [hi]

/-- Programs are told apart by their routines and their records. -/
theorem eq_of_routines (hroutines : p.routines = q.routines) (hrecords : p.records = q.records) :
    p = q := by
  have hindex : p.index = q.index := by
    apply Std.ExtTreeMap.ext_getElem?
    intro name
    apply Option.ext
    intro i
    rw [p.index_iff, q.index_iff, hroutines]
  cases p
  cases q
  cases hroutines
  cases hrecords
  cases hindex
  rfl

theorem get?_push (fresh : p.index[r.name]? = none) (name : String) :
    (p.push r fresh).get? name = if r.name = name then some r else p.get? name := by
  have hindex : (p.push r fresh).index[name]? =
      if r.name = name then some p.routines.length else p.index[name]? := by
    simp [push, Std.ExtTreeMap.getElem?_insert]
  rw [get?, hindex]
  by_cases h : r.name = name
  · simp [h, push]
  · rw [if_neg h, if_neg h, get?]
    cases hi : p.index[name]? with
    | none => rfl
    | some i =>
      obtain ⟨r', hr', -⟩ := exists_of_index hi
      exact List.getElem?_append_left (List.getElem?_eq_some_iff.mp hr').1

theorem get?_replace {i : Nat} (here : p.index[r.name]? = some i) (name : String) :
    (p.replace r i here).get? name = if r.name = name then some r else p.get? name := by
  obtain ⟨old, hold, hname⟩ := exists_of_index here
  have hlt : i < p.routines.length := (List.getElem?_eq_some_iff.mp hold).1
  rw [get?, show (p.replace r i here).index = p.index from rfl]
  by_cases h : r.name = name
  · subst h
    simp [here, replace, hlt]
  · rw [if_neg h, get?]
    cases hj : p.index[name]? with
    | none => rfl
    | some j =>
      have hne : i ≠ j := by
        rintro rfl
        obtain ⟨r', hr', hname'⟩ := exists_of_index hj
        cases hold.symm.trans hr'
        exact h (hname.symm.trans hname')
      simp [replace, hne]

theorem get?_define (p : Program) (r : Routine) (name : String) :
    (p.define r).get? name = if r.name = name then some r else p.get? name := by
  unfold define
  split
  · exact get?_replace _ name
  · exact get?_push _ name

theorem get?_declare (p : Program) (s : Signature) (name : String) :
    (p.declare s).get? name =
      if s.name = name ∧ p.get? s.name = none then some (.declaration s) else p.get? name := by
  unfold declare
  split
  next h =>
    refine (get?_push (r := .declaration s) h name).trans ?_
    by_cases hname : s.name = name
    · exact (if_pos hname).trans (if_pos ⟨hname, get?_eq_none.mpr h⟩).symm
    · exact (if_neg hname).trans (if_neg fun hs => hname hs.1).symm
  next h =>
    rw [if_neg]
    exact fun hs => h (get?_eq_none.mp hs.2)

theorem declare_of_get? {s : Signature} (h : p.get? s.name = some r) : p.declare s = p :=
  dif_neg fun hnone => by simp [get?_eq_none.mpr hnone] at h

/-- A routine of a program is found under its name. -/
theorem get?_name (h : r ∈ p.routines) : p.get? r.name = some r := by
  obtain ⟨i, hi⟩ := List.mem_iff_getElem?.mp h
  have hindex : p.index[r.name]? = some i := (p.index_iff r.name i).mpr (by rw [hi, Option.map_some])
  rw [get?, hindex]
  exact hi

theorem mem_of_get? (h : p.get? name = some r) : r ∈ p.routines := by
  unfold get? at h
  split at h
  next i _ => exact List.mem_of_getElem? h
  next => cases h

/-- A name that no routine has is found nowhere. -/
theorem notMem_names (h : p.get? name = none) : name ∉ p.names := by
  intro hmem
  obtain ⟨r, hr, rfl⟩ := List.mem_map.mp hmem
  rw [get?_name hr] at h
  cases h

/-- A name is that of a routine if a look-up finds one. -/
theorem mem_names : name ∈ p.names ↔ p.get? name ≠ none := by
  constructor
  · intro hmem hnone
    exact notMem_names hnone hmem
  · intro hsome
    obtain ⟨r, hr⟩ := Option.ne_none_iff_exists'.mp hsome
    exact name_of_get? hr ▸ List.mem_map.mpr ⟨r, mem_of_get? hr, rfl⟩

/-! ### What a change is, by whether the name has a place -/

theorem declare_of_fresh {s : Signature} (h : p.index[s.name]? = none) :
    p.declare s = p.push (.declaration s) h :=
  dif_pos h

theorem declare_of_index {s : Signature} {i : Nat} (h : p.index[s.name]? = some i) :
    p.declare s = p :=
  dif_neg fun hnone => by rw [h] at hnone; cases hnone

theorem define_of_fresh (h : p.index[r.name]? = none) : p.define r = p.push r h := by
  unfold define
  split
  next hi => cases h.symm.trans hi
  next => rfl

theorem define_of_index {i : Nat} (h : p.index[r.name]? = some i) : p.define r = p.replace r i h := by
  unfold define
  split
  next hi => cases h.symm.trans hi; rfl
  next hi => cases h.symm.trans hi

theorem remove_of_fresh (h : p.index[name]? = none) : p.remove name = (none, p) := by
  unfold remove
  split
  next hi => cases h.symm.trans hi
  next => rfl

theorem remove_of_index {i : Nat} (h : p.index[name]? = some i) :
    p.remove name = (p.routines[i]?, p.removeAt name i h) := by
  unfold remove
  split
  next hi => cases h.symm.trans hi; rfl
  next hi => cases h.symm.trans hi

/-- No two routines of a program share a name. -/
theorem nodup_names (p : Program) : p.names.Nodup := by
  have hplace {i : Nat} {name : String} (h : p.names[i]? = some name) :
      p.index[name]? = some i :=
    (p.index_iff name i).mpr (List.getElem?_map.symm.trans h)
  refine List.pairwise_iff_getElem.mpr fun i j hi hj hij heq => ?_
  have hfirst := hplace (List.getElem?_eq_getElem hi)
  have hsecond := hplace (List.getElem?_eq_getElem hj)
  rw [heq, hsecond] at hfirst
  cases hfirst
  exact Nat.lt_irrefl i hij

/-- A routine with a new name can be taken out again, and all is as before. -/
theorem remove_define (h : p.get? r.name = none) : ((p.define r).remove r.name).2 = p := by
  have hfresh := get?_eq_none.mp h
  have hplace : (p.push r hfresh).index[r.name]? = some p.routines.length := by simp [push]
  rw [define_of_fresh hfresh, remove_of_index hplace]
  apply eq_of_routines
  · simp [removeAt, push, List.eraseIdx_append_of_length_le]
  · rfl

@[simp] theorem records_define (p : Program) (r : Routine) : (p.define r).records = p.records := by
  unfold define
  split <;> rfl

@[simp] theorem records_declare (p : Program) (s : Signature) :
    (p.declare s).records = p.records := by
  unfold declare
  split <;> rfl

end Program

end PoseLang
