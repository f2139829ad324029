import PoseLang.Proofs.Code.Edits
import PoseLang.Proofs.Lowering.Accepted

/-!
# A definition changes all that it should, or nothing

A definition that is lowered in place makes its prototype known before it is known whether its body can be
lowered, so that the body may call the function, and has to put back what was known under the name if it
cannot (`Context.defineInPlace`). Whatever it fails for, all is as it was before.

A definition that is lowered changes three things (`Definition.Enters`). Its prototype is known. Its
routine is in the place of a declaration of its name, or at the end. And in front of a routine at the end
there are the declarations of functions that the body calls, that the program lacks and that are known by
their prototypes, once for each name, in the order in which calls of them are first complete. Neither the
context nor the program has to be in step with the other one for this.
-/

namespace PoseLang

/-! ## Declarations that a call asks for -/

namespace Context

/-- The declaration that a call of a function asks for: that of a function which the program lacks and of
which the prototype is known. -/
def declaration? (c : Context) (name : String) : Option Signature :=
  match c.program.get? name with
  | some _ => none
  | none => (c.prototypes[name]?).map fun p => .external name p.params

/-- The declarations that calls ask for, once for each name, in the order of the first calls. -/
def asked (c : Context) (names : List String) : List Signature :=
  names.eraseDups.filterMap c.declaration?

variable {c : Context} {name : String} {s : Signature}

theorem name_of_declaration? (h : c.declaration? name = some s) : s.name = name := by
  unfold declaration? at h
  split at h
  · cases h
  · obtain ⟨p, -, rfl⟩ := Option.map_eq_some_iff.mp h
    rfl

theorem get?_of_declaration? (h : c.declaration? name = some s) : c.program.get? name = none := by
  unfold declaration? at h
  split at h
  · cases h
  next hnone => exact hnone

theorem mem_asked {names : List String} :
    s ∈ c.asked names ↔ s.name ∈ names ∧ c.declaration? s.name = some s := by
  simp only [asked, List.mem_filterMap, List.mem_eraseDups]
  constructor
  · rintro ⟨name, hname, hs⟩
    obtain rfl := name_of_declaration? hs
    exact ⟨hname, hs⟩
  · rintro ⟨hname, hs⟩
    exact ⟨s.name, hname, hs⟩

/-- What a call asks for is noted unless a declaration of that name is. -/
theorem note_eq (hc : c.Keyed) (declared : List Signature) (name : String) :
    c.note declared name = (c.declaration? name).elim declared fun s =>
      if declared.any (·.name == s.name) then declared else declared ++ [s] := by
  unfold note declaration? resolve?
  cases c.program.get? name with
  | some r => rfl
  | none =>
    cases hproto : c.prototypes[name]? with
    | none => rfl
    | some p =>
      rw [← hc name p hproto]
      rfl

theorem asked_append (c : Context) (seen : List String) (name : String) :
    c.asked (seen ++ [name]) =
      c.asked seen ++ if name ∈ seen then [] else (c.declaration? name).toList := by
  rw [asked, List.eraseDups_append, List.filterMap_append]
  by_cases hseen : name ∈ seen
  · have hnone : [name].removeAll seen = [] := by simp [List.removeAll, hseen]
    rw [hnone, if_pos hseen]
    rfl
  · have hself : [name].removeAll seen = [name] := by simp [List.removeAll, hseen]
    have hone : [name].eraseDups = [name] := by simp [List.eraseDups_cons]
    rw [hself, hone, if_neg hseen]
    cases hs : c.declaration? name with
    | none => rw [List.filterMap_cons_none hs]; rfl
    | some s => rw [List.filterMap_cons_some hs]; rfl

theorem note_asked (hc : c.Keyed) (seen : List String) (name : String) :
    c.note (c.asked seen) name = c.asked (seen ++ [name]) := by
  rw [note_eq hc, asked_append]
  cases hs : c.declaration? name with
  | none => simp
  | some s =>
    have hname : s.name = name := name_of_declaration? hs
    have hany : (c.asked seen).any (·.name == s.name) = true ↔ name ∈ seen := by
      rw [List.any_eq_true]
      constructor
      · rintro ⟨s', hs', heq⟩
        rw [beq_iff_eq, hname] at heq
        exact heq ▸ (mem_asked.mp hs').1
      · intro hseen
        exact ⟨s, mem_asked.mpr (hname.symm ▸ ⟨hseen, hs⟩), beq_self_eq_true _⟩
    by_cases hseen : name ∈ seen
    · simp only [Option.elim_some, if_pos (hany.mpr hseen), if_pos hseen, List.append_nil]
    · simp only [Option.elim_some, if_neg (mt hany.mp hseen), if_neg hseen, Option.toList_some]

/-- Calls one after the other note what they ask for. -/
theorem foldl_note (hc : c.Keyed) (seen names : List String) :
    names.foldl c.note (c.asked seen) = c.asked (seen ++ names) := by
  induction names generalizing seen with
  | nil => rw [List.append_nil]; rfl
  | cons name names ih =>
    rw [List.foldl_cons, note_asked hc, ih, List.append_assoc]
    rfl

/-- No two declarations that are asked for share a name. -/
theorem nodup_asked (c : Context) (names : List String) :
    ((c.asked names).map Signature.name).Nodup := by
  suffices h : ∀ seen, ((c.asked seen).map Signature.name).Nodup →
      ((c.asked (seen ++ names)).map Signature.name).Nodup from h [] .nil
  induction names with
  | nil => intro seen hseen; rwa [List.append_nil]
  | cons name names ih =>
    intro seen hseen
    rw [List.append_cons]
    apply ih
    rw [asked_append, List.map_append, List.nodup_append]
    refine ⟨hseen, ?_, ?_⟩
    · split
      · exact .nil
      · cases c.declaration? name <;> simp
    · rintro old hold new hnew rfl
      obtain ⟨s, hs, rfl⟩ := List.mem_map.mp hold
      obtain ⟨s', hs', hname⟩ := List.mem_map.mp hnew
      split at hs'
      · cases hs'
      next hfresh =>
        have heq := name_of_declaration? (Option.mem_toList.mp hs')
        exact hfresh (heq ▸ hname ▸ (mem_asked.mp hs).1)

end Context

/-! ## The program behind a definition -/

namespace Program

/-- Declarations of new names are added at the end. -/
theorem routines_foldl_declare {p : Program} {ss : List Signature}
    (hfresh : ∀ s ∈ ss, p.get? s.name = none) (hdistinct : (ss.map Signature.name).Nodup) :
    (ss.foldl declare p).routines = p.routines ++ ss.map Routine.declaration := by
  induction ss generalizing p with
  | nil => simp
  | cons s ss ih =>
    have hnew := hfresh s List.mem_cons_self
    rw [List.map_cons, List.nodup_cons] at hdistinct
    have hrest : ∀ s' ∈ ss, (p.declare s).get? s'.name = none := by
      intro s' hs'
      have hne : s.name ≠ s'.name := fun heq => hdistinct.1 (heq ▸ List.mem_map_of_mem hs')
      rw [get?_declare, if_neg fun h => hne h.1]
      exact hfresh s' (List.mem_cons_of_mem s hs')
    rw [List.foldl_cons, ih hrest hdistinct.2, declare_of_fresh (get?_eq_none.mp hnew)]
    exact List.append_assoc ..

theorem records_foldl_declare (p : Program) (ss : List Signature) :
    (ss.foldl declare p).records = p.records := by
  induction ss generalizing p with
  | nil => rfl
  | cons s ss ih => rw [List.foldl_cons, ih, records_declare]

end Program

/-- The declarations that a definition adds: those that the calls in its body ask for, its own apart. -/
def Definition.adds (c : Context) (d : Definition) : List Signature :=
  (c.asked d.body.callees).filter (·.name != d.proto.name)

/-- The routine of a definition enters a context: its prototype is known, and nothing else changes in what
is known; routines keep their places, and what they are but for a declaration of its name; and added are
the declarations that its calls ask for and, if its name is new, the routine itself. -/
structure Definition.Enters (d : Definition) (r : Routine) (c after : Context) : Prop where
  name : r.name = d.proto.name
  prototypes : ∀ name : String, after.prototypes[name]? =
    if d.proto.name = name then some d.proto else c.prototypes[name]?
  records : after.program.records = c.program.records
  declared : ∀ old, c.program.get? d.proto.name = some old → old.isDeclaration = true
  routines : after.program.routines =
    (c.program.routines.map fun q => if q.name = d.proto.name then r else q) ++
      (d.adds c).map Routine.declaration ++ if c.program.contains d.proto.name then [] else [r]

section

variable {c : Context} {d : Definition} {r : Routine}

theorem Context.declaration?_register (c : Context) {proto : Prototype} {name : String}
    (hne : proto.name ≠ name) : (c.register proto).declaration? name = c.declaration? name := by
  have hprogram : (c.register proto).program = c.program := rfl
  rw [declaration?, declaration?, hprogram, getElem?_register, if_neg hne]

/-- That its own prototype is known makes no difference to the declarations that a definition adds. -/
theorem Definition.adds_register (c : Context) (d : Definition) :
    d.adds (c.register d.proto) = d.adds c := by
  unfold adds Context.asked
  rw [List.filter_filterMap, List.filter_filterMap]
  congr 1
  funext name
  by_cases hown : d.proto.name = name
  · have hnone (c : Context) : (c.declaration? name).filter (·.name != d.proto.name) = none := by
      cases hs : c.declaration? name with
      | none => rfl
      | some s => simp [Context.name_of_declaration? hs, hown]
    rw [hnone, hnone]
  · rw [c.declaration?_register hown]

theorem Definition.adds_fresh {s : Signature} (h : s ∈ d.adds c) :
    c.program.get? s.name = none ∧ s.name ≠ d.proto.name := by
  obtain ⟨hs, hne⟩ := List.mem_filter.mp h
  exact ⟨Context.get?_of_declaration? (Context.mem_asked.mp hs).2, by simpa using hne⟩

/-- A routine that is added behind declarations of other names takes the place of the one with its name, or
goes behind the declarations. -/
theorem Program.routines_define_declared {p : Program} {ss : List Signature}
    (hfresh : ∀ s ∈ ss, p.get? s.name = none ∧ s.name ≠ r.name)
    (hdistinct : (ss.map Signature.name).Nodup) :
    ((ss.foldl declare p).define r).routines =
      (p.routines.map fun q => if q.name = r.name then r else q) ++
        ss.map Routine.declaration ++ if p.contains r.name then [] else [r] := by
  have hothers : ((ss.map Routine.declaration).map fun q => if q.name = r.name then r else q) =
      ss.map Routine.declaration := by
    rw [List.map_map]
    apply List.map_congr_left
    intro s hs
    exact if_neg (hfresh s hs).2
  have hnone : (ss.map Routine.declaration).any (·.name == r.name) = false := by
    rw [Bool.eq_false_iff]
    intro hany
    obtain ⟨q, hq, hname⟩ := List.any_eq_true.mp hany
    obtain ⟨s, hs, rfl⟩ := List.mem_map.mp hq
    exact (hfresh s hs).2 (beq_iff_eq.mp hname)
  rw [routines_define, routines_foldl_declare (fun s hs => (hfresh s hs).1) hdistinct, Edit.apply,
    List.any_append, hnone, Bool.or_false, ← contains_eq_any]
  by_cases hthere : p.contains r.name = true
  · rw [if_pos hthere, if_pos hthere, List.map_append, hothers, List.append_nil]
  · have hsame : (p.routines.map fun q => if q.name = r.name then r else q) = p.routines := by
      calc p.routines.map (fun q => if q.name = r.name then r else q)
        _ = p.routines.map id := List.map_congr_left fun q hq => if_neg fun hname => hthere ?_
        _ = p.routines := List.map_id _
      rw [contains_eq_any]
      exact List.any_eq_true.mpr ⟨q, hq, beq_iff_eq.mpr hname⟩
    rw [if_neg hthere, if_neg hthere, hsame]

end

/-! ## Definitions in place -/

namespace Context

/-- Puts back what was known under a name. -/
def putBack (c : Context) (name : String) : Option Prototype → Context
  | some p => c.register p
  | none => c.forget name

/-- Defines a function in a context that is changed on the way. The prototype is known before the body is
lowered; if that fails, what was known before under the name is put back. -/
def defineInPlace (c : Context) (d : Definition) : Except LowerError Routine × Context :=
  match c.conflict? d.proto true with
  | some cause => (.error ((d.failure cause).inFunction d.proto.name), c)
  | none =>
    let previous := c.prototypes[d.proto.name]?
    let inner := c.register d.proto
    match d.build inner with
    | .error e => (.error (e.inFunction d.proto.name), inner.putBack d.proto.name previous)
    | .ok (routine, declarations) => (.ok routine, inner.commit routine declarations)

variable {c : Context} {d : Definition}

theorem getElem?_forget (c : Context) (name other : String) :
    (c.forget name).prototypes[other]? = if name = other then none else c.prototypes[other]? := by
  simp [forget, Std.ExtTreeMap.getElem?_erase]

/-- What is put back is what was there before a prototype was made known. -/
theorem Keyed.putBack_register (hc : c.Keyed) (proto : Prototype) :
    (c.register proto).putBack proto.name c.prototypes[proto.name]? = c := by
  have hprogram : ((c.register proto).putBack proto.name c.prototypes[proto.name]?).program =
      c.program := by
    cases c.prototypes[proto.name]? <;> rfl
  have hprototypes : ((c.register proto).putBack proto.name c.prototypes[proto.name]?).prototypes =
      c.prototypes := by
    apply Std.ExtTreeMap.ext_getElem?
    intro name
    cases hold : c.prototypes[proto.name]? with
    | some p =>
      rw [putBack, getElem?_register, getElem?_register, hc proto.name p hold]
      split
      next heq => rw [← heq, hold]
      next => rfl
    | none =>
      rw [putBack, getElem?_forget, getElem?_register]
      split
      next heq => rw [← heq, hold]
      next => rfl
  generalize (c.register proto).putBack proto.name c.prototypes[proto.name]? = restored at *
  cases restored
  cases hprogram
  cases hprototypes
  rfl

/-- A definition that is lowered changes what it has to, and nothing else. -/
theorem Keyed.enters {r : Routine} {after : Context} (hc : c.Keyed)
    (h : c.define d = .ok (r, after)) : d.Enters r c after := by
  obtain ⟨hfits, declarations, hbuild, hafter⟩ := define_eq_ok h
  obtain ⟨b, result, hlowered, hr, hdeclarations, -, -⟩ := Definition.build_ok hbuild
  have hname : r.name = d.proto.name := by rw [hr]; rfl
  have hadds : declarations.filter (·.name != r.name) = d.adds c := by
    have hstart : (Definition.bindParams d.proto.params Builder.start).declarations =
        (c.register d.proto).asked [] := (Definition.bindParams_eq d.proto.params).2.2.1
    rw [hdeclarations, hlowered.declarations_eq, hstart, foldl_note (hc.register d.proto), hname]
    exact d.adds_register c
  have hdistinct : ((d.adds c).map Signature.name).Nodup :=
    (c.nodup_asked d.body.callees).sublist (List.filter_sublist.map Signature.name)
  have hprogram : after.program = ((d.adds c).foldl Program.declare c.program).define r := by
    rw [hafter, ← hadds]
    rfl
  refine ⟨hname, fun name => ?_, ?_, fun old hold => ?_, ?_⟩
  · rw [← getElem?_register, hafter]
    rfl
  · rw [hprogram, Program.records_define, Program.records_foldl_declare]
  · exact (arity_of_conflict? hfits hold).2 rfl
  · rw [hprogram, Program.routines_define_declared (fun s hs => ?_) hdistinct, hname]
    rw [hname]
    exact Definition.adds_fresh hs

/-- Lowering in place fails when lowering fails, and then all is as it was. -/
theorem Keyed.defineInPlace_error {e : LowerError} (hc : c.Keyed) (h : c.define d = .error e) :
    c.defineInPlace d = (.error e, c) := by
  unfold define at h
  unfold defineInPlace
  cases hfits : c.conflict? d.proto true with
  | some cause =>
    rw [hfits] at h
    cases h
    rfl
  | none =>
    rw [hfits] at h
    dsimp only at h ⊢
    cases hbuild : d.build (c.register d.proto) with
    | error e' =>
      rw [hbuild] at h
      cases h
      dsimp only
      rw [hc.putBack_register d.proto]
    | ok built =>
      rw [hbuild] at h
      cases h

theorem defineInPlace_ok {r : Routine} {after : Context} (h : c.define d = .ok (r, after)) :
    c.defineInPlace d = (.ok r, after) := by
  obtain ⟨hfits, declarations, hbuild, rfl⟩ := define_eq_ok h
  unfold defineInPlace
  rw [hfits]
  dsimp only
  rw [hbuild]

/-- A definition is lowered whole or not at all, whatever is known and whatever the program holds. If it
fails, also one that is lowered in place leaves what is known and the program exactly as they were. If
it does not, its prototype and its routine have their places, the declarations that its calls ask for are
added, and all else stays what it is and where it is. -/
theorem Keyed.define_atomic (hc : c.Keyed) (d : Definition) :
    (∃ e, c.define d = .error e ∧ c.defineInPlace d = (.error e, c)) ∨
      ∃ r after, c.define d = .ok (r, after) ∧ c.defineInPlace d = (.ok r, after) ∧
        d.Enters r c after := by
  cases h : c.define d with
  | error e => exact .inl ⟨e, rfl, hc.defineInPlace_error h⟩
  | ok result => exact .inr ⟨result.1, result.2, rfl, defineInPlace_ok h, hc.enters h⟩

/-- A context in which the prototypes of some functions are known, but the program has none of them. -/
def prototypesOnly : Context :=
  (((Context.start .builtin).register { name := "f", params := ["x"] }).register
    { name := "g", params := ["x"] }).register { name := "h", params := [] }

/-- A function that calls itself, and another one with the result of a third. -/
def nestedCalls : Definition :=
  ⟨{ name := "h", params := ["x"] }, .binary none '+' (.call none "h" [.var none "x"])
    (.call none "f" [.call none "g" [.var none "x"]])⟩

/-- A function that calls another one with the result of one that is not known. -/
def missingCall : Definition :=
  ⟨{ name := "h", params := ["x"] }, .call none "f" [.call none "k" [.var none "x"]]⟩

theorem Keyed.define_atomic_nested : prototypesOnly.Keyed ∧
    (∃ r after, prototypesOnly.define nestedCalls = .ok (r, after) ∧
      after.program.names = ["g", "f", "h"] ∧
      after.prototypes["h"]? = some nestedCalls.proto) ∧
    ∃ e, prototypesOnly.define missingCall = .error e ∧
      prototypesOnly.defineInPlace missingCall = (.error e, prototypesOnly) := by
  have hkeyed : prototypesOnly.Keyed := (((keyed_start .builtin).register _).register _).register _
  have hlowered : (prototypesOnly.define nestedCalls).isOk = true := by decide +kernel
  have hnames : ((prototypesOnly.define nestedCalls).toOption.map (·.2.program.names)) =
      some ["g", "f", "h"] := by decide +kernel
  have hfails : (prototypesOnly.define missingCall).isOk = false := by decide +kernel
  refine ⟨hkeyed, ?_, ?_⟩
  · rcases hkeyed.define_atomic nestedCalls with ⟨e, hdefine, -⟩ | ⟨r, after, hdefine, -, henters⟩
    · rw [hdefine] at hlowered
      cases hlowered
    · rw [hdefine] at hnames
      exact ⟨r, after, hdefine, Option.some.inj hnames, henters.prototypes "h"⟩
  · rcases hkeyed.define_atomic missingCall with hfailed | ⟨r, after, hdefine, -⟩
    · exact hfailed
    · rw [hdefine] at hfails
      cases hfails

end Context

end PoseLang
