import PoseLang.Proofs.Lowering.Dependence
import PoseLang.Proofs.Session.Growth

/-!
# Independent definitions commute

Two definitions with different names, neither of which calls the other, can be compiled in either order.
A definition changes what is known under its own name and nothing else (`Context.Settled.get?_attempt`,
`Context.Settled.getElem?_attempt`), and lowering looks at its own name and at the names that it calls.
So the same becomes of each of the two in both orders, and what is found under any name in the end is
the same. The places of new routines may differ.
-/

namespace PoseLang

/-! ## One definition -/

namespace Context

variable {c : Context} {d : Definition}

/-- The context behind a definition; one that fails changes nothing. -/
def attempt (c : Context) (d : Definition) : Context :=
  match c.define d with
  | .ok (_, after) => after
  | .error _ => c

/-- A definition either fails or puts its prototype and its routine under its name. -/
theorem Settled.attempt_cases (hc : c.Settled) (d : Definition) :
    (∃ e, c.defined d = .error e ∧ c.attempt d = c) ∨
      ∃ r, c.defined d = .ok r ∧ r.name = d.proto.name ∧
        c.attempt d = { c.register d.proto with program := c.program.define r } := by
  cases hdefine : c.define d with
  | error e =>
    refine .inl ⟨e, ?_, ?_⟩
    · rw [defined, hdefine]
      rfl
    · rw [attempt, hdefine]
  | ok result =>
    obtain ⟨r, after⟩ := result
    refine .inr ⟨r, ?_, (hc.routine_of_define hdefine).1, ?_⟩
    · rw [defined, hdefine]
      rfl
    · rw [attempt, hdefine]
      exact (hc.define_ok hdefine).2.1

theorem Settled.get?_attempt (hc : c.Settled) (d : Definition) (name : String) :
    (c.attempt d).program.get? name =
      if d.proto.name = name then (c.defined d).toOption.or (c.program.get? name)
      else c.program.get? name := by
  rcases hc.attempt_cases d with ⟨e, hfails, hsame⟩ | ⟨r, hdefines, hname, hafter⟩
  · rw [hfails, hsame]
    exact (ite_self _).symm
  · rw [hdefines, hafter, Program.get?_define, hname]
    rfl

theorem Settled.getElem?_attempt (hc : c.Settled) (d : Definition) (name : String) :
    (c.attempt d).prototypes[name]? =
      if d.proto.name = name then
        ((c.defined d).toOption.map fun _ => d.proto).or (c.prototypes[name]?)
      else c.prototypes[name]? := by
  rcases hc.attempt_cases d with ⟨e, hfails, hsame⟩ | ⟨r, hdefines, -, hafter⟩
  · rw [hfails, hsame]
    exact (ite_self _).symm
  · rw [hdefines, hafter]
    exact getElem?_register c d.proto name

theorem Settled.records_attempt (hc : c.Settled) (d : Definition) :
    (c.attempt d).program.records = c.program.records := by
  rcases hc.attempt_cases d with ⟨e, -, hsame⟩ | ⟨r, -, -, hafter⟩
  · rw [hsame]
  · rw [hafter]
    exact Program.records_define c.program r

theorem Settled.names_prefix_attempt (hc : c.Settled) (d : Definition) :
    c.program.names <+: (c.attempt d).program.names := by
  rcases hc.attempt_cases d with ⟨e, -, hsame⟩ | ⟨r, -, -, hafter⟩
  · simp only [hsame, List.prefix_refl]
  · rw [hafter]
    exact Program.names_prefix_define c.program r

end Context

theorem Compiled.attempt {records : Registry} {source : Source} {c : Context}
    (h : Compiled records source c) (d : Definition) :
    ∃ source', Compiled records source' (c.attempt d) := by
  unfold Context.attempt
  cases hdefine : c.define d with
  | error e => exact ⟨source, h⟩
  | ok result => exact ⟨_, .define h hdefine⟩

/-! ## Two definitions -/

/-- Definitions with different names, neither of which calls the other. -/
structure Definition.Independent (a b : Definition) : Prop where
  names : a.proto.name ≠ b.proto.name
  left : b.proto.name ∉ a.body.callees
  right : a.proto.name ∉ b.body.callees

theorem Definition.Independent.symm {a b : Definition} (h : a.Independent b) : b.Independent a :=
  ⟨h.names.symm, h.right, h.left⟩

namespace Context

variable {c : Context} {a b : Definition}

/-- What becomes of a definition does not depend on whether another one, which it does not call, comes
before it. -/
theorem Settled.defined_attempt (hc : c.Settled) (h : a.Independent b) :
    (c.attempt a).defined b = c.defined b := by
  refine define_congr ⟨hc.records_attempt a, fun name hname => ?_⟩ ?_
  · have hne : a.proto.name ≠ name := fun heq => h.right (heq ▸ hname)
    simp only [resolve?, hc.get?_attempt, hc.getElem?_attempt, if_neg hne]
  · rw [hc.get?_attempt, if_neg h.names]

/-- Changes to what stands under two different names can be made in either order. -/
theorem change_comm {α : Type} {m n : String} (hne : m ≠ n) (f g : α → α) (x : α) (name : String) :
    (if n = name then g (if m = name then f x else x) else if m = name then f x else x) =
      if m = name then f (if n = name then g x else x) else if n = name then g x else x := by
  by_cases hm : m = name
  · have hn : n ≠ name := fun heq => hne (hm.trans heq.symm)
    simp only [if_pos hm, if_neg hn]
  · simp only [if_neg hm]

/-- Under every name the same routine is found, whichever definition comes first. -/
theorem Settled.get?_attempt_comm (hc : c.Settled) (ha : (c.attempt a).Settled)
    (hb : (c.attempt b).Settled) (h : a.Independent b) (name : String) :
    ((c.attempt a).attempt b).program.get? name = ((c.attempt b).attempt a).program.get? name := by
  rw [ha.get?_attempt, hb.get?_attempt, hc.get?_attempt, hc.get?_attempt, hc.defined_attempt h,
    hc.defined_attempt h.symm]
  exact change_comm h.names (Option.or _) (Option.or _) _ name

theorem Settled.getElem?_attempt_comm (hc : c.Settled) (ha : (c.attempt a).Settled)
    (hb : (c.attempt b).Settled) (h : a.Independent b) (name : String) :
    ((c.attempt a).attempt b).prototypes[name]? = ((c.attempt b).attempt a).prototypes[name]? := by
  rw [ha.getElem?_attempt, hb.getElem?_attempt, hc.getElem?_attempt, hc.getElem?_attempt,
    hc.defined_attempt h, hc.defined_attempt h.symm]
  exact change_comm h.names (Option.or _) (Option.or _) _ name

end Context

/-- Programs in which the same names are found have the same names, if perhaps in another order. -/
theorem Program.names_perm {p q : Program} (h : ∀ name, p.get? name = q.get? name) :
    p.names.Perm q.names := by
  refine (List.perm_ext_iff_of_nodup p.nodup_names q.nodup_names).mpr fun name => ?_
  rw [mem_names, mem_names, h name]

namespace Session

theorem define_session (s : Session) (d : Definition) :
    (s.define d).session = { s with context := s.context.attempt d } := by
  unfold define Context.attempt
  dsimp only
  cases s.context.define d <;> rfl

/-- Independent definitions commute: between any two items of any compilation of a session, two
definitions with different names, neither of which calls the other, fare alike in both orders. Each of
them gives the same routine or fails in the same way, the prototypes are the same in the end, and the
same routine is found under every name. Only the order of routines that were not there before may
differ. -/
theorem Reached.define_comm {settings : Settings} {s between : Session} {ts : List Token}
    {done left : List Item.Reading} {a b : Definition} (h : Reached settings s)
    (hsplit : Item.readings s.dialect ts = done ++ left) (hbetween : (s.readings 0 done).1 = between)
    (hindependent : a.Independent b) :
    between.context.defined a = (between.define b).session.context.defined a ∧
    (between.define a).session.context.defined b = between.context.defined b ∧
    ∀ first second : Session, ((between.define a).session.define b).session = first →
      ((between.define b).session.define a).session = second →
      first.settings = second.settings ∧ first.context.prototypes = second.context.prototypes ∧
      first.context.program.records = second.context.program.records ∧
      (∀ name, first.context.program.get? name = second.context.program.get? name) ∧
      between.context.program.names <+: first.context.program.names ∧
      between.context.program.names <+: second.context.program.names ∧
      first.context.program.names.Perm second.context.program.names := by
  have settled := h.settled_between hsplit
  rw [hbetween] at settled
  obtain ⟨source, hcompiled⟩ := settled.compiled
  obtain ⟨_, hafterA⟩ := hcompiled.attempt a
  obtain ⟨_, hafterB⟩ := hcompiled.attempt b
  have hc := hcompiled.settled
  have ha := hafterA.settled
  have hb := hafterB.settled
  simp only [define_session]
  refine ⟨(hc.defined_attempt hindependent.symm).symm, hc.defined_attempt hindependent, ?_⟩
  rintro first second rfl rfl
  have hget := hc.get?_attempt_comm ha hb hindependent
  have hrecords : ((between.context.attempt a).attempt b).program.records =
      ((between.context.attempt b).attempt a).program.records := by
    rw [ha.records_attempt, hb.records_attempt, hc.records_attempt, hc.records_attempt]
  exact ⟨rfl, Std.ExtTreeMap.ext_getElem? (hc.getElem?_attempt_comm ha hb hindependent), hrecords, hget,
    (hc.names_prefix_attempt a).trans (ha.names_prefix_attempt b),
    (hc.names_prefix_attempt b).trans (hb.names_prefix_attempt a), Program.names_perm hget⟩

/-- A definition that calls a declared function. -/
def callsDeclared : Definition :=
  ⟨{ name := "g", params := [], location := none }, .call none "f" []⟩

/-- A definition that calls itself. -/
def callsItself : Definition :=
  ⟨{ name := "h", params := [], location := none }, .call none "h" []⟩

theorem Reached.define_comm_declared : callsDeclared.Independent callsItself ∧
    ((declaredSession.define callsDeclared).session.define callsItself).session.context.program.names =
      ["f", "g", "h"] ∧
    ((declaredSession.define callsItself).session.define callsDeclared).session.context.program.names =
      ["f", "h", "g"] ∧
    declaredSession.context.defined callsDeclared =
      (declaredSession.define callsItself).session.context.defined callsDeclared ∧
    ∀ name,
      ((declaredSession.define callsDeclared).session.define callsItself).session.context.program.get?
        name =
      ((declaredSession.define callsItself).session.define callsDeclared).session.context.program.get?
        name := by
  have hindependent : callsDeclared.Independent callsItself :=
    ⟨by decide +kernel, by decide +kernel, by decide +kernel⟩
  have hreached : Reached plainSettings declaredSession := .compile .start _
  have hnone : Item.readings declaredSession.dialect [] = [] ++ [] := Item.readings_of_atEnd rfl
  obtain ⟨hfirst, -, hafter⟩ := hreached.define_comm hnone rfl hindependent
  obtain ⟨-, -, -, hget, -⟩ := hafter _ _ rfl rfl
  exact ⟨hindependent, by decide +kernel, by decide +kernel, hfirst, hget⟩

end Session

end PoseLang
