import PoseLang.Proofs.Lowering.Placed

/-!
# Calls in lowered code

A call is lowered only once its target is known, and the number of arguments has been compared with
the number of parameters. `Op.Resolved` keeps this of the operation: the target, its type as that of
the register that the call fills, and the declaration that the call relies on if the program has no
such routine. `Builder.Steps.adds` says that lowering an expression adds no other calls.
-/

namespace PoseLang

/-- If an operation is a call, its target is known, takes as many arguments, and gives a value of the
type of the register that is filled; a target that is known by its prototype alone is noted. -/
def Op.Resolved (c : Context) (b : Builder) (op : Op) : Prop :=
  ∀ dest callee args, op = .call dest callee args → ∃ target, c.resolve? callee = some target ∧
    target.signature.arity = args.length ∧ b.regTypes[dest]? = some target.signature.ret ∧
    ∀ s, target = .prototype s → ∃ s' ∈ b.declarations, s'.name = s.name

theorem Op.Resolved.mono {c : Context} {b b' : Builder} {op : Op} (h : op.Resolved c b)
    (hregs : b.regTypes <+: b'.regTypes) (hdeclared : ∀ s ∈ b.declarations, s ∈ b'.declarations) :
    op.Resolved c b' := by
  intro dest callee args hop
  obtain ⟨target, hresolve, harity, hret, hneeded⟩ := h dest callee args hop
  refine ⟨target, hresolve, harity, ?_, fun s hs => ?_⟩
  · obtain ⟨more, hmore⟩ := hregs
    rw [← hmore, List.getElem?_append_left (List.getElem?_eq_some_iff.mp hret).1]
    exact hret
  · obtain ⟨s', hs', hname⟩ := hneeded s hs
    exact ⟨s', hdeclared s' hs', hname⟩

/-- What is not a call needs no target. -/
theorem Op.Resolved.of_isCall {c : Context} {b : Builder} {op : Op} (h : op.isCall = false) :
    op.Resolved c b := by
  rintro dest callee args rfl
  cases h

namespace Builder

/-- Registers and declarations are only added, and all calls that are added are resolved. -/
structure Adds (c : Context) (b b' : Builder) : Prop where
  regTypes : b.regTypes <+: b'.regTypes
  declared : ∀ s ∈ b.declarations, s ∈ b'.declarations
  resolved : ∀ (i : Nat), ∀ op ∈ opsOf b'.blocks i, op ∈ opsOf b.blocks i ∨ op.Resolved c b'

/-- An operation of a block is one that was there, or the one that has been added. -/
theorem mem_opsOf_emit {b : Builder} {i : Nat} {op o : Op} (h : o ∈ opsOf (b.emit op).blocks i) :
    o ∈ opsOf b.blocks i ∨ o = op := by
  by_cases hi : b.current = i
  · subst hi
    by_cases hlt : b.current < b.blocks.length
    · rw [opsOf_emit op hlt] at h
      simpa using h
    · rw [opsOf_of_length_le (by rw [emit_blocks_length]; exact Nat.le_of_not_lt hlt)] at h
      cases h
  · rw [opsOf_emit_other op hi] at h
    exact .inl h

/-- An operation of a block in which a phi has an edge more was there, or is that phi. -/
theorem mem_addEdge {dest : Nat} {edge : Nat × Nat} {ops : List Op} {o : Op} :
    o ∈ addEdge dest edge ops → o ∈ ops ∨
      ∃ incoming, .phi dest incoming ∈ ops ∧ o = .phi dest (incoming ++ [edge]) := by
  fun_induction addEdge dest edge ops with
  | case1 => exact .inl
  | case2 incoming ops =>
    intro h
    rcases List.mem_cons.mp h with rfl | h
    · exact .inr ⟨incoming, List.mem_cons_self, rfl⟩
    · exact .inl (List.mem_cons_of_mem _ h)
  | case3 d incoming ops hne ih =>
    intro h
    rcases List.mem_cons.mp h with rfl | h
    · exact .inl List.mem_cons_self
    · rcases ih h with hold | ⟨incoming', hmem, rfl⟩
      · exact .inl (List.mem_cons_of_mem _ hold)
      · exact .inr ⟨incoming', List.mem_cons_of_mem _ hmem, rfl⟩
  | case4 op ops hne ih =>
    intro h
    rcases List.mem_cons.mp h with rfl | h
    · exact .inl List.mem_cons_self
    · rcases ih h with hold | ⟨incoming', hmem, rfl⟩
      · exact .inl (List.mem_cons_of_mem _ hold)
      · exact .inr ⟨incoming', List.mem_cons_of_mem _ hmem, rfl⟩

theorem mem_opsOf_addPhiEdge {b : Builder} {block dest i : Nat} {edge : Nat × Nat} {o : Op}
    (h : o ∈ opsOf (b.addPhiEdge block dest edge).blocks i) :
    o ∈ opsOf b.blocks i ∨ block = i ∧ ∃ incoming, .phi dest incoming ∈ opsOf b.blocks i ∧
      o = .phi dest (incoming ++ [edge]) := by
  by_cases hi : block = i
  · subst hi
    rw [opsOf_addPhiEdge] at h
    exact (mem_addEdge h).imp_right fun hnew => ⟨rfl, hnew⟩
  · rw [opsOf_addPhiEdge_other dest edge hi] at h
    exact .inl h

namespace Adds

variable {c : Context} {b b₁ b₂ : Builder}

theorem trans (h : Adds c b b₁) (h' : Adds c b₁ b₂) : Adds c b b₂ := by
  refine ⟨h.regTypes.trans h'.regTypes, fun s hs => h'.declared s (h.declared s hs),
    fun i op hop => ?_⟩
  rcases h'.resolved i op hop with hold | hnew
  · exact (h.resolved i op hold).imp_right (·.mono h'.regTypes h'.declared)
  · exact .inr hnew

/-- A step that adds no operation. -/
theorem of_blocks (hblocks : b₁.blocks = b.blocks) (hregs : b.regTypes <+: b₁.regTypes)
    (hdeclared : ∀ s ∈ b.declarations, s ∈ b₁.declarations) : Adds c b b₁ :=
  ⟨hregs, hdeclared, fun _ _ hop => .inl (hblocks ▸ hop)⟩

/-- A step that changes nothing but names and what is current. -/
theorem of_eq (hblocks : b₁.blocks = b.blocks) (hregs : b₁.regTypes = b.regTypes)
    (hdeclared : b₁.declarations = b.declarations) : Adds c b b₁ :=
  of_blocks hblocks (hregs ▸ List.prefix_refl _) fun _ hs => hdeclared ▸ hs

theorem refl : Adds c b b :=
  of_eq rfl rfl rfl

theorem emit {op : Op} (hop : op.Resolved c (b.emit op)) : Adds c b (b.emit op) := by
  refine ⟨List.prefix_refl _, fun _ hs => hs, fun i o ho => ?_⟩
  rcases mem_opsOf_emit ho with hold | rfl
  · exact .inl hold
  · exact .inr hop

theorem newReg (ty : Ty) : Adds c b (b.newReg ty).2 :=
  of_blocks rfl (List.prefix_append _ _) fun _ hs => hs

theorem put {ty : Ty} {op : Nat → Op} (hop : (op b.regTypes.length).Resolved c (b.put ty op)) :
    Adds c b (b.put ty op) :=
  (newReg ty).trans (emit hop)

theorem appendBlock (label : String) : Adds c b (b.appendBlock label).2 :=
  ⟨List.prefix_refl _, fun _ hs => hs, fun i _ hop => .inl (opsOf_appendBlock (i := i) label ▸ hop)⟩

theorem addPhiEdge (block dest : Nat) (edge : Nat × Nat) : Adds c b (b.addPhiEdge block dest edge) := by
  refine ⟨List.prefix_refl _, fun _ hs => hs, fun i op hop => ?_⟩
  rcases mem_opsOf_addPhiEdge hop with hold | ⟨-, incoming, -, rfl⟩
  · exact .inl hold
  · exact .inr (.of_isCall rfl)

theorem need {callee : String} {t : Target} (h : c.resolve? callee = some t) : Adds c b (b.need t) :=
  of_blocks (need_blocks b t) (need_regTypes b t ▸ List.prefix_refl _) (Notes.need h).kept

/-- A call whose target is known, behind its arguments. -/
theorem call {callee : String} {t : Target} {regs : List Nat} (h : c.resolve? callee = some t)
    (harity : t.signature.arity = regs.length) :
    Adds c b ((b.need t).put t.signature.ret (.call · callee regs)) := by
  refine (need h).trans (put fun dest callee' args hcall => ?_)
  cases hcall
  refine ⟨t, h, harity, by simp, ?_⟩
  rintro s rfl
  exact exists_mem_need b s

end Adds

variable {c : Context} {b b' : Builder}

/-- No step adds a call but a resolved one. -/
theorem Step.adds (h : Step c b b') : Adds c b b' := by
  cases h with
  | newReg ty => exact .newReg ty
  | emit _ plain => exact .emit (.of_isCall plain)
  | call resolved arity => exact .call resolved arity
  | appendBlock label => exact .appendBlock label
  | position => exact .of_eq rfl rfl rfl
  | addPhiEdge block dest edge => exact .addPhiEdge block dest edge
  | bind => exact .of_eq rfl rfl rfl
  | restore name previous =>
    exact .of_eq (restore_blocks b name previous) (restore_regTypes b name previous)
      (restore_declarations b name previous)

theorem Steps.adds (h : Steps c b b') : Adds c b b' := by
  induction h with
  | refl => exact .refl
  | tail _ last ih => exact ih.trans last.adds

end Builder

end PoseLang
