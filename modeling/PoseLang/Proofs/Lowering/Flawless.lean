import PoseLang.Proofs.Lowering.Shape

/-!
# Lowered code has no flaw

The check of a finished routine looks for the first flaw of its shape. Code of the shape that lowering
gives has none: every block is whole, its end leads to blocks that there are, phis take values from
blocks that lead to them, and every register has a type (`Builder.Shaped.flaw?_eq_none`). So lowering
is never refused for the shape of what it has made.
-/

namespace PoseLang

open Op (Unended Ends)

/-! ## Blocks without flaws -/

namespace Op

variable {last : Op} {ops : List Op}

theorem Ends.getLast? (h : last.Ends ops) : ops.getLast? = some last := by
  obtain ⟨before, rfl, -⟩ := h.front
  exact List.getLast?_concat

theorem Ends.successors {block : Block} (h : last.Ends block.ops) :
    block.successors = last.successors := by
  simp only [Block.successors, Block.terminator?, h.getLast?, if_pos h.terminates]

end Op

namespace Routine

variable {r : Routine} {i : Nat} {ops : List Op} {last op : Op}

theorem registerFlaw?_eq_none (h : ∀ reg ∈ op.registers, reg < r.regTypes.length) :
    r.registerFlaw? op = none := by
  unfold registerFlaw?
  rw [Option.map_eq_none_iff, List.find?_eq_none]
  intro reg hreg
  simpa using h reg hreg

theorem edgeFlaw?_eq_none (h : ∀ dest incoming, op = .phi dest incoming →
    ∀ e ∈ incoming, r.leadsTo e.2 i = true) : r.edgeFlaw? i op = none := by
  cases op with
  | phi dest incoming =>
    rw [edgeFlaw?, Option.map_eq_none_iff, List.find?_eq_none]
    intro e he
    simp [h dest incoming rfl e he]
  | _ => rfl

theorem endFlaw?_eq_none {block : Block} (h : last.Ends block.ops)
    (htargets : ∀ t ∈ last.successors, t < r.blocks.length) : r.endFlaw? block i = none := by
  simp only [endFlaw?, h.getLast?, h.terminates, Bool.not_true, Bool.false_eq_true, if_false]
  rw [Option.map_eq_none_iff, List.find?_eq_none]
  intro t ht
  simpa using htargets t ht

/-- An operation that may stand where it stands has no flaw if those behind it have none. -/
theorem opsFlaw?_cons {rest : List Op} {leading : Bool}
    (hend : (op.isTerminator && !rest.isEmpty) = false) (hphi : (op.isPhi && !leading) = false)
    (hedges : r.edgeFlaw? i op = none) (hregs : r.registerFlaw? op = none)
    (hrest : r.opsFlaw? i (leading && op.isPhi) rest = none) :
    r.opsFlaw? i leading (op :: rest) = none := by
  rw [opsFlaw?, hend, hphi, hedges, hregs, hrest]
  rfl

theorem opsFlaw?_of_inner (hinner : ∀ o ∈ ops, o.isInner = true) (hlast : last.isTerminator = true)
    (hedges : ∀ o ∈ ops ++ [last], r.edgeFlaw? i o = none)
    (hregs : ∀ o ∈ ops ++ [last], r.registerFlaw? o = none) (leading : Bool) :
    r.opsFlaw? i leading (ops ++ [last]) = none := by
  induction ops generalizing leading with
  | nil =>
    refine opsFlaw?_cons (Bool.and_false _) ?_ (hedges last List.mem_cons_self)
      (hregs last List.mem_cons_self) rfl
    rw [Op.isPhi_of_terminates hlast, Bool.false_and]
  | cons o ops ih =>
    have ho := hinner o List.mem_cons_self
    refine opsFlaw?_cons ?_ ?_ (hedges o List.mem_cons_self) (hregs o List.mem_cons_self)
      (ih (fun o' h => hinner o' (List.mem_cons_of_mem o h))
        (fun o' h => hedges o' (List.mem_cons_of_mem o h))
        (fun o' h => hregs o' (List.mem_cons_of_mem o h)) _)
    · rw [Op.isTerminator_of_inner ho, Bool.false_and]
    · rw [Op.isPhi_of_inner ho, Bool.false_and]

theorem opsFlaw?_of_unended (h : Unended ops) (hlast : last.isTerminator = true)
    (hedges : ∀ o ∈ ops ++ [last], r.edgeFlaw? i o = none)
    (hregs : ∀ o ∈ ops ++ [last], r.registerFlaw? o = none) :
    r.opsFlaw? i true (ops ++ [last]) = none := by
  induction h with
  | inner plain => exact opsFlaw?_of_inner plain hlast hedges hregs true
  | @phi dest incoming ops tail ih =>
    exact opsFlaw?_cons rfl rfl (hedges _ List.mem_cons_self) (hregs _ List.mem_cons_self)
      (ih (fun o h => hedges o (List.mem_cons_of_mem _ h))
        (fun o h => hregs o (List.mem_cons_of_mem _ h)))

/-- A routine has no flaw if none of its blocks has one. -/
theorem flaw?_eq_none
    (hends : ∀ (i : Nat) (block : Block), r.blocks[i]? = some block → r.endFlaw? block i = none)
    (hops : ∀ (i : Nat) (block : Block), r.blocks[i]? = some block →
      r.opsFlaw? i true block.ops = none) : r.flaw? = none := by
  have hfirst : (r.blocks.zipIdx.findSome? fun x => r.endFlaw? x.1 x.2) = none :=
    List.findSome?_eq_none_iff.mpr fun x hx =>
      hends x.2 x.1 (List.mk_mem_zipIdx_iff_getElem?.mp hx)
  have hsecond : (r.blocks.zipIdx.findSome? fun x => r.opsFlaw? x.2 true x.1.ops) = none :=
    List.findSome?_eq_none_iff.mpr fun x hx =>
      hops x.2 x.1 (List.mk_mem_zipIdx_iff_getElem?.mp hx)
  change ((r.blocks.zipIdx.findSome? fun x => r.endFlaw? x.1 x.2) <|>
    (r.blocks.zipIdx.findSome? fun x => r.opsFlaw? x.2 true x.1.ops)) = none
  rw [hfirst, hsecond]
  rfl

end Routine

/-! ## Finished routines -/

namespace Builder

variable {b : Builder}

theorem LeadsTo.leadsTo {source target : Nat} (h : b.LeadsTo source target) (s : Signature) :
    (b.finish s).leadsTo source target = true := by
  have hlt := h.lt
  obtain ⟨last, hends, htarget⟩ := h
  have hblock : (b.finish s).blocks[source]? = some b.blocks[source] :=
    List.getElem?_eq_getElem hlt
  have hops : opsOf b.blocks source = b.blocks[source].ops := by
    rw [opsOf, List.getElem?_eq_getElem hlt]
    rfl
  rw [hops] at hends
  simp only [Routine.leadsTo, hblock, hends.successors]
  exact List.contains_iff_mem.mpr htarget

/-- In a body of which the last block is given its end, every block is whole. -/
theorem Shaped.whole (h : b.Shaped fun _ => False) (result : Nat) {i : Nat}
    (hi : i < b.blocks.length) : ∃ last : Op, last.Ends (opsOf (b.emit (.ret result)).blocks i) ∧
      ∀ t ∈ last.successors, t < b.blocks.length := by
  by_cases heq : b.current = i
  · subst heq
    rw [opsOf_emit _ h.ready.current_lt]
    exact ⟨_, h.current.ends rfl, fun _ ht => by cases ht⟩
  · rw [opsOf_emit_other _ heq]
    exact h.ended i hi (Ne.symm heq) id

/-- Where a block leads does not change when the last block is given its end. -/
theorem Shaped.leadsTo_emit_ret (h : b.Shaped fun _ => False) (result : Nat) {source target : Nat}
    (hleads : b.LeadsTo source target) : (b.emit (.ret result)).LeadsTo source target :=
  hleads.of_opsOf (opsOf_emit_other _ (h.ne_current hleads).symm)

/-- A body of which the last block is given its end has no flaw. -/
theorem Shaped.flaw?_eq_none {result : Nat} (h : b.Shaped fun _ => False)
    (hresult : result < b.regTypes.length) (s : Signature) :
    ((b.emit (.ret result)).finish s).flaw? = none := by
  have hblock {block : Block} {i : Nat} (hget : (b.emit (.ret result)).blocks[i]? = some block) :
      i < b.blocks.length ∧ opsOf (b.emit (.ret result)).blocks i = block.ops := by
    refine ⟨?_, by rw [opsOf, hget]; rfl⟩
    rw [← emit_blocks_length b (.ret result)]
    exact (List.getElem?_eq_some_iff.mp hget).1
  refine Routine.flaw?_eq_none (fun i block hget => ?_) fun i block hget => ?_
  · obtain ⟨hi, hops⟩ := hblock hget
    obtain ⟨last, hends, htargets⟩ := h.whole result hi
    refine Routine.endFlaw?_eq_none (hops ▸ hends) fun t ht => ?_
    change t < (b.emit (.ret result)).blocks.length
    rw [emit_blocks_length]
    exact htargets t ht
  · obtain ⟨hi, hops⟩ := hblock hget
    obtain ⟨last, hends, -⟩ := h.whole result hi
    obtain ⟨before, hbefore, hunended⟩ := hends.front
    have hmemOps {o : Op} (ho : o ∈ before ++ [last]) :
        o ∈ opsOf b.blocks i ∨ o = .ret result :=
      mem_opsOf_emit (hbefore ▸ ho)
    rw [← hops, hbefore]
    refine Routine.opsFlaw?_of_unended hunended hends.terminates (fun o ho => ?_) fun o ho => ?_
    · refine Routine.edgeFlaw?_eq_none fun dest incoming hphi e he => ?_
      rcases hmemOps ho with hold | hret
      · exact (h.leadsTo_emit_ret result (h.edges i dest incoming (hphi ▸ hold) e he)).leadsTo s
      · cases hphi.symm.trans hret
    · refine Routine.registerFlaw?_eq_none fun reg hreg => ?_
      rcases hmemOps ho with hold | rfl
      · exact h.registers i o hold reg hreg
      · exact List.mem_singleton.mp hreg ▸ hresult

end Builder

end PoseLang
