import PoseLang.Code.Verify
import PoseLang.Proofs.Lowering.Resolved

/-!
# Lowered code has the shape that it has to have

While code is lowered, the block that operations are added to has no end yet, some blocks are pending
and empty, and all others are whole: phis, then operations that are neither phis nor ends, then one end
that leads to blocks that there are (`Builder.Shaped`). An edge of a phi is added only once the block
that it comes from has its end. Every step of the builder keeps this, so lowering an expression does
(`Lowered.shaped`), and a body has no flaw once its last block has its end
(`Builder.Shaped.flaw?_eq_none`).
-/

namespace PoseLang

/-! ## The operations of a block -/

namespace Op

/-- Whether an operation is neither a phi nor an end. -/
def isInner (op : Op) : Bool :=
  !op.isPhi && !op.isTerminator

/-- The operations of a block that has no end: phis, and behind them operations that are neither phis
nor ends. -/
inductive Unended : List Op → Prop
  | inner {ops : List Op} (plain : ∀ op ∈ ops, op.isInner = true) : Unended ops
  | phi {dest : Nat} {incoming : List (Nat × Nat)} {ops : List Op} (tail : Unended ops) :
    Unended (.phi dest incoming :: ops)

/-- The operation is the end of a block with these operations. -/
structure Ends (last : Op) (ops : List Op) : Prop where
  terminates : last.isTerminator = true
  front : ∃ before, ops = before ++ [last] ∧ Unended before

theorem isPhi_of_inner {op : Op} (h : op.isInner = true) : op.isPhi = false :=
  (Bool.not_eq_true' _).mp (Bool.and_eq_true_iff.mp h).1

theorem isTerminator_of_inner {op : Op} (h : op.isInner = true) : op.isTerminator = false :=
  (Bool.not_eq_true' _).mp (Bool.and_eq_true_iff.mp h).2

theorem isPhi_of_terminates {op : Op} (h : op.isTerminator = true) : op.isPhi = false := by
  cases op with
  | phi dest incoming => cases h
  | _ => rfl

theorem Unended.nil : Unended [] :=
  .inner fun _ h => by cases h

namespace Unended

variable {ops : List Op} {op : Op}

theorem push (h : Unended ops) (hop : op.isInner = true) : Unended (ops ++ [op]) := by
  induction h with
  | inner plain =>
    refine .inner fun o ho => ?_
    rcases List.mem_append.mp ho with ho | ho
    · exact plain o ho
    · rw [List.mem_singleton.mp ho]
      exact hop
  | phi tail ih => exact .phi ih

theorem isTerminator (h : Unended ops) : ∀ o ∈ ops, o.isTerminator = false := by
  induction h with
  | inner plain => exact fun o ho => isTerminator_of_inner (plain o ho)
  | phi tail ih =>
    intro o ho
    rcases List.mem_cons.mp ho with rfl | ho
    · rfl
    · exact ih o ho

/-- A block that has no end does not have one. -/
theorem not_ends (h : Unended ops) {last : Op} : ¬ last.Ends ops := by
  rintro ⟨hlast, before, rfl, -⟩
  have hnot := h.isTerminator last (List.mem_append_right _ (List.mem_singleton_self last))
  rw [hlast] at hnot
  cases hnot

theorem ends (h : Unended ops) {last : Op} (hlast : last.isTerminator = true) :
    last.Ends (ops ++ [last]) :=
  ⟨hlast, ops, rfl, h⟩

end Unended

/-! ### An edge more -/

theorem addEdge_of_inner {dest : Nat} {edge : Nat × Nat} {ops : List Op}
    (h : ∀ op ∈ ops, op.isPhi = false) : Builder.addEdge dest edge ops = ops := by
  fun_induction Builder.addEdge dest edge ops with
  | case1 => rfl
  | case2 incoming ops => cases h _ List.mem_cons_self
  | case3 d incoming ops hne ih => cases h _ List.mem_cons_self
  | case4 op ops hne ih => rw [ih fun o ho => h o (List.mem_cons_of_mem _ ho)]

theorem addEdge_append {dest : Nat} {edge : Nat × Nat} {last : Op} (hlast : last.isPhi = false)
    (ops : List Op) :
    Builder.addEdge dest edge (ops ++ [last]) = Builder.addEdge dest edge ops ++ [last] := by
  fun_induction Builder.addEdge dest edge ops with
  | case1 => exact addEdge_of_inner fun o ho => List.mem_singleton.mp ho ▸ hlast
  | case2 incoming ops => rw [List.cons_append, Builder.addEdge, if_pos rfl, List.cons_append]
  | case3 d incoming ops hne ih =>
    rw [List.cons_append, Builder.addEdge, if_neg hne, ih, List.cons_append]
  | case4 op ops hne ih =>
    rw [List.cons_append, Builder.addEdge, ih, List.cons_append]
    exact hne

theorem Unended.addEdge {ops : List Op} (h : Unended ops) (dest : Nat) (edge : Nat × Nat) :
    Unended (Builder.addEdge dest edge ops) := by
  induction h with
  | inner plain =>
    rw [addEdge_of_inner fun o ho => isPhi_of_inner (plain o ho)]
    exact .inner plain
  | phi tail ih =>
    rw [Builder.addEdge]
    split
    · exact .phi tail
    · exact .phi ih

theorem Ends.addEdge {last : Op} {ops : List Op} (h : last.Ends ops) (dest : Nat)
    (edge : Nat × Nat) : last.Ends (Builder.addEdge dest edge ops) := by
  obtain ⟨before, rfl, hbefore⟩ := h.front
  rw [addEdge_append (isPhi_of_terminates h.terminates)]
  exact (hbefore.addEdge dest edge).ends h.terminates

/-- The registers that an operation writes and reads. -/
def registers (op : Op) : List Nat :=
  op.dest?.toList ++ op.operands

end Op

open Op (Unended Ends)

/-! ## Builders on the way -/

namespace Builder

/-- A block has an end, which leads to another block. -/
def LeadsTo (b : Builder) (source target : Nat) : Prop :=
  ∃ last : Op, last.Ends (opsOf b.blocks source) ∧ target ∈ last.successors

/-- The block that operations are added to has no end, pending blocks are empty and all others whole,
the edges of phis come from blocks that lead to them, and all registers exist. -/
structure Shaped (pending : Nat → Prop) (b : Builder) : Prop extends b.Open pending where
  current : Unended (opsOf b.blocks b.current)
  waiting : ∀ i, pending i → opsOf b.blocks i = []
  ended : ∀ i < b.blocks.length, i ≠ b.current → ¬ pending i → ∃ last : Op,
    last.Ends (opsOf b.blocks i) ∧ ∀ t ∈ last.successors, t < b.blocks.length
  edges : ∀ (i dest : Nat) (incoming : List (Nat × Nat)), .phi dest incoming ∈ opsOf b.blocks i →
    ∀ e ∈ incoming, b.LeadsTo e.2 i
  registers : ∀ (i : Nat) (op : Op), op ∈ opsOf b.blocks i →
    ∀ reg ∈ op.registers, reg < b.regTypes.length

section

variable {pending : Nat → Prop} {b b' : Builder} {source target : Nat}

theorem LeadsTo.of_opsOf (h : b.LeadsTo source target)
    (hsame : opsOf b'.blocks source = opsOf b.blocks source) : b'.LeadsTo source target := by
  obtain ⟨last, hends, htarget⟩ := h
  exact ⟨last, hsame ▸ hends, htarget⟩

theorem LeadsTo.lt (h : b.LeadsTo source target) : source < b.blocks.length := by
  obtain ⟨last, ⟨-, before, hops, -⟩, -⟩ := h
  refine Nat.lt_of_not_le fun hle => ?_
  rw [opsOf_of_length_le hle] at hops
  cases before <;> cases hops

/-- The block that operations are added to does not lead anywhere. -/
theorem Shaped.ne_current (h : b.Shaped pending) (hleads : b.LeadsTo source target) :
    source ≠ b.current := by
  rintro rfl
  obtain ⟨last, hends, -⟩ := hleads
  exact h.current.not_ends hends

/-- What has an end is left alone by lowering. -/
theorem LeadsTo.grown (h : b.LeadsTo source target) (hb : b.Shaped pending) (g : Grown b b') :
    b'.LeadsTo source target :=
  h.of_opsOf (g.opsOf h.lt (hb.ne_current h))

end

namespace Shaped

variable {pending : Nat → Prop} {b b' : Builder}

/-- A step that changes nothing but names and adds registers at most. -/
theorem of_eq (h : b.Shaped pending) (hready : b'.Ready) (hblocks : b'.blocks = b.blocks)
    (hcurrent : b'.current = b.current) (hregs : b.regTypes <+: b'.regTypes) :
    b'.Shaped pending := by
  have hleads {s t : Nat} (hst : b.LeadsTo s t) : b'.LeadsTo s t :=
    hst.of_opsOf (by rw [hblocks])
  refine ⟨⟨hready, fun i hi => hblocks ▸ h.known i hi, hcurrent ▸ h.free⟩, ?_, ?_, ?_, ?_, ?_⟩
  · rw [hblocks, hcurrent]
    exact h.current
  · intro i hi
    rw [hblocks]
    exact h.waiting i hi
  · rw [hblocks, hcurrent]
    exact h.ended
  · intro i dest incoming hphi e he
    rw [hblocks] at hphi
    exact hleads (h.edges i dest incoming hphi e he)
  · intro i op hop reg hreg
    rw [hblocks] at hop
    exact Nat.lt_of_lt_of_le (h.registers i op hop reg hreg) hregs.length_le

/-- Which blocks are pending may be said in another way. -/
theorem of_iff {pending' : Nat → Prop} (h : b.Shaped pending) (hiff : ∀ i, pending i ↔ pending' i) :
    b.Shaped pending' := by
  have hpending : pending = pending' := funext fun i => propext (hiff i)
  exact hpending ▸ h

/-- A block in which the builder goes on is no longer pending. -/
theorem of_resumed {next : Nat} (h : b.Shaped fun i => i ≠ next ∧ (i = next ∨ pending i))
    (hfresh : ¬ pending next) : b.Shaped pending := by
  refine h.of_iff fun i => ?_
  constructor
  · rintro ⟨hne, rfl | hp⟩
    · exact absurd rfl hne
    · exact hp
  · intro hp
    exact ⟨fun heq => hfresh (heq ▸ hp), .inr hp⟩

/-- An operation that leaves the current block without an end. -/
theorem emit {op : Op} (h : b.Shaped pending)
    (hops : Unended (opsOf b.blocks b.current ++ [op]))
    (hedges : ∀ dest incoming, op = .phi dest incoming → ∀ e ∈ incoming, b.LeadsTo e.2 b.current)
    (hregs : ∀ reg ∈ op.registers, reg < b.regTypes.length) : (b.emit op).Shaped pending := by
  have hlt := h.ready.current_lt
  have hleads {s t : Nat} (hst : b.LeadsTo s t) : (b.emit op).LeadsTo s t :=
    hst.of_opsOf (opsOf_emit_other op (h.ne_current hst).symm)
  have hready : (b.emit op).Ready :=
    h.ready.of_prefix (List.prefix_refl _) rfl (by rw [emit_blocks_length]; exact hlt)
  refine ⟨⟨hready, fun i hi => by rw [emit_blocks_length]; exact h.known i hi, h.free⟩,
    ?_, ?_, ?_, ?_, ?_⟩
  · change Unended (opsOf (b.emit op).blocks b.current)
    rw [opsOf_emit op hlt]
    exact hops
  · intro i hi
    rw [opsOf_emit_other op fun heq => h.free (heq ▸ hi)]
    exact h.waiting i hi
  · intro i hi hne hfree
    rw [emit_blocks_length] at hi ⊢
    rw [opsOf_emit_other (b := b) op (Ne.symm hne)]
    exact h.ended i hi hne hfree
  · intro i dest incoming hphi e he
    by_cases hi : b.current = i
    · subst hi
      rw [opsOf_emit op hlt] at hphi
      rcases List.mem_append.mp hphi with hold | hnew
      · exact hleads (h.edges _ dest incoming hold e he)
      · exact hleads (hedges dest incoming (List.mem_singleton.mp hnew).symm e he)
    · rw [opsOf_emit_other op hi] at hphi
      exact hleads (h.edges i dest incoming hphi e he)
  · intro i o ho reg hreg
    rcases mem_opsOf_emit ho with hold | rfl
    · exact h.registers i o hold reg hreg
    · exact hregs reg hreg

/-- A new register, filled by an operation that leaves the current block without an end. -/
theorem put {ty : Ty} {op : Nat → Op} (h : b.Shaped pending)
    (hops : Unended (opsOf b.blocks b.current ++ [op b.regTypes.length]))
    (hedges : ∀ dest incoming, op b.regTypes.length = .phi dest incoming →
      ∀ e ∈ incoming, b.LeadsTo e.2 b.current)
    (hregs : ∀ reg ∈ (op b.regTypes.length).registers, reg ≤ b.regTypes.length) :
    (b.put ty op).Shaped pending := by
  have hready : (b.newReg ty).2.Ready :=
    h.ready.of_prefix (List.prefix_append _ _) rfl h.ready.current_lt
  have counted : (b.newReg ty).2.Shaped pending :=
    h.of_eq hready rfl rfl (List.prefix_append _ _)
  refine counted.emit hops (fun dest incoming hop e he => ?_) fun reg hreg => ?_
  · exact (hedges dest incoming hop e he).of_opsOf rfl
  · change reg < (b.regTypes ++ [ty]).length
    rw [List.length_append, List.length_singleton]
    exact Nat.lt_succ_of_le (hregs reg hreg)

theorem putInner {ty : Ty} {op : Nat → Op} (h : b.Shaped pending)
    (hop : (op b.regTypes.length).isInner = true)
    (hregs : ∀ reg ∈ (op b.regTypes.length).registers, reg ≤ b.regTypes.length) :
    (b.put ty op).Shaped pending := by
  refine h.put (h.current.push hop) (fun dest incoming hphi => ?_) hregs
  rw [hphi] at hop
  cases hop

/-- A phi at the start of a block, once the blocks that it takes values from lead there. -/
theorem putPhi {ty : Ty} {incoming : List (Nat × Nat)} (h : b.Shaped pending)
    (hempty : opsOf b.blocks b.current = []) (hedges : ∀ e ∈ incoming, b.LeadsTo e.2 b.current)
    (hregs : ∀ e ∈ incoming, e.1 < b.regTypes.length) :
    (b.put ty (.phi · incoming)).Shaped pending := by
  refine h.put ?_ (fun dest incoming' hop => ?_) fun reg hreg => ?_
  · rw [hempty]
    exact .phi .nil
  · cases hop
    exact hedges
  · rcases List.mem_cons.mp hreg with rfl | hreg
    · exact Nat.le_refl _
    · obtain ⟨e, he, rfl⟩ := List.mem_map.mp hreg
      exact Nat.le_of_lt (hregs e he)

/-- A new block is pending. -/
theorem appendBlock (h : b.Shaped pending) (label : String) :
    (b.appendBlock label).2.Shaped fun i => i = b.blocks.length ∨ pending i := by
  have hlt := h.ready.current_lt
  have hready : (b.appendBlock label).2.Ready :=
    h.ready.of_prefix (List.prefix_refl _) rfl
      (by rw [appendBlock_blocks_length]; exact Nat.lt_succ_of_lt hlt)
  refine ⟨⟨hready, ?_, ?_⟩, ?_, ?_, ?_, ?_, ?_⟩
  · intro i hi
    rw [appendBlock_blocks_length]
    rcases hi with rfl | hi
    · exact Nat.lt_succ_self _
    · exact Nat.lt_succ_of_lt (h.known i hi)
  · rintro (heq | hi)
    · exact Nat.ne_of_lt hlt heq
    · exact h.free hi
  · rw [opsOf_appendBlock]
    exact h.current
  · intro i hi
    rw [opsOf_appendBlock]
    rcases hi with rfl | hi
    · exact opsOf_of_length_le (Nat.le_refl _)
    · exact h.waiting i hi
  · intro i hi hne hfree
    rw [appendBlock_blocks_length] at hi
    have hold : i < b.blocks.length := by
      have hnew : i ≠ b.blocks.length := fun heq => hfree (.inl heq)
      omega
    obtain ⟨last, hends, htargets⟩ := h.ended i hold hne fun hp => hfree (.inr hp)
    rw [opsOf_appendBlock, appendBlock_blocks_length]
    exact ⟨last, hends, fun t ht => Nat.lt_succ_of_lt (htargets t ht)⟩
  · intro i dest incoming hphi e he
    rw [opsOf_appendBlock] at hphi
    exact (h.edges i dest incoming hphi e he).of_opsOf (opsOf_appendBlock label)
  · intro i op hop reg hreg
    rw [opsOf_appendBlock] at hop
    exact h.registers i op hop reg hreg

/-- The end of the current block; the builder goes on in a block that was pending. -/
theorem endBlock (h : b.Shaped pending) (last : Op) (next : Nat) (hlast : last.isTerminator = true)
    (htargets : ∀ t ∈ last.successors, t < b.blocks.length)
    (hregs : ∀ reg ∈ last.registers, reg < b.regTypes.length) (hnext : pending next) :
    ((b.emit last).position next).Shaped (fun i => i ≠ next ∧ pending i) ∧
      ∀ t ∈ last.successors, ((b.emit last).position next).LeadsTo b.current t := by
  have hlt := h.ready.current_lt
  have hne : b.current ≠ next := fun heq => h.free (heq ▸ hnext)
  have hends : last.Ends (opsOf (b.emit last).blocks b.current) := by
    rw [opsOf_emit last hlt]
    exact h.current.ends hlast
  have hleads {s t : Nat} (hst : b.LeadsTo s t) : ((b.emit last).position next).LeadsTo s t :=
    hst.of_opsOf (opsOf_emit_other last (h.ne_current hst).symm)
  have hready : ((b.emit last).position next).Ready :=
    h.ready.of_prefix (List.prefix_refl _) rfl
      (by change next < (b.emit last).blocks.length; rw [emit_blocks_length]; exact h.known next hnext)
  have hlength : ((b.emit last).position next).blocks.length = b.blocks.length :=
    emit_blocks_length b last
  refine ⟨⟨⟨hready, fun i hi => hlength ▸ h.known i hi.2, fun hi => hi.1 rfl⟩, ?_, ?_, ?_, ?_, ?_⟩,
    fun t ht => ⟨last, hends, ht⟩⟩
  · change Unended (opsOf (b.emit last).blocks next)
    rw [opsOf_emit_other last hne, h.waiting next hnext]
    exact .nil
  · intro i hi
    change opsOf (b.emit last).blocks i = []
    rw [opsOf_emit_other last fun heq => h.free (heq ▸ hi.2)]
    exact h.waiting i hi.2
  · intro i hi hnotNext hfree
    rw [hlength] at hi ⊢
    change ∃ l : Op, l.Ends (opsOf (b.emit last).blocks i) ∧ _
    by_cases hcur : b.current = i
    · subst hcur
      exact ⟨last, hends, htargets⟩
    · rw [opsOf_emit_other last hcur]
      exact h.ended i hi (Ne.symm hcur) fun hp => hfree ⟨hnotNext, hp⟩
  · intro i dest incoming hphi e he
    rcases mem_opsOf_emit hphi with hold | hnew
    · exact hleads (h.edges i dest incoming hold e he)
    · rw [← hnew] at hlast
      cases hlast
  · intro i o ho reg hreg
    rcases mem_opsOf_emit ho with hold | rfl
    · exact h.registers i o hold reg hreg
    · exact hregs reg hreg

/-- An edge more for a phi, from a block that leads there. -/
theorem addPhiEdge (h : b.Shaped pending) (block dest : Nat) (edge : Nat × Nat)
    (hleads : b.LeadsTo edge.2 block) (hreg : edge.1 < b.regTypes.length) :
    (b.addPhiEdge block dest edge).Shaped pending := by
  have hlength : (b.addPhiEdge block dest edge).blocks.length = b.blocks.length := by
    simp [Builder.addPhiEdge]
  -- Whole blocks stay whole, with the same end, and blocks without an end stay without one.
  have hends {last : Op} {i : Nat} (hi : last.Ends (opsOf b.blocks i)) :
      last.Ends (opsOf (b.addPhiEdge block dest edge).blocks i) :=
    opsOf_addPhiEdge_of hi fun hops => hops.addEdge dest edge
  have hkeeps {s t : Nat} (hst : b.LeadsTo s t) : (b.addPhiEdge block dest edge).LeadsTo s t := by
    obtain ⟨last, hlast, ht⟩ := hst
    exact ⟨last, hends hlast, ht⟩
  have hready : (b.addPhiEdge block dest edge).Ready :=
    h.ready.of_prefix (List.prefix_refl _) rfl (by rw [hlength]; exact h.ready.current_lt)
  refine ⟨⟨hready, fun i hi => hlength ▸ h.known i hi, h.free⟩, ?_, ?_, ?_, ?_, ?_⟩
  · exact opsOf_addPhiEdge_of h.current fun hops => hops.addEdge dest edge
  · intro i hi
    exact opsOf_addPhiEdge_of (p := (· = [])) (h.waiting i hi) fun hops => by rw [hops, addEdge]
  · intro i hi hne hfree
    rw [hlength] at hi ⊢
    obtain ⟨last, hlast, htargets⟩ := h.ended i hi hne hfree
    exact ⟨last, hends hlast, htargets⟩
  · intro i dest' incoming hphi e he
    rcases mem_opsOf_addPhiEdge hphi with hold | ⟨rfl, incoming', hold, heq⟩
    · exact hkeeps (h.edges i dest' incoming hold e he)
    · cases heq
      rcases List.mem_append.mp he with he | he
      · exact hkeeps (h.edges block dest incoming' hold e he)
      · exact List.mem_singleton.mp he ▸ hkeeps hleads
  · intro i o ho reg hreg'
    rcases mem_opsOf_addPhiEdge ho with hold | ⟨-, incoming', hold, rfl⟩
    · exact h.registers i o hold reg hreg'
    · have hphi := h.registers i _ hold
      simp only [Op.registers, Op.dest?, Op.operands, Option.toList_some, List.map_append, List.map_cons,
        List.map_nil, List.mem_append, List.mem_cons, List.not_mem_nil, or_false] at hreg' hphi
      rcases hreg' with hdest | hold' | hnew
      · exact hphi reg (.inl hdest)
      · exact hphi reg (.inr hold')
      · exact hnew ▸ hreg

theorem jumpTo (h : b.Shaped pending) (target next : Nat) (htarget : target < b.blocks.length)
    (hnext : pending next) :
    (b.jumpTo target next).Shaped (fun i => i ≠ next ∧ pending i) ∧
      (b.jumpTo target next).LeadsTo b.current target := by
  have ended := h.endBlock (.jump target) next rfl
    (fun t ht => List.mem_singleton.mp ht ▸ htarget) (fun _ hreg => by cases hreg) hnext
  exact ⟨ended.1, ended.2 target (List.mem_singleton_self target)⟩

theorem putArith {left right : Nat} (h : b.Shaped pending) (kind : Arith)
    (hleft : left < b.regTypes.length) (hright : right < b.regTypes.length) :
    (b.put .f64 (.arith kind · left right)).Shaped pending := by
  refine h.putInner rfl fun reg hreg => ?_
  rcases List.mem_cons.mp hreg with rfl | hreg
  · exact Nat.le_refl _
  · rcases List.mem_cons.mp hreg with rfl | hreg
    · exact Nat.le_of_lt hleft
    · rw [List.mem_singleton.mp hreg]
      exact Nat.le_of_lt hright

theorem test {value : Nat} (h : b.Shaped pending) (hvalue : value < b.regTypes.length) :
    (b.put .bool (.truthy · value)).Shaped pending := by
  refine h.putInner rfl fun reg hreg => ?_
  rcases List.mem_cons.mp hreg with rfl | hreg
  · exact Nat.le_refl _
  · rw [List.mem_singleton.mp hreg]
    exact Nat.le_of_lt hvalue

theorem branch (h : b.Shaped pending) (cond t e next : Nat) (ht : t < b.blocks.length)
    (he : e < b.blocks.length) (hcond : cond < b.regTypes.length) (hnext : pending next) :
    ((b.emit (.branch cond t e)).position next).Shaped (fun i => i ≠ next ∧ pending i) ∧
      ((b.emit (.branch cond t e)).position next).LeadsTo b.current t := by
  have ended := h.endBlock (.branch cond t e) next rfl ?_ ?_ hnext
  · exact ⟨ended.1, ended.2 t List.mem_cons_self⟩
  · intro target htarget
    rcases List.mem_cons.mp htarget with rfl | htarget
    · exact ht
    · rw [List.mem_singleton.mp htarget]
      exact he
  · intro reg hreg
    rw [List.mem_singleton.mp hreg]
    exact hcond

/-- Behind the test of a conditional its second block and that of the join are pending. -/
theorem openBranches {value : Nat} (h : b.Shaped pending) (hvalue : value < b.regTypes.length) :
    (b.openBranches value).Shaped fun i =>
      i = b.blocks.length + 1 ∨ i = b.blocks.length + 2 ∨ pending i := by
  have forked := (((h.test hvalue).appendBlock "then").appendBlock "else").appendBlock "ifcont"
  simp only [appendBlock_blocks_length, put_blocks_length] at forked
  have hlength : ((((b.put .bool (.truthy · value)).appendBlock "then").2.appendBlock
      "else").2.appendBlock "ifcont").2.blocks.length = b.blocks.length + 3 := by
    simp only [appendBlock_blocks_length, put_blocks_length]
  have ended := (forked.branch b.regTypes.length b.blocks.length (b.blocks.length + 1)
    b.blocks.length (by omega) (by omega)
    (show b.regTypes.length < (b.regTypes ++ [Ty.bool]).length by simp)
    (.inr (.inr (.inl rfl)))).1
  refine ended.of_iff fun i => ?_
  have hknown := h.known i
  constructor
  · rintro ⟨hne, rfl | rfl | rfl | hi⟩
    · exact .inr (.inl rfl)
    · exact .inl rfl
    · exact absurd rfl hne
    · exact .inr (.inr hi)
  · rintro (rfl | rfl | hi)
    · exact ⟨by omega, .inr (.inl rfl)⟩
    · exact ⟨by omega, .inl rfl⟩
    · exact ⟨Nat.ne_of_lt (hknown hi), .inr (.inr (.inr hi))⟩

/-- Branches are joined in a block that was pending, from blocks that lead there or end now. -/
theorem joinBranches {merge : Nat} {ty : Ty} {edges : List (Nat × Nat)}
    (h : b.Shaped fun i => i = merge ∨ pending i) (hfresh : ¬ pending merge)
    (hregs : ∀ e ∈ edges, e.1 < b.regTypes.length)
    (hedges : ∀ e ∈ edges, e.2 = b.current ∨ b.LeadsTo e.2 merge) :
    (b.joinBranches merge ty edges).Shaped pending := by
  have hne : b.current ≠ merge := fun heq => h.free (.inl heq)
  obtain ⟨jumped, hleads⟩ := h.jumpTo merge merge (h.known merge (.inl rfl)) (.inl rfl)
  refine (jumped.of_resumed hfresh).putPhi ?_ (fun e he => ?_) hregs
  · exact (opsOf_jumpTo merge merge hne).trans (h.waiting merge (.inl rfl))
  · rcases hedges e he with heq | hold
    · exact heq ▸ hleads
    · exact hold.of_opsOf (opsOf_jumpTo merge merge (h.ne_current hold).symm)

theorem openLoop {first : Nat} (h : b.Shaped pending) (v : String)
    (hfirst : first < b.regTypes.length) : (b.openLoop v first).Shaped pending := by
  have hfresh : ¬ pending b.blocks.length := fun hp => Nat.lt_irrefl _ (h.known _ hp)
  -- The block of a loop is a join that is entered from one block so far.
  have joined : ((b.appendBlock "loop").2.joinBranches b.blocks.length .f64
      [(first, b.current)]).Shaped pending := by
    refine (h.appendBlock "loop").joinBranches hfresh (fun e he => ?_) fun e he => ?_
    · rw [List.mem_singleton.mp he]
      exact hfirst
    · rw [List.mem_singleton.mp he]
      exact .inl rfl
  exact joined.of_eq (h.ready.openLoop v first) rfl rfl (List.prefix_refl _)

theorem closeLoop {block next value : Nat} {v : String} {shadowed : Option Nat} {counter : Nat}
    (h : b.Shaped pending) (hblock : block < b.blocks.length) (hnext : next < b.regTypes.length)
    (hvalue : value < b.regTypes.length)
    (hready : (b.closeLoop v shadowed block counter next value).Ready) :
    (b.closeLoop v shadowed block counter next value).Shaped pending := by
  have hfresh : ¬ pending b.blocks.length := fun hp => Nat.lt_irrefl _ (h.known _ hp)
  have opened := (h.test hvalue).appendBlock "afterloop"
  rw [put_blocks_length] at opened
  obtain ⟨ended, hleads⟩ := opened.branch b.regTypes.length block b.blocks.length b.blocks.length
    (by simpa using Nat.lt_succ_of_lt hblock) (by simp)
    (show b.regTypes.length < (b.regTypes ++ [Ty.bool]).length by simp) (.inl rfl)
  have edged := ended.addPhiEdge block counter (next, b.current) hleads
    (show next < (b.regTypes ++ [Ty.bool]).length by simpa using Nat.lt_succ_of_lt hnext)
  exact (edged.of_resumed hfresh).of_eq hready (restore_blocks _ v shadowed)
    (restore_current _ v shadowed) (by rw [closeLoop_regTypes]; exact List.prefix_refl _)

theorem storeField {record : String} {base value : Nat} (h : b.Shaped pending) (field : Nat)
    (hbase : base < b.regTypes.length) (hvalue : value < b.regTypes.length) :
    (b.storeField record base value field).Shaped pending := by
  have addressed : (b.put (.ptr record) (.fieldAddr · base 0 field)).Shaped pending := by
    refine h.putInner rfl fun reg hreg => ?_
    rcases List.mem_cons.mp hreg with rfl | hreg
    · exact Nat.le_refl _
    · rw [List.mem_singleton.mp hreg]
      exact Nat.le_of_lt hbase
  refine addressed.emit (addressed.current.push rfl) (fun _ _ hop => by cases hop) fun reg hreg => ?_
  rw [put_regTypes, List.length_append, List.length_singleton]
  rcases List.mem_cons.mp hreg with rfl | hreg
  · exact Nat.lt_succ_of_lt hvalue
  · rw [List.mem_singleton.mp hreg]
    exact Nat.lt_succ_self _

theorem need (h : b.Shaped pending) (t : Target) : (b.need t).Shaped pending :=
  h.of_eq ((Grown.need h.ready t).ready h.ready) (need_blocks b t) (need_current b t)
    (need_regTypes b t ▸ List.prefix_refl _)

end Shaped

end Builder

/-! ## Lowered expressions -/

section

open Builder

variable {c : Context}

mutual

/-- Lowering an expression keeps the shape of a builder. -/
theorem Lowered.shaped : ∀ {e : Expr} {b b' : Builder} {r : Nat} {pending : Nat → Prop},
    Lowered c e b r b' → b.Shaped pending → b'.Shaped pending
  | _, _, _, _, _, .num, h => h.putInner rfl fun _ hreg => Nat.le_of_eq (List.mem_singleton.mp hreg)
  | _, _, _, _, _, .var _, h => h
  | _, _, _, _, _, @Lowered.binary _ _ _ kind _ _ b b₁ b₂ l r first second _ _ _, h => by
    have s₁ := first.shaped h
    have g₂ := second.grown s₁.ready
    have hl := Nat.lt_of_lt_of_le (first.grown h.ready).2 g₂.1.regTypes.length_le
    exact (second.shaped s₁).putArith kind hl g₂.2
  | _, _, _, _, _, @Lowered.call _ _ _ _ target b b₁ regs _ _ given, h => by
    have hregs := (given.grown h.ready).2
    refine ((given.shaped h).need target).putInner rfl fun reg hreg => ?_
    rcases List.mem_cons.mp hreg with rfl | hreg
    · exact Nat.le_refl _
    · rw [need_regTypes]
      exact Nat.le_of_lt (hregs reg hreg)
  | _, _, _, _, pending, @Lowered.cond _ _ _ _ _ b b₁ b₂ b₃ value t e test _ first second _, h => by
    have s₁ := test.shaped h
    have opened := s₁.openBranches (test.grown h.ready).2
    have s₂ := first.shaped opened
    have g₂ := first.grown opened.ready
    -- What was pending before lies in front of the blocks of the conditional.
    have hknown := s₁.known
    have hlength := g₂.1.length_le
    rw [openBranches_blocks_length] at hlength
    obtain ⟨jumped, hleads⟩ := s₂.jumpTo (b₁.blocks.length + 2) (b₁.blocks.length + 1) (by omega)
      (.inl rfl)
    have resumed : (b₂.jumpTo (b₁.blocks.length + 2) (b₁.blocks.length + 1)).Shaped
        fun i => i = b₁.blocks.length + 2 ∨ pending i := by
      refine jumped.of_resumed fun hp => ?_
      rcases hp with heq | hp
      · omega
      · have := hknown _ hp
        omega
    have g₃ := second.grown resumed.ready
    refine (second.shaped resumed).joinBranches (fun hp => ?_) (fun edge hedge => ?_) fun edge hedge => ?_
    · have := hknown _ hp
      omega
    · rcases List.mem_cons.mp hedge with rfl | hedge
      · exact Nat.lt_of_lt_of_le g₂.2 g₃.1.regTypes.length_le
      · rw [List.mem_singleton.mp hedge]
        exact g₃.2
    · rcases List.mem_cons.mp hedge with rfl | hedge
      · exact .inr (hleads.grown resumed g₃.1)
      · rw [List.mem_singleton.mp hedge]
        exact .inl rfl
  | _, _, _, _, pending, @Lowered.loop _ _ v _ _ _ _ b b₁ b₂ b₃ b₄ _ first _ increment value started _
      ran stepped tested _ closed, h => by
    have g₁ := started.grown h.ready
    have opened := (started.shaped h).openLoop v g₁.2
    have g₂ := (ran.grown opened.ready).1
    have s₂ := ran.shaped opened
    have g₃ := stepped.grown s₂.ready
    have hcounter : b₁.regTypes.length < b₃.regTypes.length := by
      have hbody := g₂.regTypes.length_le
      rw [openLoop_regTypes, List.length_append, List.length_singleton] at hbody
      have hstep := g₃.1.regTypes.length_le
      omega
    have added := (stepped.shaped s₂).putArith .add hcounter g₃.2
    have g₄ := tested.grown added.ready
    have inside : Grown (b₁.openLoop v first) b₄ :=
      ((g₂.trans opened.ready g₃.1).trans opened.ready
        (.put (stepped.shaped s₂).ready _ _)).trans opened.ready g₄.1
    have hblock := inside.length_le
    rw [openLoop_blocks_length] at hblock
    have hnext := g₄.1.regTypes.length_le
    rw [put_regTypes, List.length_append, List.length_singleton] at hnext
    subst closed
    have ready := (g₁.1.loop h.ready inside b₁.regTypes.length b₃.regTypes.length value).ready h.ready
    have behind := (tested.shaped added).closeLoop hblock hnext g₄.2 ready
    exact behind.putInner rfl fun _ hreg => Nat.le_of_eq (List.mem_singleton.mp hreg)
  | _, _, _, _, _, .alloc _, h => h.putInner rfl fun _ hreg => Nat.le_of_eq (List.mem_singleton.mp hreg)
  | _, _, _, _, _, .construct storage _ _ filled, h =>
    filled.shaped (storage.shaped h) (storage.grown h.ready).2

theorem LoweredArgs.shaped : ∀ {es : List Expr} {b b' : Builder} {regs : List Nat}
    {pending : Nat → Prop}, LoweredArgs c es b regs b' → b.Shaped pending → b'.Shaped pending
  | _, _, _, _, _, .nil, h => h
  | _, _, _, _, _, .cons head _ tail, h => tail.shaped (head.shaped h)

theorem LoweredStep.shaped : ∀ {stepBy : Option Expr} {b b' : Builder} {r : Nat}
    {pending : Nat → Prop}, LoweredStep c stepBy b r b' → b.Shaped pending → b'.Shaped pending
  | _, _, _, _, _, .one, h => h.putInner rfl fun _ hreg => Nat.le_of_eq (List.mem_singleton.mp hreg)
  | _, _, _, _, _, .given value _, h => value.shaped h

theorem LoweredFields.shaped : ∀ {base width : Nat} {record : String} {fields : List (Nat × Expr)}
    {b b' : Builder} {pending : Nat → Prop}, LoweredFields c base record width fields b b' →
      b.Shaped pending → base < b.regTypes.length → b'.Shaped pending
  | _, _, _, _, _, _, _, .nil, h, _ => h
  | _, _, _, _, _, _, _, @LoweredFields.cons _ base _ record i _ _ b b₁ _ value _ head _ tail, h,
      hbase => by
    have g₁ := head.grown h.ready
    have hbase₁ := Nat.lt_of_lt_of_le hbase g₁.1.regTypes.length_le
    refine tail.shaped ((head.shaped h).storeField i hbase₁ g₁.2) ?_
    exact Nat.lt_of_lt_of_le hbase₁ (Spares.storeField (n := 0) (k := b₁.current) record base value i
      (.inl rfl)).regTypes.length_le

end

end

end PoseLang
