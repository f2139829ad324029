import PoseLang.Proofs.Lowering.Flawless

/-!
# Phis have an edge for each block that leads to them

That the edges of a phi come from blocks that lead to it is part of the shape of a builder. The other
direction is that no block leads to a phi without an edge, and that there are not two edges from one
block (`Builder.Complete`). It would be lost by an end that leads to a block with a phi in it. A
conditional leads only to blocks that are empty so far, and its phi is made last. A loop does lead back
to its phi; there the edge is added together with the end (`Builder.Complete.closeLoop`).

`Builder.Leads` says of each step where it leads that nothing led before. Lowering leads to new blocks
only (`Lowered.leads`), so that a phi stays complete while something else is lowered.
-/

namespace PoseLang

open Op (Unended Ends)

theorem Op.successors_of_inner {op : Op} (h : op.isInner = true) : op.successors = [] := by
  have hnot := Op.isTerminator_of_inner h
  cases op with
  | jump target => cases hnot
  | branch cond thenBlock elseBlock => cases hnot
  | _ => rfl

namespace Builder

/-! ## Where blocks lead to -/

section

variable {pending : Nat → Prop} {b b' : Builder} {s t : Nat}

/-- All blocks that are led to exist. -/
theorem Shaped.target_lt (h : b.Shaped pending) (hleads : b.LeadsTo s t) : t < b.blocks.length := by
  have hne := h.ne_current hleads
  have hlt := hleads.lt
  obtain ⟨last, hends, htarget⟩ := hleads
  have hfree : ¬ pending s := by
    intro hp
    have hlast := hends.getLast?
    rw [h.waiting s hp] at hlast
    cases hlast
  obtain ⟨last', hends', htargets⟩ := h.ended s hlt hne hfree
  cases hends.getLast?.symm.trans hends'.getLast?
  exact htargets t htarget

/-- An edge more for a phi makes no difference to where its block leads. -/
theorem LeadsTo.of_addPhiEdge {block dest : Nat} {edge : Nat × Nat}
    (h : (b.addPhiEdge block dest edge).LeadsTo s t) (hb : b.Shaped pending) : b.LeadsTo s t := by
  by_cases heq : block = s
  · subst heq
    have hlt : block < b.blocks.length := by
      have hlt := h.lt
      simpa [addPhiEdge] using hlt
    obtain ⟨last, hends, htarget⟩ := h
    rw [opsOf_addPhiEdge] at hends
    -- A block without an end has none with the edge, and a whole one has the end that it had.
    by_cases hcurrent : block = b.current
    · subst hcurrent
      exact absurd hends (hb.current.addEdge dest edge).not_ends
    · by_cases hp : pending block
      · rw [hb.waiting block hp] at hends
        exact absurd hends Unended.nil.not_ends
      · obtain ⟨last', hends', -⟩ := hb.ended block hlt hcurrent hp
        cases hends.getLast?.symm.trans (hends'.addEdge dest edge).getLast?
        exact ⟨last, hends', htarget⟩
  · exact h.of_opsOf (opsOf_addPhiEdge_other dest edge heq).symm

end

/-- The builder of a loop behind its test and with its end, but without the edge that comes back. -/
def branchBack (b : Builder) (block value : Nat) : Builder :=
  ((b.put .bool (.truthy · value)).appendBlock "afterloop").2.emit
    (.branch b.regTypes.length block b.blocks.length)

section

variable {pending : Nat → Prop} {b : Builder}

theorem closeLoop_blocks (b : Builder) (v : String) (shadowed : Option Nat)
    (block counter next value : Nat) : (b.closeLoop v shadowed block counter next value).blocks =
      ((b.branchBack block value).addPhiEdge block counter (next, b.current)).blocks :=
  restore_blocks _ v shadowed

theorem current_lt_behindTest (hlt : b.current < b.blocks.length) (value : Nat) :
    ((b.put .bool (.truthy · value)).appendBlock "afterloop").2.current <
      ((b.put .bool (.truthy · value)).appendBlock "afterloop").2.blocks.length := by
  rw [appendBlock_blocks_length, put_blocks_length]
  exact Nat.lt_succ_of_lt hlt

/-- The edge that comes back makes no difference to where blocks lead. -/
theorem LeadsTo.of_closeLoop {v : String} {shadowed : Option Nat} {block counter next value s t : Nat}
    (h : (b.closeLoop v shadowed block counter next value).LeadsTo s t) (hb : b.Shaped pending)
    (hblock : block < b.blocks.length) (hvalue : value < b.regTypes.length) :
    (b.branchBack block value).LeadsTo s t := by
  have opened := (hb.test hvalue).appendBlock "afterloop"
  rw [put_blocks_length] at opened
  have ended := (opened.branch b.regTypes.length block b.blocks.length b.blocks.length
    (by simpa using Nat.lt_succ_of_lt hblock) (by simp)
    (show b.regTypes.length < (b.regTypes ++ [Ty.bool]).length by simp) (.inl rfl)).1
  have hedged : (((b.branchBack block value).position b.blocks.length).addPhiEdge block counter
      (next, b.current)).LeadsTo s t :=
    h.of_opsOf (congrArg (opsOf · s) (closeLoop_blocks b v shadowed block counter next value)).symm
  exact (hedged.of_addPhiEdge ended).of_opsOf rfl

end

/-- A step leads nowhere but where it led before and to some new targets. -/
def Leads (new : Nat → Nat → Prop) (b b' : Builder) : Prop :=
  ∀ s t, b'.LeadsTo s t → b.LeadsTo s t ∨ new s t

namespace Leads

variable {pending : Nat → Prop} {new : Nat → Nat → Prop} {b b₁ b₂ : Builder}

theorem trans (h : Leads new b b₁) (h' : Leads new b₁ b₂) : Leads new b b₂ := by
  intro s t hleads
  rcases h' s t hleads with hold | hnew
  · exact h s t hold
  · exact .inr hnew

theorem mono {new' : Nat → Nat → Prop} (h : Leads new b b₁) (hnew : ∀ s t, new s t → new' s t) :
    Leads new' b b₁ :=
  fun s t hleads => (h s t hleads).imp_right (hnew s t)

/-- A step that changes no block. -/
theorem of_blocks (hblocks : b₁.blocks = b.blocks) : Leads new b b₁ :=
  fun _ _ h => .inl (h.of_opsOf (by rw [hblocks]))

theorem emit (hlt : b.current < b.blocks.length) (op : Op) :
    Leads (fun s t => s = b.current ∧ t ∈ op.successors) b (b.emit op) := by
  intro s t h
  by_cases hs : b.current = s
  · subst hs
    obtain ⟨last, hends, htarget⟩ := h
    have hlast := hends.getLast?
    rw [opsOf_emit op hlt, List.getLast?_concat] at hlast
    cases hlast
    exact .inr ⟨rfl, htarget⟩
  · exact .inl (h.of_opsOf (opsOf_emit_other op hs).symm)

theorem put (hlt : b.current < b.blocks.length) (ty : Ty) (op : Nat → Op)
    (hop : (op b.regTypes.length).successors = []) : Leads new b (b.put ty op) := by
  have counted : Leads new b (b.newReg ty).2 := of_blocks rfl
  refine counted.trans ((emit (b := (b.newReg ty).2) hlt _).mono fun s t ⟨_, ht⟩ => ?_)
  rw [hop] at ht
  cases ht

theorem appendBlock (label : String) : Leads new b (b.appendBlock label).2 :=
  fun _ _ h => .inl (h.of_opsOf (opsOf_appendBlock label).symm)

theorem jumpTo (hlt : b.current < b.blocks.length) (target next : Nat) :
    Leads (fun s t => s = b.current ∧ t = target) b (b.jumpTo target next) := by
  have jumped := emit hlt (.jump target)
  exact (jumped.mono fun s t ⟨hs, ht⟩ => ⟨hs, List.mem_singleton.mp ht⟩).trans (of_blocks rfl)

theorem branch (hlt : b.current < b.blocks.length) (cond target target' : Nat) :
    Leads (fun s t => s = b.current ∧ (t = target ∨ t = target')) b
      (b.emit (.branch cond target target')) := by
  refine (emit hlt _).mono fun s t ⟨hs, ht⟩ => ⟨hs, ?_⟩
  rcases List.mem_cons.mp ht with ht | ht
  · exact .inl ht
  · exact .inr (List.mem_singleton.mp ht)

theorem openBranches (hlt : b.current < b.blocks.length) (value : Nat) :
    Leads (fun s t => s = b.current ∧ (t = b.blocks.length ∨ t = b.blocks.length + 1)) b
      (b.openBranches value) := by
  have tested : Leads (fun s t => s = b.current ∧ (t = b.blocks.length ∨ t = b.blocks.length + 1)) b
      (b.put .bool (.truthy · value)) :=
    put hlt _ _ rfl
  have forked := ((tested.trans (appendBlock "then")).trans (appendBlock "else")).trans
    (appendBlock "ifcont")
  refine (forked.trans (branch ?_ _ _ _)).trans (of_blocks rfl)
  show b.current < _
  simp only [appendBlock_blocks_length, put_blocks_length]
  omega

theorem joinBranches (hlt : b.current < b.blocks.length) {merge : Nat} (hmerge : merge < b.blocks.length)
    (ty : Ty) (edges : List (Nat × Nat)) :
    Leads (fun s t => s = b.current ∧ t = merge) b (b.joinBranches merge ty edges) :=
  (jumpTo hlt merge merge).trans (put (by simpa using hmerge) _ _ rfl)

theorem openLoop (hlt : b.current < b.blocks.length) (v : String) (first : Nat) :
    Leads (fun s t => s = b.current ∧ t = b.blocks.length) b (b.openLoop v first) := by
  have hopened : (b.appendBlock "loop").2.current < (b.appendBlock "loop").2.blocks.length := by
    rw [appendBlock_blocks_length]
    exact Nat.lt_succ_of_lt hlt
  exact ((appendBlock "loop").trans (joinBranches hopened (by simp) .f64 [(first, b.current)])).trans
    (of_blocks rfl)

/-- Before a loop has its edge: its end leads back to its block, and behind the loop. -/
theorem branchBack (hlt : b.current < b.blocks.length) (block value : Nat) :
    Leads (fun s t => s = b.current ∧ (t = block ∨ t = b.blocks.length)) b
      (b.branchBack block value) := by
  have tested : Leads (fun s t => s = b.current ∧ (t = block ∨ t = b.blocks.length)) b
      (b.put .bool (.truthy · value)) :=
    put hlt _ _ rfl
  exact (tested.trans (appendBlock "afterloop")).trans (branch (current_lt_behindTest hlt value) _ _ _)

/-- A loop is closed by an end that leads back to its block, and behind the loop. -/
theorem closeLoop (h : b.Shaped pending) (v : String) (shadowed : Option Nat) {block : Nat}
    (counter next : Nat) {value : Nat} (hblock : block < b.blocks.length)
    (hvalue : value < b.regTypes.length) :
    Leads (fun s t => s = b.current ∧ (t = block ∨ t = b.blocks.length)) b
      (b.closeLoop v shadowed block counter next value) :=
  fun s t hleads => branchBack h.ready.current_lt block value s t (hleads.of_closeLoop h hblock hvalue)

theorem storeField (hlt : b.current < b.blocks.length) (record : String) (base value field : Nat) :
    Leads new b (b.storeField record base value field) := by
  have addressed : Leads new b (b.put (.ptr record) (.fieldAddr · base 0 field)) := put hlt _ _ rfl
  refine addressed.trans ((emit (by simpa using hlt) _).mono fun s t ⟨_, ht⟩ => ?_)
  cases ht

theorem need (t : Target) : Leads new b (b.need t) :=
  of_blocks (need_blocks b t)

end Leads

/-! ## Complete phis -/

/-- Only the first operation of a block may be a phi, and a phi has one edge from each block that leads
to it. -/
structure Complete (b : Builder) : Prop where
  lone : ∀ (i : Nat), ∀ op ∈ (opsOf b.blocks i).tail, op.isPhi = false
  sources : ∀ (i dest : Nat) (incoming : List (Nat × Nat)), .phi dest incoming ∈ opsOf b.blocks i →
    (incoming.map Prod.snd).Nodup ∧ ∀ s, b.LeadsTo s i → s ∈ incoming.map Prod.snd

namespace Complete

variable {pending : Nat → Prop} {b b' : Builder}

/-- A step that changes the operations of no block. -/
theorem of_opsOf (h : b.Complete) (hops : ∀ i, opsOf b'.blocks i = opsOf b.blocks i) :
    b'.Complete := by
  refine ⟨fun i => ?_, fun i dest incoming hphi => ?_⟩
  · rw [hops]
    exact h.lone i
  · rw [hops] at hphi
    obtain ⟨hnodup, hcovers⟩ := h.sources i dest incoming hphi
    exact ⟨hnodup, fun s hleads => hcovers s (hleads.of_opsOf (hops s).symm)⟩

theorem of_blocks (h : b.Complete) (hblocks : b'.blocks = b.blocks) : b'.Complete :=
  h.of_opsOf fun i => by rw [hblocks]

theorem mem_tail_concat {ops : List Op} {op o : Op} (h : o ∈ (ops ++ [op]).tail) :
    o ∈ ops.tail ∨ o = op := by
  cases ops with
  | nil => cases h
  | cons first rest =>
    rcases List.mem_append.mp h with h | h
    · exact .inl h
    · exact .inr (List.mem_singleton.mp h)

theorem lone_emit (h : b.Complete) (hlt : b.current < b.blocks.length) {op : Op}
    (hop : op.isPhi = false) (i : Nat) :
    ∀ o ∈ (opsOf (b.emit op).blocks i).tail, o.isPhi = false := by
  intro o ho
  by_cases hi : b.current = i
  · subst hi
    rw [opsOf_emit op hlt] at ho
    rcases mem_tail_concat ho with ho | rfl
    · exact h.lone b.current o ho
    · exact hop
  · rw [opsOf_emit_other op hi] at ho
    exact h.lone i o ho

/-- Behind an operation that is no phi, a phi lacks the edge from the current block at most, if the
operation leads to it. -/
theorem sources_emit (h : b.Complete) (hlt : b.current < b.blocks.length) {op : Op}
    (hop : op.isPhi = false) {i dest : Nat} {incoming : List (Nat × Nat)}
    (hphi : .phi dest incoming ∈ opsOf (b.emit op).blocks i) :
    .phi dest incoming ∈ opsOf b.blocks i ∧ (incoming.map Prod.snd).Nodup ∧
      ∀ s, (b.emit op).LeadsTo s i →
        s ∈ incoming.map Prod.snd ∨ s = b.current ∧ i ∈ op.successors := by
  rcases mem_opsOf_emit hphi with hold | rfl
  · obtain ⟨hnodup, hcovers⟩ := h.sources i dest incoming hold
    refine ⟨hold, hnodup, fun s hleads => ?_⟩
    rcases Leads.emit hlt op s i hleads with hleads | hnew
    · exact .inl (hcovers s hleads)
    · exact .inr hnew
  · cases hop

/-- An operation that is no phi, and leads to no block with a phi. -/
theorem emit (h : b.Complete) (hlt : b.current < b.blocks.length) (op : Op) (hop : op.isPhi = false)
    (htargets : ∀ t ∈ op.successors, ∀ o ∈ opsOf b.blocks t, o.isPhi = false) :
    (b.emit op).Complete := by
  refine ⟨h.lone_emit hlt hop, fun i dest incoming hphi => ?_⟩
  obtain ⟨hold, hnodup, hcovers⟩ := h.sources_emit hlt hop hphi
  refine ⟨hnodup, fun s hleads => ?_⟩
  rcases hcovers s hleads with hs | ⟨-, hi⟩
  · exact hs
  · cases htargets i hi _ hold

theorem put (h : b.Complete) (hlt : b.current < b.blocks.length) (ty : Ty) {op : Nat → Op}
    (hop : (op b.regTypes.length).isInner = true) : (b.put ty op).Complete := by
  have counted : (b.newReg ty).2.Complete := h.of_blocks rfl
  refine counted.emit hlt _ (Op.isPhi_of_inner hop) fun t ht => ?_
  rw [Op.successors_of_inner hop] at ht
  cases ht

/-- A phi at the start of a block, with an edge for each block that leads there. -/
theorem putPhi (h : b.Complete) (hlt : b.current < b.blocks.length) (ty : Ty)
    {incoming : List (Nat × Nat)} (hempty : opsOf b.blocks b.current = [])
    (hnodup : (incoming.map Prod.snd).Nodup)
    (hcovers : ∀ s, b.LeadsTo s b.current → s ∈ incoming.map Prod.snd) :
    (b.put ty (.phi · incoming)).Complete := by
  have hops : opsOf (b.put ty (.phi · incoming)).blocks b.current =
      [.phi b.regTypes.length incoming] := by
    have hadded := opsOf_emit (b := (b.newReg ty).2) (.phi b.regTypes.length incoming) hlt
    exact hadded.trans (by rw [show opsOf (b.newReg ty).2.blocks (b.newReg ty).2.current = [] from
      hempty, List.nil_append])
  have hold {s t : Nat} (hleads : (b.put ty (.phi · incoming)).LeadsTo s t) : b.LeadsTo s t := by
    have hsame : Leads (fun _ _ => False) b (b.put ty (.phi · incoming)) := Leads.put hlt _ _ rfl
    exact (hsame s t hleads).elim id False.elim
  refine ⟨fun i o ho => ?_, fun i dest incoming' hphi => ?_⟩
  · by_cases hi : b.current = i
    · subst hi
      rw [hops] at ho
      cases ho
    · rw [opsOf_put_other _ _ hi] at ho
      exact h.lone i o ho
  · by_cases hi : b.current = i
    · subst hi
      rw [hops] at hphi
      cases List.mem_singleton.mp hphi
      exact ⟨hnodup, fun s hleads => hcovers s (hold hleads)⟩
    · rw [opsOf_put_other _ _ hi] at hphi
      obtain ⟨hnodup', hcovers'⟩ := h.sources i dest incoming' hphi
      exact ⟨hnodup', fun s hleads => hcovers' s (hold hleads)⟩

theorem appendBlock (h : b.Complete) (label : String) : (b.appendBlock label).2.Complete :=
  h.of_opsOf fun _ => opsOf_appendBlock label

theorem jumpTo (h : b.Complete) (hlt : b.current < b.blocks.length) {target : Nat} (next : Nat)
    (hempty : opsOf b.blocks target = []) : (b.jumpTo target next).Complete := by
  refine (h.emit hlt (.jump target) rfl fun t ht o ho => ?_).of_blocks rfl
  rw [List.mem_singleton.mp ht, hempty] at ho
  cases ho

/-- Branches are joined in an empty block by a phi with an edge for each block that leads there, and one
for the block that ends here. -/
theorem joinBranches (h : b.Complete) (hlt : b.current < b.blocks.length) {merge : Nat} (ty : Ty)
    {edges : List (Nat × Nat)} (hmerge : merge < b.blocks.length) (hne : b.current ≠ merge)
    (hempty : opsOf b.blocks merge = []) (hnodup : (edges.map Prod.snd).Nodup)
    (hcurrent : b.current ∈ edges.map Prod.snd)
    (hcovers : ∀ s, b.LeadsTo s merge → s ∈ edges.map Prod.snd) :
    (b.joinBranches merge ty edges).Complete := by
  have jumped := h.jumpTo hlt merge hempty
  refine jumped.putPhi (by simpa using hmerge) ty ?_ hnodup fun s hleads => ?_
  · exact (opsOf_jumpTo merge merge hne).trans hempty
  · rcases Leads.jumpTo hlt merge merge s merge hleads with hold | ⟨rfl, -⟩
    · exact hcovers s hold
    · exact hcurrent

theorem openBranches (h : b.Complete) (hlt : b.current < b.blocks.length) (value : Nat) :
    (b.openBranches value).Complete := by
  have tested : (b.put .bool (.truthy · value)).Complete := h.put hlt .bool rfl
  have forked := ((tested.appendBlock "then").appendBlock "else").appendBlock "ifcont"
  have hempty {i : Nat} (hi : b.blocks.length ≤ i) : opsOf ((((b.put .bool
      (.truthy · value)).appendBlock "then").2.appendBlock "else").2.appendBlock "ifcont").2.blocks i =
        [] := by
    rw [opsOf_appendBlock, opsOf_appendBlock, opsOf_appendBlock]
    exact opsOf_of_length_le (by rw [put_blocks_length]; exact hi)
  refine (forked.emit ?_ (.branch b.regTypes.length b.blocks.length (b.blocks.length + 1)) rfl
    fun t ht o ho => ?_).of_blocks rfl
  · show b.current < _
    simp only [appendBlock_blocks_length, put_blocks_length]
    omega
  · rw [hempty] at ho
    · cases ho
    · rcases List.mem_cons.mp ht with rfl | ht
      · exact Nat.le_refl _
      · rw [List.mem_singleton.mp ht]
        exact Nat.le_succ _

theorem openLoop (h : b.Complete) (hb : b.Shaped pending) (v : String) (first : Nat) :
    (b.openLoop v first).Complete := by
  have hlt := hb.ready.current_lt
  have hopened : (b.appendBlock "loop").2.current < (b.appendBlock "loop").2.blocks.length := by
    rw [appendBlock_blocks_length]
    exact Nat.lt_succ_of_lt hlt
  have joined : ((b.appendBlock "loop").2.joinBranches b.blocks.length .f64
      [(first, b.current)]).Complete := by
    refine (h.appendBlock "loop").joinBranches hopened .f64 (by simp) (Nat.ne_of_lt hlt) ?_ (by simp)
      List.mem_cons_self fun s hleads => ?_
    · rw [opsOf_appendBlock]
      exact opsOf_of_length_le (Nat.le_refl _)
    · -- The block is new, so that nothing leads to it.
      have hold := hleads.of_opsOf (opsOf_appendBlock "loop").symm
      exact absurd (hb.target_lt hold) (Nat.lt_irrefl _)
  exact joined.of_blocks rfl

/-- The phi of a loop is the first operation of its block, also behind the end that leads back. -/
theorem opsOf_branchBack {block counter : Nat} (value : Nat) {edges : List (Nat × Nat)} {rest : List Op}
    (hops : opsOf b.blocks block = .phi counter edges :: rest) :
    ∃ rest', opsOf (b.branchBack block value).blocks block = .phi counter edges :: rest' := by
  have tested : opsOf b.blocks block <+: opsOf (b.put .bool (.truthy · value)).blocks block :=
    opsOf_prefix_emit (b := (b.newReg .bool).2) _
  rw [← opsOf_appendBlock (b := b.put .bool (.truthy · value)) "afterloop"] at tested
  obtain ⟨more, hmore⟩ := tested.trans
    (opsOf_prefix_emit (.branch b.regTypes.length block b.blocks.length))
  exact ⟨rest ++ more, by rw [branchBack, ← hmore, hops, List.cons_append]⟩

/-- The test of a loop, with the block behind it. -/
theorem behindTest (h : b.Complete) (hlt : b.current < b.blocks.length) (value : Nat) :
    ((b.put .bool (.truthy · value)).appendBlock "afterloop").2.Complete :=
  (h.put hlt .bool rfl).appendBlock "afterloop"

/-- With the edge from the block that leads back, the phi of a loop has all its edges. -/
theorem sources_closed (h : b.Complete) (hb : b.Shaped pending) (v : String) (shadowed : Option Nat)
    {block counter : Nat} (next : Nat) {value : Nat} {edges : List (Nat × Nat)} {rest rest' : List Op}
    (hblock : block < b.blocks.length) (hvalue : value < b.regTypes.length)
    (hops : opsOf b.blocks block = .phi counter edges :: rest)
    (hback : opsOf (b.branchBack block value).blocks block = .phi counter edges :: rest') :
    ((edges ++ [(next, b.current)]).map Prod.snd).Nodup ∧
      ∀ s, (b.closeLoop v shadowed block counter next value).LeadsTo s block →
        s ∈ (edges ++ [(next, b.current)]).map Prod.snd := by
  have hlt := hb.ready.current_lt
  have hold : .phi counter edges ∈ opsOf (b.branchBack block value).blocks block := by
    rw [hback]
    exact List.mem_cons_self
  obtain ⟨-, hnodup, hcovers⟩ :=
    (h.behindTest hlt value).sources_emit (current_lt_behindTest hlt value) rfl hold
  rw [List.map_append, List.map_singleton]
  refine ⟨List.nodup_append.mpr ⟨hnodup, List.pairwise_singleton _ _, fun s hs s' hs' heq => ?_⟩,
    fun s hleads => ?_⟩
  · -- The block that ends here did not lead anywhere before.
    rw [List.mem_singleton.mp hs'] at heq
    obtain ⟨e, he, rfl⟩ := List.mem_map.mp hs
    have hleads := hb.edges block counter edges (by rw [hops]; exact List.mem_cons_self) e he
    exact hb.ne_current hleads heq
  · rcases hcovers s (hleads.of_closeLoop hb hblock hvalue) with hs | ⟨hs, -⟩
    · exact List.mem_append_left _ hs
    · exact List.mem_append_right _ (List.mem_singleton.mpr hs)

/-- The end that leads back gives no other phi a block to take values from. -/
theorem sources_beside (h : b.Complete) (hb : b.Shaped pending) (v : String) (shadowed : Option Nat)
    {block i dest : Nat} (counter next : Nat) {value : Nat} {incoming : List (Nat × Nat)}
    (hblock : block < b.blocks.length) (hvalue : value < b.regTypes.length) (hi : block ≠ i)
    (hphi : .phi dest incoming ∈ opsOf (b.branchBack block value).blocks i) :
    (incoming.map Prod.snd).Nodup ∧
      ∀ s, (b.closeLoop v shadowed block counter next value).LeadsTo s i →
        s ∈ incoming.map Prod.snd := by
  have hlt := hb.ready.current_lt
  obtain ⟨hold, hnodup, hcovers⟩ :=
    (h.behindTest hlt value).sources_emit (current_lt_behindTest hlt value) rfl hphi
  refine ⟨hnodup, fun s hleads => ?_⟩
  rcases hcovers s (hleads.of_closeLoop hb hblock hvalue) with hs | ⟨-, htarget⟩
  · exact hs
  · rcases List.mem_cons.mp htarget with htarget | htarget
    · exact absurd htarget.symm hi
    · -- Behind the loop there is no phi.
      rw [List.mem_singleton.mp htarget, opsOf_appendBlock,
        opsOf_of_length_le (Nat.le_of_eq (put_blocks_length ..))] at hold
      cases hold

/-- A loop is closed by an end that leads back to its phi, and the edge that the phi gets for it. -/
theorem closeLoop (h : b.Complete) (hb : b.Shaped pending) (v : String) (shadowed : Option Nat)
    {block counter : Nat} (next : Nat) {value : Nat} {edges : List (Nat × Nat)} {rest : List Op}
    (hblock : block < b.blocks.length) (hvalue : value < b.regTypes.length)
    (hops : opsOf b.blocks block = .phi counter edges :: rest) :
    (b.closeLoop v shadowed block counter next value).Complete := by
  have hlone : ∀ i, ∀ o ∈ (opsOf (b.branchBack block value).blocks i).tail, o.isPhi = false :=
    (h.behindTest hb.ready.current_lt value).lone_emit
      (current_lt_behindTest hb.ready.current_lt value) rfl
  obtain ⟨rest', hback⟩ := opsOf_branchBack value hops
  have hrest : ∀ o ∈ rest', o.isPhi = false := by
    have hblockLone := hlone block
    rw [hback] at hblockLone
    exact hblockLone
  have hclosed : opsOf (b.closeLoop v shadowed block counter next value).blocks block =
      .phi counter (edges ++ [(next, b.current)]) :: rest' := by
    rw [closeLoop_blocks, opsOf_addPhiEdge, hback, addEdge, if_pos rfl]
  have hother {i : Nat} (hi : block ≠ i) :
      opsOf (b.closeLoop v shadowed block counter next value).blocks i =
        opsOf (b.branchBack block value).blocks i := by
    rw [closeLoop_blocks, opsOf_addPhiEdge_other _ _ hi]
  refine ⟨fun i o ho => ?_, fun i dest incoming hphi => ?_⟩
  · by_cases hi : block = i
    · subst hi
      rw [hclosed] at ho
      exact hrest o ho
    · rw [hother hi] at ho
      exact hlone i o ho
  · by_cases hi : block = i
    · subst hi
      rw [hclosed] at hphi
      rcases List.mem_cons.mp hphi with heq | hlate
      · cases heq
        exact h.sources_closed hb v shadowed next hblock hvalue hops hback
      · cases hrest _ hlate
    · rw [hother hi] at hphi
      exact h.sources_beside hb v shadowed counter next hblock hvalue hi hphi

theorem storeField (h : b.Complete) (hlt : b.current < b.blocks.length) (record : String)
    (base value field : Nat) : (b.storeField record base value field).Complete := by
  have addressed : (b.put (.ptr record) (.fieldAddr · base 0 field)).Complete := h.put hlt _ rfl
  exact addressed.emit (by simpa using hlt) _ rfl fun _ ht => by cases ht

theorem need (h : b.Complete) (t : Target) : (b.need t).Complete :=
  h.of_blocks (need_blocks b t)

end Complete

end Builder

/-! ## Lowered expressions -/

section

open Builder

variable {c : Context}

/-- The builders on the way through a conditional: behind its test, behind its first branch, and behind its
second. The block of the join is pending until the end. -/
structure Branching (pending : Nat → Prop) (b₁ b₂ b₃ : Builder) (value t e : Nat) : Prop where
  before : b₁.Shaped pending
  value_lt : value < b₁.regTypes.length
  opened : (b₁.openBranches value).Shaped fun i =>
    i = b₁.blocks.length + 1 ∨ i = b₁.blocks.length + 2 ∨ pending i
  first : Grown (b₁.openBranches value) b₂
  first_lt : t < b₂.regTypes.length
  between : b₂.Shaped fun i => i = b₁.blocks.length + 1 ∨ i = b₁.blocks.length + 2 ∨ pending i
  resumed : (b₂.jumpTo (b₁.blocks.length + 2) (b₁.blocks.length + 1)).Shaped fun i =>
    i = b₁.blocks.length + 2 ∨ pending i
  second : Grown (b₂.jumpTo (b₁.blocks.length + 2) (b₁.blocks.length + 1)) b₃
  second_lt : e < b₃.regTypes.length
  behind : b₃.Shaped fun i => i = b₁.blocks.length + 2 ∨ pending i

/-- The builders on the way through a loop: in front of its block, behind its body, behind its step, and
behind its test. -/
structure Looping (pending : Nat → Prop) (b₁ b₂ b₃ b₄ : Builder) (v : String)
    (first increment value : Nat) : Prop where
  before : b₁.Shaped pending
  first_lt : first < b₁.regTypes.length
  opened : (b₁.openLoop v first).Shaped pending
  ran : Grown (b₁.openLoop v first) b₂
  behindBody : b₂.Shaped pending
  stepped : Grown b₂ b₃
  behindStep : b₃.Shaped pending
  added : (b₃.put .f64 (.arith .add · b₁.regTypes.length increment)).Shaped pending
  tested : Grown (b₃.put .f64 (.arith .add · b₁.regTypes.length increment)) b₄
  value_lt : value < b₄.regTypes.length
  behindTest : b₄.Shaped pending

variable {pending : Nat → Prop} {b b₁ b₂ b₃ b₄ : Builder}

theorem Lowered.branching {condition thenBranch elseBranch : Expr} {value t e : Nat}
    (test : Lowered c condition b value b₁)
    (first : Lowered c thenBranch (b₁.openBranches value) t b₂)
    (second : Lowered c elseBranch (b₂.jumpTo (b₁.blocks.length + 2) (b₁.blocks.length + 1)) e b₃)
    (h : b.Shaped pending) : Branching pending b₁ b₂ b₃ value t e := by
  have s₁ := test.shaped h
  have hvalue := (test.grown h.ready).2
  have opened := s₁.openBranches hvalue
  have g₂ := first.grown opened.ready
  have s₂ := first.shaped opened
  have hlength := g₂.1.length_le
  rw [openBranches_blocks_length] at hlength
  have resumed : (b₂.jumpTo (b₁.blocks.length + 2) (b₁.blocks.length + 1)).Shaped
      fun i => i = b₁.blocks.length + 2 ∨ pending i := by
    refine (s₂.jumpTo (b₁.blocks.length + 2) (b₁.blocks.length + 1) (by omega)
      (.inl rfl)).1.of_resumed fun hp => ?_
    rcases hp with heq | hp
    · omega
    · have hknown := s₁.known _ hp
      omega
  have g₃ := second.grown resumed.ready
  exact ⟨s₁, hvalue, opened, g₂.1, g₂.2, s₂, resumed, g₃.1, g₃.2, second.shaped resumed⟩

theorem Lowered.looping {start body test : Expr} {stepBy : Option Expr} {v : String}
    {first result increment value : Nat} (started : Lowered c start b first b₁)
    (ran : Lowered c body (b₁.openLoop v first) result b₂)
    (stepped : LoweredStep c stepBy b₂ increment b₃)
    (tested : Lowered c test (b₃.put .f64 (.arith .add · b₁.regTypes.length increment)) value b₄)
    (h : b.Shaped pending) : Looping pending b₁ b₂ b₃ b₄ v first increment value := by
  have s₁ := started.shaped h
  have hfirst := (started.grown h.ready).2
  have opened := s₁.openLoop v hfirst
  have g₂ := (ran.grown opened.ready).1
  have s₂ := ran.shaped opened
  have g₃ := stepped.grown s₂.ready
  have s₃ := stepped.shaped s₂
  have hcounter : b₁.regTypes.length < b₃.regTypes.length := by
    have hbody := g₂.regTypes.length_le
    rw [openLoop_regTypes, List.length_append, List.length_singleton] at hbody
    have hstep := g₃.1.regTypes.length_le
    omega
  have added := s₃.putArith .add hcounter g₃.2
  have g₄ := tested.grown added.ready
  exact ⟨s₁, hfirst, opened, g₂, s₂, g₃.1, s₃, added, g₄.1, g₄.2, tested.shaped added⟩

namespace Branching

variable {value t e : Nat}

theorem length_le (h : Branching pending b₁ b₂ b₃ value t e) :
    b₁.blocks.length + 3 ≤ b₂.blocks.length ∧ b₂.blocks.length ≤ b₃.blocks.length := by
  have hfirst := h.first.length_le
  have hsecond := h.second.length_le
  rw [openBranches_blocks_length] at hfirst
  rw [jumpTo_blocks_length] at hsecond
  exact ⟨hfirst, hsecond⟩

/-- The branches end in different blocks. -/
theorem ends_ne (h : Branching pending b₁ b₂ b₃ value t e) : b₂.current ≠ b₃.current := by
  have hend : b₂.current ≠ b₁.blocks.length + 2 := fun heq => h.between.free (.inr (.inl heq))
  exact (joined_phi h.before.ready h.first hend h.second .f64 []).1

end Branching

namespace Looping

variable {v : String} {first increment value : Nat}

/-- All that is lowered in a loop is lowered behind its opening. -/
theorem inside (h : Looping pending b₁ b₂ b₃ b₄ v first increment value) :
    Grown (b₁.openLoop v first) b₄ :=
  ((h.ran.trans h.opened.ready h.stepped).trans h.opened.ready
    (.put h.behindStep.ready _ _)).trans h.opened.ready h.tested

theorem block_lt (h : Looping pending b₁ b₂ b₃ b₄ v first increment value) :
    b₁.blocks.length < b₄.blocks.length := by
  have hinside := h.inside.length_le
  rw [openLoop_blocks_length] at hinside
  exact hinside

/-- The block of a loop starts with the phi of its variable. -/
theorem block_ops (h : Looping pending b₁ b₂ b₃ b₄ v first increment value) :
    ∃ rest, opsOf b₄.blocks b₁.blocks.length =
      .phi b₁.regTypes.length [(first, b₁.current)] :: rest := by
  obtain ⟨rest, hrest⟩ := h.inside.opsOf_prefix h.opened.ready
  rw [openLoop_current, opsOf_openLoop v first h.before.ready] at hrest
  exact ⟨rest, hrest.symm⟩

end Looping

mutual

/-- Lowering an expression leads to new blocks only. -/
theorem Lowered.leads : ∀ {e : Expr} {b b' : Builder} {r : Nat} {pending : Nat → Prop},
    Lowered c e b r b' → b.Shaped pending → Leads (fun _ t => b.blocks.length ≤ t) b b'
  | _, _, _, _, _, .num, h => .put h.ready.current_lt _ _ rfl
  | _, _, _, _, _, .var _, _ => .of_blocks rfl
  | _, _, _, _, _, @Lowered.binary _ _ _ kind _ _ b b₁ b₂ l r first second _ _ _, h => by
    have g₁ := (first.grown h.ready).1
    have s₁ := first.shaped h
    have hsecond := (second.leads s₁).mono fun _ _ ht => Nat.le_trans g₁.length_le ht
    exact ((first.leads h).trans hsecond).trans (.put (second.grown s₁.ready).1.current_lt _ _ rfl)
  | _, _, _, _, _, @Lowered.call _ _ _ _ target b b₁ regs _ _ given, h => by
    have g₁ := (given.grown h.ready).1
    exact ((given.leads h).trans (.need target)).trans (.put (by simpa using g₁.current_lt) _ _ rfl)
  | _, _, _, _, pending, @Lowered.cond _ _ _ _ _ b b₁ b₂ b₃ value t e test _ first second _, h => by
    have w := Lowered.branching test first second h
    have long := (test.grown h.ready).1.length_le
    obtain ⟨long₂, long₃⟩ := w.length_le
    have opened := (test.leads h).trans ((Leads.openBranches w.before.ready.current_lt value).mono
      fun _ _ ⟨_, ht⟩ => by omega)
    have behindFirst := opened.trans ((first.leads w.opened).mono fun _ _ ht => by
      rw [openBranches_blocks_length] at ht; omega)
    have jumped := behindFirst.trans ((Leads.jumpTo w.between.ready.current_lt
      (b₁.blocks.length + 2) (b₁.blocks.length + 1)).mono fun _ _ ⟨_, ht⟩ => by omega)
    have behindSecond := jumped.trans ((second.leads w.resumed).mono fun _ _ ht => by
      rw [jumpTo_blocks_length] at ht; omega)
    exact behindSecond.trans ((Leads.joinBranches w.behind.ready.current_lt (by omega) _ _).mono
      fun _ _ ⟨_, ht⟩ => by omega)
  | _, _, _, _, pending, @Lowered.loop _ _ v _ _ _ _ b b₁ b₂ b₃ b₄ _ first _ increment value started _
      ran stepped tested _ closed, h => by
    have w := Lowered.looping started ran stepped tested h
    have long := (started.grown h.ready).1.length_le
    have hran := w.ran.length_le
    have hstepped := w.stepped.length_le
    have htested := w.tested.length_le
    rw [openLoop_blocks_length] at hran
    rw [put_blocks_length] at htested
    have opened := (started.leads h).trans ((Leads.openLoop w.before.ready.current_lt v first).mono
      fun _ _ ⟨_, ht⟩ => by omega)
    have behindBody := opened.trans ((ran.leads w.opened).mono fun _ _ ht => by
      rw [openLoop_blocks_length] at ht; omega)
    have behindStep := behindBody.trans ((stepped.leads w.behindBody).mono fun _ _ ht => by omega)
    have added := behindStep.trans (.put w.behindStep.ready.current_lt .f64
      (.arith .add · b₁.regTypes.length increment) rfl)
    have behindTest := added.trans ((tested.leads w.added).mono fun _ _ ht => by
      rw [put_blocks_length] at ht; omega)
    subst closed
    have hclosed := behindTest.trans ((Leads.closeLoop w.behindTest v (b₁.lookup? v)
      b₁.regTypes.length b₃.regTypes.length w.block_lt w.value_lt).mono fun _ _ ⟨_, ht⟩ => by omega)
    exact hclosed.trans (.put (by simp) _ _ rfl)
  | _, _, _, _, _, .alloc _, h => .put h.ready.current_lt _ _ rfl
  | _, _, _, _, _, .construct storage _ _ filled, h => by
    have g₁ := storage.grown h.ready
    have hfilled := (filled.leads (storage.shaped h) g₁.2).mono fun _ _ ht =>
      Nat.le_trans g₁.1.length_le ht
    exact (storage.leads h).trans hfilled

theorem LoweredArgs.leads : ∀ {es : List Expr} {b b' : Builder} {regs : List Nat}
    {pending : Nat → Prop}, LoweredArgs c es b regs b' → b.Shaped pending →
      Leads (fun _ t => b.blocks.length ≤ t) b b'
  | _, _, _, _, _, .nil, _ => .of_blocks rfl
  | _, _, _, _, _, .cons head _ tail, h => by
    have htail := (tail.leads (head.shaped h)).mono fun _ _ ht =>
      Nat.le_trans (head.grown h.ready).1.length_le ht
    exact (head.leads h).trans htail

theorem LoweredStep.leads : ∀ {stepBy : Option Expr} {b b' : Builder} {r : Nat}
    {pending : Nat → Prop}, LoweredStep c stepBy b r b' → b.Shaped pending →
      Leads (fun _ t => b.blocks.length ≤ t) b b'
  | _, _, _, _, _, .one, h => .put h.ready.current_lt _ _ rfl
  | _, _, _, _, _, .given value _, h => value.leads h

theorem LoweredFields.leads : ∀ {base width : Nat} {record : String} {fields : List (Nat × Expr)}
    {b b' : Builder} {pending : Nat → Prop}, LoweredFields c base record width fields b b' →
      b.Shaped pending → base < b.regTypes.length → Leads (fun _ t => b.blocks.length ≤ t) b b'
  | _, _, _, _, _, _, _, .nil, _, _ => .of_blocks rfl
  | _, _, _, _, _, _, _, @LoweredFields.cons _ base _ record i _ _ b b₁ _ value _ head _ tail, h,
      hbase => by
    have g₁ := head.grown h.ready
    have hbase₁ := Nat.lt_of_lt_of_le hbase g₁.1.regTypes.length_le
    have g₂ := Grown.storeField (head.shaped h).ready record base value i
    have stored : (b₁.storeField record base value i).Shaped _ :=
      (head.shaped h).storeField i hbase₁ g₁.2
    have htail := (tail.leads stored (Nat.lt_of_lt_of_le hbase₁ g₂.regTypes.length_le)).mono
      fun _ _ ht => Nat.le_trans (Nat.le_trans g₁.1.length_le g₂.length_le) ht
    exact ((head.leads h).trans (.storeField g₁.1.current_lt record base value i)).trans htail

end

/-- Nothing but the ends of the branches leads to the block in which they are joined. -/
theorem Branching.leadsTo_join {value t e : Nat} (h : Branching pending b₁ b₂ b₃ value t e)
    (hfirst : Leads (fun _ t => (b₁.openBranches value).blocks.length ≤ t) (b₁.openBranches value) b₂)
    (hsecond : Leads (fun _ t => (b₂.jumpTo (b₁.blocks.length + 2)
      (b₁.blocks.length + 1)).blocks.length ≤ t)
      (b₂.jumpTo (b₁.blocks.length + 2) (b₁.blocks.length + 1)) b₃) {s : Nat}
    (hleads : b₃.LeadsTo s (b₁.blocks.length + 2)) : s = b₂.current := by
  have long := h.length_le
  rw [openBranches_blocks_length] at hfirst
  rw [jumpTo_blocks_length] at hsecond
  rcases hsecond s _ hleads with hjumped | hnew
  · rcases Leads.jumpTo h.between.ready.current_lt _ _ s _ hjumped with hbetween | ⟨hs, -⟩
    · rcases hfirst s _ hbetween with hopened | hnew
      · rcases Leads.openBranches h.before.ready.current_lt value s _ hopened with hbefore | ⟨-, ht⟩
        · have hlt := h.before.target_lt hbefore
          omega
        · omega
      · omega
    · exact hs
  · omega

mutual

/-- Lowering an expression keeps phis complete. -/
theorem Lowered.complete : ∀ {e : Expr} {b b' : Builder} {r : Nat} {pending : Nat → Prop},
    Lowered c e b r b' → b.Shaped pending → b.Complete → b'.Complete
  | _, _, _, _, _, .num, hb, h => h.put hb.ready.current_lt _ rfl
  | _, _, _, _, _, .var _, _, h => h
  | _, _, _, _, _, @Lowered.binary _ _ _ kind _ _ b b₁ b₂ l r first second _ _ _, hb, h => by
    have s₁ := first.shaped hb
    exact (second.complete s₁ (first.complete hb h)).put (second.shaped s₁).ready.current_lt _ rfl
  | _, _, _, _, _, @Lowered.call _ _ _ _ target b b₁ regs _ _ given, hb, h =>
    ((given.complete hb h).need target).put ((given.shaped hb).need target).ready.current_lt _ rfl
  | _, _, _, _, pending, @Lowered.cond _ _ _ _ _ b b₁ b₂ b₃ value t e test _ first second _, hb, h => by
    have w := Lowered.branching test first second hb
    obtain ⟨long₂, long₃⟩ := w.length_le
    have opened := (test.complete hb h).openBranches w.before.ready.current_lt value
    have jumped := (first.complete w.opened opened).jumpTo w.between.ready.current_lt
      (b₁.blocks.length + 1) (w.between.waiting (b₁.blocks.length + 2) (.inr (.inl rfl)))
    refine (second.complete w.resumed jumped).joinBranches w.behind.ready.current_lt _ (by omega)
      (fun heq => w.behind.free (.inl heq)) (w.behind.waiting _ (.inl rfl)) ?_ (by simp)
      fun s hleads => ?_
    · simpa using w.ends_ne
    · rw [w.leadsTo_join (first.leads w.opened) (second.leads w.resumed) hleads]
      exact List.mem_cons_self
  | _, _, _, _, pending, @Lowered.loop _ _ v _ _ _ _ b b₁ b₂ b₃ b₄ _ first _ increment value started _
      ran stepped tested _ closed, hb, h => by
    have w := Lowered.looping started ran stepped tested hb
    have opened := (started.complete hb h).openLoop w.before v first
    have behindBody := ran.complete w.opened opened
    have behindStep := stepped.complete w.behindBody behindBody
    have added : (b₃.put .f64 (.arith .add · b₁.regTypes.length increment)).Complete :=
      behindStep.put w.behindStep.ready.current_lt _ rfl
    obtain ⟨rest, hops⟩ := w.block_ops
    have behindTest := tested.complete w.added added
    subst closed
    have behind := behindTest.closeLoop w.behindTest v (b₁.lookup? v) b₃.regTypes.length w.block_lt
      w.value_lt hops
    exact behind.put (by simp) _ rfl
  | _, _, _, _, _, .alloc _, hb, h => h.put hb.ready.current_lt _ rfl
  | _, _, _, _, _, .construct storage _ _ filled, hb, h =>
    filled.complete (storage.shaped hb) (storage.complete hb h) (storage.grown hb.ready).2

theorem LoweredArgs.complete : ∀ {es : List Expr} {b b' : Builder} {regs : List Nat}
    {pending : Nat → Prop}, LoweredArgs c es b regs b' → b.Shaped pending → b.Complete → b'.Complete
  | _, _, _, _, _, .nil, _, h => h
  | _, _, _, _, _, .cons head _ tail, hb, h => tail.complete (head.shaped hb) (head.complete hb h)

theorem LoweredStep.complete : ∀ {stepBy : Option Expr} {b b' : Builder} {r : Nat}
    {pending : Nat → Prop}, LoweredStep c stepBy b r b' → b.Shaped pending → b.Complete → b'.Complete
  | _, _, _, _, _, .one, hb, h => h.put hb.ready.current_lt _ rfl
  | _, _, _, _, _, .given value _, hb, h => value.complete hb h

theorem LoweredFields.complete : ∀ {base width : Nat} {record : String} {fields : List (Nat × Expr)}
    {b b' : Builder} {pending : Nat → Prop}, LoweredFields c base record width fields b b' →
      b.Shaped pending → b.Complete → base < b.regTypes.length → b'.Complete
  | _, _, _, _, _, _, _, .nil, _, h, _ => h
  | _, _, _, _, _, _, _, @LoweredFields.cons _ base _ record i _ _ b b₁ _ value _ head _ tail, hb, h,
      hbase => by
    have g₁ := head.grown hb.ready
    have s₁ := head.shaped hb
    have hbase₁ := Nat.lt_of_lt_of_le hbase g₁.1.regTypes.length_le
    have stored := (head.complete hb h).storeField g₁.1.current_lt record base value i
    have g₂ := Grown.storeField s₁.ready record base value i
    exact tail.complete (s₁.storeField i hbase₁ g₁.2) stored
      (Nat.lt_of_lt_of_le hbase₁ g₂.regTypes.length_le)

end

end

end PoseLang
