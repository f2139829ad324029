import PoseLang.Proofs.Lowering.Filled
import PoseLang.Proofs.Lowering.Predecessors

/-!
# Registers are read where they have been filled

A register is filled in one place, and read in others; on every way to where it is read the place has to
come first. To say so for all ways at once, each block is given the registers that are available where
it starts (`Builder.Assigned`). At the entry these are the parameters. What is available in a block has
to be live at the end of every block that leads to it, that is, available there too or filled in it;
and operations read what is available in their block or filled in front of them, phis what is live at
the end of the block that an edge comes from.

Blocks that are opened get what is live at that point (`Builder.opened`). That suffices: the branches of
a conditional and their join have available what was live behind the test, and so have the block of a
loop and what comes behind it, each at its own point. What is live stays live while something is lowered
(`Builder.Flows`), also where the current block moves, so that the end of a branch has live what its
join needs, and the end of a loop what its block needs.
-/

namespace PoseLang

/-- The registers that some operations fill. -/
def Op.dests (ops : List Op) : List Nat :=
  ops.filterMap Op.dest?

namespace Builder

/-- A register is available where a block starts, or filled in it. -/
def Live (avail : Nat → Nat → Prop) (b : Builder) (i reg : Nat) : Prop :=
  avail i reg ∨ reg ∈ Op.dests (opsOf b.blocks i)

/-- Registers are read where they are available or have been filled, and available in a block only if
they are live at the end of all blocks that lead to it. -/
structure Assigned (n : Nat) (avail : Nat → Nat → Prop) (b : Builder) : Prop where
  entry : ∀ reg, avail 0 reg → reg < n
  flow : ∀ s t, b.LeadsTo s t → ∀ reg, avail t reg → b.Live avail s reg
  reads : ∀ (i : Nat) (before after : List Op) (op : Op), opsOf b.blocks i = before ++ op :: after →
    op.isPhi = false → ∀ reg ∈ op.operands, avail i reg ∨ reg ∈ Op.dests before
  edges : ∀ (i dest : Nat) (incoming : List (Nat × Nat)), .phi dest incoming ∈ opsOf b.blocks i →
    ∀ e ∈ incoming, b.Live avail e.2 e.1

/-- The registers that names stand for are live. -/
def Names (avail : Nat → Nat → Prop) (b : Builder) : Prop :=
  ∀ name reg, b.lookup? name = some reg → b.Live avail b.current reg

/-- What is available if new blocks are opened here: in them, all that is live. -/
def opened (b : Builder) (avail : Nat → Nat → Prop) (i reg : Nat) : Prop :=
  if i < b.blocks.length then avail i reg else b.Live avail b.current reg

/-- On the way from one builder to another, blocks keep what is available in them, and what is live stays
live. -/
structure Flows (n : Nat) (avail avail' : Nat → Nat → Prop) (b b' : Builder) : Prop where
  same : ∀ i < b.blocks.length, avail' i = avail i
  assigned : b'.Assigned n avail'
  live : ∀ reg, b.Live avail b.current reg → b'.Live avail' b'.current reg

section

variable {avail avail' : Nat → Nat → Prop} {b b' : Builder} {i reg n : Nat}

theorem opened_of_lt (h : i < b.blocks.length) : b.opened avail i = avail i := by
  funext reg
  rw [opened, if_pos h]

theorem opened_of_le (h : b.blocks.length ≤ i) : b.opened avail i = b.Live avail b.current := by
  funext reg
  rw [opened, if_neg (Nat.not_lt_of_le h)]

theorem Live.mono (h : b.Live avail i reg) (havail : avail' i = avail i)
    (hops : opsOf b.blocks i <+: opsOf b'.blocks i) : b'.Live avail' i reg := by
  rcases h with h | h
  · exact .inl (havail ▸ h)
  · exact .inr (List.mem_filterMap.mpr ((List.mem_filterMap.mp h).imp fun op hop =>
      ⟨hops.subset hop.1, hop.2⟩))

theorem Live.of_opsOf (h : b.Live avail i reg) (havail : avail' i = avail i)
    (hops : opsOf b'.blocks i = opsOf b.blocks i) : b'.Live avail' i reg := by
  rw [Live, havail, hops]
  exact h

theorem Live.emit (h : b.Live avail i reg) (op : Op) : (b.emit op).Live avail i reg :=
  h.mono rfl (opsOf_prefix_emit op)

/-- The register that an operation fills is live behind it. -/
theorem live_emit {op : Op} (hlt : b.current < b.blocks.length) (hdest : op.dest? = some reg) :
    (b.emit op).Live avail b.current reg := by
  refine .inr (List.mem_filterMap.mpr ⟨op, ?_, hdest⟩)
  rw [opsOf_emit op hlt]
  exact List.mem_append_right _ List.mem_cons_self

theorem Live.put (h : b.Live avail i reg) (ty : Ty) (op : Nat → Op) : (b.put ty op).Live avail i reg :=
  Live.emit (b := (b.newReg ty).2) h (op b.regTypes.length)

theorem live_put (ty : Ty) (op : Nat → Op) (hlt : b.current < b.blocks.length)
    (hdest : (op b.regTypes.length).dest? = some b.regTypes.length) :
    (b.put ty op).Live avail b.current b.regTypes.length :=
  live_emit (b := (b.newReg ty).2) hlt hdest

/-- What is live at the end of a block stays so while something is lowered. -/
theorem Live.grown (h : b.Live avail i reg) (g : Grown b b') (hb : b.Ready) (hi : i < b.blocks.length)
    (havail : avail' i = avail i) : b'.Live avail' i reg := by
  by_cases hcurrent : i = b.current
  · subst hcurrent
    exact h.mono havail (g.opsOf_prefix hb)
  · exact h.of_opsOf havail (g.opsOf hi hcurrent)

end

namespace Assigned

variable {pending : Nat → Prop} {n : Nat} {avail avail' : Nat → Nat → Prop} {b b' : Builder}

/-- What is available in blocks that there are not makes no difference. -/
theorem congr (h : b.Assigned n avail) (hb : b.Shaped pending)
    (hsame : ∀ i < b.blocks.length, avail' i = avail i) : b.Assigned n avail' := by
  have keep {i reg : Nat} (hi : i < b.blocks.length) (hlive : b.Live avail i reg) :
      b.Live avail' i reg :=
    hlive.of_opsOf (hsame i hi) rfl
  refine ⟨fun reg hreg => ?_, fun s t hleads reg hreg => ?_, fun i before after op hops hop reg hreg => ?_,
    fun i dest incoming hphi e he => ?_⟩
  · rw [hsame 0 (Nat.lt_of_le_of_lt (Nat.zero_le _) hb.ready.current_lt)] at hreg
    exact h.entry reg hreg
  · rw [hsame t (hb.target_lt hleads)] at hreg
    exact keep hleads.lt (h.flow s t hleads reg hreg)
  · have hi : i < b.blocks.length := by
      apply Nat.lt_of_not_le
      intro hle
      rw [opsOf_of_length_le hle] at hops
      cases before <;> cases hops
    rw [hsame i hi]
    exact h.reads i before after op hops hop reg hreg
  · exact keep (hb.edges i dest incoming hphi e he).lt (h.edges i dest incoming hphi e he)

/-- A step that changes the operations of no block. -/
theorem of_opsOf (h : b.Assigned n avail) (hops : ∀ i, opsOf b'.blocks i = opsOf b.blocks i) :
    b'.Assigned n avail := by
  have keep {i reg : Nat} (hlive : b.Live avail i reg) : b'.Live avail i reg :=
    hlive.of_opsOf rfl (hops i)
  refine ⟨h.entry, fun s t hleads reg hreg => ?_, fun i before after op hi => ?_,
    fun i dest incoming hphi e he => ?_⟩
  · exact keep (h.flow s t (hleads.of_opsOf (hops s).symm) reg hreg)
  · rw [hops] at hi
    exact h.reads i before after op hi
  · rw [hops] at hphi
    exact keep (h.edges i dest incoming hphi e he)

theorem of_blocks (h : b.Assigned n avail) (hblocks : b'.blocks = b.blocks) : b'.Assigned n avail :=
  h.of_opsOf fun i => by rw [hblocks]

/-- Where an operation stands among operations of which the last is new: among the old ones, or last. -/
theorem split_concat {ops before after : List Op} {op o : Op} (h : ops ++ [op] = before ++ o :: after) :
    (∃ rest, ops = before ++ o :: rest) ∨ before = ops ∧ o = op := by
  rcases after.eq_nil_or_concat with rfl | ⟨rest, last, rfl⟩
  · obtain ⟨hbefore, hlast⟩ := List.append_inj' h rfl
    cases hlast
    exact .inr ⟨hbefore.symm, rfl⟩
  · rw [List.concat_eq_append, ← List.cons_append, ← List.append_assoc] at h
    exact .inl ⟨rest, (List.append_inj' h rfl).1⟩

/-- An operation that reads live registers, and leads to blocks in which nothing is available but what is
live. A phi reads what is live at the ends of the blocks that it takes values from. -/
theorem emit (h : b.Assigned n avail) (hlt : b.current < b.blocks.length) (op : Op)
    (hreads : op.isPhi = false → ∀ reg ∈ op.operands, b.Live avail b.current reg)
    (hedges : ∀ dest incoming, op = .phi dest incoming → ∀ e ∈ incoming, b.Live avail e.2 e.1)
    (htargets : ∀ t ∈ op.successors, ∀ reg, avail t reg → b.Live avail b.current reg) :
    (b.emit op).Assigned n avail := by
  refine ⟨h.entry, fun s t hleads reg hreg => ?_, fun i before after o hops ho reg hreg => ?_,
    fun i dest incoming hphi e he => ?_⟩
  · rcases Leads.emit hlt op s t hleads with hold | ⟨rfl, ht⟩
    · exact (h.flow s t hold reg hreg).emit op
    · exact (htargets t ht reg hreg).emit op
  · by_cases hi : b.current = i
    · subst hi
      rw [opsOf_emit op hlt] at hops
      rcases split_concat hops with ⟨rest, hold⟩ | ⟨rfl, rfl⟩
      · exact h.reads b.current before rest o hold ho reg hreg
      · exact hreads ho reg hreg
    · rw [opsOf_emit_other op hi] at hops
      exact h.reads i before after o hops ho reg hreg
  · rcases mem_opsOf_emit hphi with hold | hnew
    · exact (h.edges i dest incoming hold e he).emit op
    · exact (hedges dest incoming hnew.symm e he).emit op

theorem put (h : b.Assigned n avail) (hlt : b.current < b.blocks.length) (ty : Ty) {op : Nat → Op}
    (hop : (op b.regTypes.length).isInner = true)
    (hreads : ∀ reg ∈ (op b.regTypes.length).operands, b.Live avail b.current reg) :
    (b.put ty op).Assigned n avail := by
  have counted : (b.newReg ty).2.Assigned n avail := h.of_blocks rfl
  refine counted.emit hlt _ (fun _ => hreads) (fun dest incoming heq => ?_) fun t ht => ?_
  · rw [heq] at hop
    cases hop
  · rw [Op.successors_of_inner hop] at ht
    cases ht

theorem appendBlock (h : b.Assigned n avail) (label : String) :
    (b.appendBlock label).2.Assigned n avail :=
  h.of_opsOf fun _ => opsOf_appendBlock label

theorem jumpTo (h : b.Assigned n avail) (hlt : b.current < b.blocks.length) (target next : Nat)
    (htarget : ∀ reg, avail target reg → b.Live avail b.current reg) :
    (b.jumpTo target next).Assigned n avail := by
  refine (h.emit hlt (.jump target) (fun _ _ hreg => by cases hreg) (fun _ _ heq => by cases heq)
    fun t ht => ?_).of_blocks rfl
  rw [List.mem_singleton.mp ht]
  exact htarget

theorem branch (h : b.Assigned n avail) (hlt : b.current < b.blocks.length) {cond : Nat}
    (target target' : Nat) (hcond : b.Live avail b.current cond)
    (htarget : ∀ reg, avail target reg → b.Live avail b.current reg)
    (htarget' : ∀ reg, avail target' reg → b.Live avail b.current reg) :
    (b.emit (.branch cond target target')).Assigned n avail := by
  refine h.emit hlt _ (fun _ reg hreg => ?_) (fun _ _ heq => by cases heq) fun t ht => ?_
  · rw [List.mem_singleton.mp hreg]
    exact hcond
  · rcases List.mem_cons.mp ht with rfl | ht
    · exact htarget
    · rw [List.mem_singleton.mp ht]
      exact htarget'

/-- A number is tested. -/
theorem test (h : b.Assigned n avail) (hlt : b.current < b.blocks.length) {value : Nat}
    (hvalue : b.Live avail b.current value) : (b.put .bool (.truthy · value)).Assigned n avail := by
  refine h.put hlt _ rfl fun reg hreg => ?_
  rw [List.mem_singleton.mp hreg]
  exact hvalue

theorem putArith (h : b.Assigned n avail) (hlt : b.current < b.blocks.length) (kind : Arith)
    {left right : Nat} (hleft : b.Live avail b.current left) (hright : b.Live avail b.current right) :
    (b.put .f64 (.arith kind · left right)).Assigned n avail := by
  refine h.put hlt _ rfl fun reg hreg => ?_
  rcases List.mem_cons.mp hreg with rfl | hreg
  · exact hleft
  · rw [List.mem_singleton.mp hreg]
    exact hright

theorem storeField (h : b.Assigned n avail) (hlt : b.current < b.blocks.length) (record : String)
    {base value : Nat} (field : Nat) (hbase : b.Live avail b.current base)
    (hvalue : b.Live avail b.current value) : (b.storeField record base value field).Assigned n avail := by
  have addressed : (b.put (.ptr record) (.fieldAddr · base 0 field)).Assigned n avail := by
    refine h.put hlt _ rfl fun reg hreg => ?_
    rw [List.mem_singleton.mp hreg]
    exact hbase
  refine addressed.emit (by simpa using hlt) _ (fun _ reg hreg => ?_) (fun _ _ heq => by cases heq)
    fun _ ht => by cases ht
  rcases List.mem_cons.mp hreg with rfl | hreg
  · exact hvalue.put _ _
  · rw [List.mem_singleton.mp hreg]
    exact live_put _ _ hlt rfl

/-- What is available in blocks that are opened here is live here. -/
theorem openHere (h : b.Assigned n avail) (hb : b.Shaped pending) : b.Assigned n (b.opened avail) :=
  h.congr hb fun _ hi => opened_of_lt hi

theorem openBranches (h : b.Assigned n avail) (hb : b.Shaped pending) {value : Nat}
    (hvalue : b.Live avail b.current value) :
    (b.openBranches value).Assigned n (b.opened avail) := by
  have hlt := hb.ready.current_lt
  have here {reg : Nat} (hlive : b.Live avail b.current reg) :
      (b.put .bool (.truthy · value)).Live (b.opened avail) b.current reg :=
    Live.put (hlive.of_opsOf (opened_of_lt hlt) rfl) _ _
  have tested := (h.openHere hb).test hlt (hvalue.of_opsOf (opened_of_lt hlt) rfl)
  have forked := ((tested.appendBlock "then").appendBlock "else").appendBlock "ifcont"
  have hforked {reg : Nat} (hlive : (b.put .bool (.truthy · value)).Live (b.opened avail) b.current reg) :
      ((((b.put .bool (.truthy · value)).appendBlock "then").2.appendBlock "else").2.appendBlock
        "ifcont").2.Live (b.opened avail) b.current reg := by
    refine hlive.of_opsOf rfl ?_
    rw [opsOf_appendBlock, opsOf_appendBlock, opsOf_appendBlock]
  refine (forked.branch ?_ b.blocks.length (b.blocks.length + 1) (hforked (live_put _ _ hlt rfl))
    (fun reg hreg => hforked (here ?_)) fun reg hreg => hforked (here ?_)).of_blocks rfl
  · show b.current < _
    simp only [appendBlock_blocks_length, put_blocks_length]
    omega
  · rw [opened_of_le (Nat.le_refl _)] at hreg
    exact hreg
  · rw [opened_of_le (Nat.le_succ _)] at hreg
    exact hreg

theorem joinBranches (h : b.Assigned n avail) (hlt : b.current < b.blocks.length) {merge : Nat}
    (hmerge : merge < b.blocks.length) (ty : Ty) {edges : List (Nat × Nat)}
    (hflow : ∀ reg, avail merge reg → b.Live avail b.current reg)
    (hedges : ∀ e ∈ edges, b.Live avail e.2 e.1) :
    (b.joinBranches merge ty edges).Assigned n avail := by
  have jumped : ((b.jumpTo merge merge).newReg ty).2.Assigned n avail :=
    (h.jumpTo hlt merge merge hflow).of_blocks rfl
  refine jumped.emit (show merge < _ by rw [newReg_blocks, jumpTo_blocks_length]; exact hmerge) _
    (fun hop => by cases hop) (fun dest incoming heq => ?_) fun _ ht => by cases ht
  cases heq
  exact fun e he => Live.emit (b := b) (hedges e he) (.jump merge)

theorem openLoop (h : b.Assigned n avail) (hb : b.Shaped pending) (v : String) {first : Nat}
    (hfirst : b.Live avail b.current first) : (b.openLoop v first).Assigned n (b.opened avail) := by
  have hlt := hb.ready.current_lt
  have here {reg : Nat} (hlive : b.Live avail b.current reg) :
      (b.appendBlock "loop").2.Live (b.opened avail) b.current reg := 
    hlive.of_opsOf (opened_of_lt hlt) (opsOf_appendBlock "loop")
  have joined : ((b.appendBlock "loop").2.joinBranches b.blocks.length .f64
      [(first, b.current)]).Assigned n (b.opened avail) := by
    refine ((h.openHere hb).appendBlock "loop").joinBranches ?_ (by simp) .f64 (fun reg hreg => ?_)
      fun e he => ?_
    · rw [appendBlock_blocks_length]
      exact Nat.lt_succ_of_lt hlt
    · rw [opened_of_le (Nat.le_refl _)] at hreg
      exact here hreg
    · rw [List.mem_singleton.mp he]
      exact here hfirst
  exact joined.of_blocks rfl

/-- An operation that is no phi stands where it stood when a phi gets an edge more. -/
theorem split_addEdge {dest : Nat} {edge : Nat × Nat} (ops : List Op) :
    ∀ (before after : List Op) (op : Op), addEdge dest edge ops = before ++ op :: after →
      op.isPhi = false → ∃ before' after', ops = before' ++ op :: after' ∧
        Op.dests before' = Op.dests before := by
  fun_induction addEdge dest edge ops with
  | case1 =>
    intro before after op h
    cases before <;> cases h
  | case2 incoming ops =>
    intro before after op h hop
    cases before with
    | nil =>
      cases h
      cases hop
    | cons first before =>
      cases h
      exact ⟨.phi dest incoming :: before, after, rfl, rfl⟩
  | case3 d incoming ops hne ih =>
    intro before after op h hop
    cases before with
    | nil =>
      cases h
      cases hop
    | cons first before =>
      obtain ⟨rfl, hrest⟩ := List.cons.inj h
      obtain ⟨before', after', hops, hdests⟩ := ih before after op hrest hop
      exact ⟨.phi d incoming :: before', after', by rw [hops, List.cons_append],
        congrArg (d :: ·) hdests⟩
  | case4 o ops hne ih =>
    intro before after op h hop
    cases before with
    | nil =>
      cases h
      exact ⟨[], ops, rfl, rfl⟩
    | cons first before =>
      obtain ⟨rfl, hrest⟩ := List.cons.inj h
      obtain ⟨before', after', hops, hdests⟩ := ih before after op hrest hop
      refine ⟨o :: before', after', by rw [hops, List.cons_append], ?_⟩
      have hfilled : before'.filterMap Op.dest? = before.filterMap Op.dest? := hdests
      rw [Op.dests, Op.dests, List.filterMap_cons, List.filterMap_cons, hfilled]

/-- An edge more for a phi, of a register that is live at the end of the block that it comes from. -/
theorem addPhiEdge (h : b.Assigned n avail) (block dest : Nat) (edge : Nat × Nat)
    (hleads : ∀ s t, (b.addPhiEdge block dest edge).LeadsTo s t → b.LeadsTo s t)
    (hedge : b.Live avail edge.2 edge.1) : (b.addPhiEdge block dest edge).Assigned n avail := by
  have hdests (i : Nat) : Op.dests (opsOf (b.addPhiEdge block dest edge).blocks i) =
      Op.dests (opsOf b.blocks i) :=
    opsOf_addPhiEdge_of (p := (Op.dests · = Op.dests (opsOf b.blocks i))) rfl
      fun hops => (filterMap_addEdge dest edge _).trans hops
  have keep {i reg : Nat} (hlive : b.Live avail i reg) :
      (b.addPhiEdge block dest edge).Live avail i reg := by
    rw [Live, hdests]
    exact hlive
  refine ⟨h.entry, fun s t hst reg hreg => keep (h.flow s t (hleads s t hst) reg hreg),
    fun i before after op hops hop reg hreg => ?_, fun i d incoming hphi e he => ?_⟩
  · by_cases hi : block = i
    · subst hi
      rw [opsOf_addPhiEdge] at hops
      obtain ⟨before', after', hold, hbefore⟩ := split_addEdge _ before after op hops hop
      rw [← hbefore]
      exact h.reads block before' after' op hold hop reg hreg
    · rw [opsOf_addPhiEdge_other dest edge hi] at hops
      exact h.reads i before after op hops hop reg hreg
  · rcases mem_opsOf_addPhiEdge hphi with hold | ⟨-, incoming', hold, heq⟩
    · exact keep (h.edges i d incoming hold e he)
    · cases heq
      rcases List.mem_append.mp he with he | he
      · exact keep (h.edges i dest incoming' hold e he)
      · rw [List.mem_singleton.mp he]
        exact keep hedge

/-- A loop is closed where all is live that is available in its block. -/
theorem closeLoop (h : b.Assigned n avail) (hb : b.Shaped pending) (v : String)
    (shadowed : Option Nat) {block : Nat} (counter : Nat) {next value : Nat}
    (hblock : block < b.blocks.length) (hvalue : value < b.regTypes.length)
    (hlive : b.Live avail b.current value) (hnext : b.Live avail b.current next)
    (hback : ∀ reg, avail block reg → b.Live avail b.current reg) :
    (b.closeLoop v shadowed block counter next value).Assigned n (b.opened avail) := by
  have hlt := hb.ready.current_lt
  have here {reg : Nat} (hreg : b.Live avail b.current reg) :
      ((b.put .bool (.truthy · value)).appendBlock "afterloop").2.Live (b.opened avail) b.current
        reg :=
    (Live.put (hreg.of_opsOf (opened_of_lt hlt) rfl) .bool (.truthy · value)).of_opsOf rfl
      (opsOf_appendBlock "afterloop")
  have htest : ((b.put .bool (.truthy · value)).appendBlock "afterloop").2.Live (b.opened avail)
      b.current b.regTypes.length :=
    (live_put (b := b) .bool (.truthy · value) hlt rfl).of_opsOf rfl (opsOf_appendBlock "afterloop")
  have tested := (h.openHere hb).test hlt (hlive.of_opsOf (opened_of_lt hlt) rfl)
  have branched : (b.branchBack block value).Assigned n (b.opened avail) := by
    refine (tested.appendBlock "afterloop").branch (current_lt_behindTest hlt value) block
      b.blocks.length htest (fun reg hreg => here ?_) fun reg hreg => here ?_
    · rw [opened_of_lt hblock] at hreg
      exact hback reg hreg
    · rw [opened_of_le (Nat.le_refl _)] at hreg
      exact hreg
  have hblocks := closeLoop_blocks b v shadowed block counter next value
  refine (branched.addPhiEdge block counter (next, b.current) (fun s t hst => ?_) ?_).of_blocks hblocks
  · have hclosed : (b.closeLoop v shadowed block counter next value).LeadsTo s t :=
      hst.of_opsOf (by rw [hblocks])
    exact hclosed.of_closeLoop hb hblock hvalue
  · exact (here hnext).emit _

end Assigned

/-! ## On the way -/

namespace Names

variable {avail avail' : Nat → Nat → Prop} {b b' : Builder}

/-- Names that stand for what they stood for are live if what was live is. -/
theorem of_live (h : b.Names avail) (hnames : b'.bindings = b.bindings)
    (hlive : ∀ reg, b.Live avail b.current reg → b'.Live avail' b'.current reg) : b'.Names avail' := by
  intro name reg hname
  rw [lookup?, hnames] at hname
  exact hlive reg (h name reg hname)

/-- In a loop its variable stands for a register that the block of the loop fills. -/
theorem openLoop (h : b.Names avail) (hb : b.Ready) (v : String) (first : Nat) :
    (b.openLoop v first).Names (b.opened avail) := by
  intro name reg hname
  simp only [lookup?, openLoop_bindings, Std.ExtTreeMap.getElem?_insert] at hname
  rw [openLoop_current]
  split at hname
  · cases hname
    refine .inr ?_
    rw [opsOf_openLoop v first hb]
    exact List.mem_cons_self
  · refine .inl ?_
    rw [opened_of_le (Nat.le_refl _)]
    exact h name reg hname

end Names

namespace Flows

variable {pending : Nat → Prop} {n : Nat} {avail avail₁ avail₂ : Nat → Nat → Prop}
  {b b₁ b₂ : Builder}

theorem refl (h : b.Assigned n avail) : Flows n avail avail b b :=
  ⟨fun _ _ => rfl, h, fun _ hreg => hreg⟩

theorem trans (h : Flows n avail avail₁ b b₁) (h' : Flows n avail₁ avail₂ b₁ b₂)
    (hlength : b.blocks.length ≤ b₁.blocks.length) : Flows n avail avail₂ b b₂ where
  same i hi := (h'.same i (Nat.lt_of_lt_of_le hi hlength)).trans (h.same i hi)
  assigned := h'.assigned
  live reg hreg := h'.live reg (h.live reg hreg)

theorem put {ty : Ty} {op : Nat → Op} (h : (b.put ty op).Assigned n avail) :
    Flows n avail avail b (b.put ty op) :=
  ⟨fun _ _ => rfl, h, fun _ hreg => hreg.put ty op⟩

theorem need (h : b.Assigned n avail) (t : Target) : Flows n avail avail b (b.need t) := by
  refine ⟨fun _ _ => rfl, h.of_blocks (need_blocks b t), fun reg hreg => ?_⟩
  rw [need_current]
  exact hreg.of_opsOf rfl (by rw [need_blocks])

theorem openBranches (h : b.Assigned n avail) (hb : b.Shaped pending) {value : Nat}
    (hvalue : b.Live avail b.current value) :
    Flows n avail (b.opened avail) b (b.openBranches value) := by
  refine ⟨fun i hi => opened_of_lt hi, h.openBranches hb hvalue, fun reg hreg => .inl ?_⟩
  rw [openBranches_current, opened_of_le (Nat.le_refl _)]
  exact hreg

theorem openLoop (h : b.Assigned n avail) (hb : b.Shaped pending) (v : String) {first : Nat}
    (hfirst : b.Live avail b.current first) :
    Flows n avail (b.opened avail) b (b.openLoop v first) := by
  refine ⟨fun i hi => opened_of_lt hi, h.openLoop hb v hfirst, fun reg hreg => .inl ?_⟩
  rw [openLoop_current, opened_of_le (Nat.le_refl _)]
  exact hreg

theorem storeField (h : b.Assigned n avail) (hb : b.Ready) (record : String) {base value : Nat}
    (field : Nat) (hbase : b.Live avail b.current base) (hvalue : b.Live avail b.current value) :
    Flows n avail avail b (b.storeField record base value field) :=
  ⟨fun _ _ => rfl, h.storeField hb.current_lt record field hbase hvalue,
    fun _ hreg => (hreg.put _ _).emit _⟩

end Flows

end Builder

/-! ## Lowered expressions -/

section

open Builder

variable {c : Context} {pending : Nat → Prop} {n : Nat} {avail avail' : Nat → Nat → Prop}
  {b b₁ b₂ b₃ b₄ : Builder}

/-- Between the branches of a conditional, what was live behind its test is live again. -/
theorem Branching.flows_resume {value t e : Nat} (w : Branching pending b₁ b₂ b₃ value t e)
    (h : Flows n (b₁.opened avail) avail' (b₁.openBranches value) b₂) :
    Flows n avail avail' b₁ (b₂.jumpTo (b₁.blocks.length + 2) (b₁.blocks.length + 1)) := by
  have hnew {i : Nat} (hle : b₁.blocks.length ≤ i) (hi : i < b₁.blocks.length + 3) :
      avail' i = b₁.Live avail b₁.current :=
    (h.same i (by rw [openBranches_blocks_length]; exact hi)).trans (opened_of_le hle)
  refine ⟨fun i hi => ?_, ?_, fun reg hreg => .inl ?_⟩
  · rw [h.same i (by rw [openBranches_blocks_length]; omega), opened_of_lt hi]
  · refine h.assigned.jumpTo w.between.ready.current_lt _ _ fun reg hreg => h.live reg (.inl ?_)
    rw [hnew (by omega) (by omega)] at hreg
    rw [openBranches_current, opened_of_le (Nat.le_refl _)]
    exact hreg
  · rw [jumpTo_current, hnew (by omega) (by omega)]
    exact hreg

/-- Behind a conditional, what was live behind its test is live again. Each branch has its value live at
its end. -/
theorem Branching.flows_join {avail₂ avail₃ : Nat → Nat → Prop} {value t e : Nat}
    (w : Branching pending b₁ b₂ b₃ value t e)
    (f₂ : Flows n (b₁.opened avail) avail₂ (b₁.openBranches value) b₂)
    (f₃ : Flows n avail₂ avail₃ (b₂.jumpTo (b₁.blocks.length + 2) (b₁.blocks.length + 1)) b₃)
    (ht : b₂.Live avail₂ b₂.current t) (he : b₃.Live avail₃ b₃.current e) (ty : Ty) :
    Flows n avail avail₃ b₁
      (b₃.joinBranches (b₁.blocks.length + 2) ty [(t, b₂.current), (e, b₃.current)]) := by
  have long := w.length_le
  have through := (w.flows_resume f₂).trans f₃ (by rw [jumpTo_blocks_length]; omega)
  have hkept {i : Nat} (hi : i < b₂.blocks.length) : avail₃ i = avail₂ i :=
    f₃.same i (by rw [jumpTo_blocks_length]; exact hi)
  have hjoin : avail₃ (b₁.blocks.length + 2) = b₁.Live avail b₁.current := by
    rw [hkept (by omega), f₂.same _ (by rw [openBranches_blocks_length]; omega),
      opened_of_le (by omega)]
  -- The end of the first branch is left alone while the second one is lowered.
  have hfirst : b₃.Live avail₃ b₂.current t := by
    have hlt := w.between.ready.current_lt
    have hjumped : (b₂.jumpTo (b₁.blocks.length + 2) (b₁.blocks.length + 1)).Live avail₂ b₂.current
        t := ht.emit _
    exact hjumped.grown w.second w.resumed.ready (by rw [jumpTo_blocks_length]; exact hlt) (hkept hlt)
  refine ⟨through.same, ?_, fun reg hreg => .inl ?_⟩
  · refine through.assigned.joinBranches w.behind.ready.current_lt (by omega) ty (fun reg hreg => ?_)
      fun edge hedge => ?_
    · rw [hjoin] at hreg
      exact through.live reg hreg
    · rcases List.mem_cons.mp hedge with rfl | hedge
      · exact hfirst
      · rw [List.mem_singleton.mp hedge]
        exact he
  · rw [joinBranches_current, hjoin]
    exact hreg

/-- Behind the body and the step of a loop its variable is counted up. -/
theorem Looping.flows_count {avail₂ avail₃ : Nat → Nat → Prop} {v : String}
    {first increment value : Nat} (w : Looping pending b₁ b₂ b₃ b₄ v first increment value)
    (f₂ : Flows n (b₁.opened avail) avail₂ (b₁.openLoop v first) b₂) (f₃ : Flows n avail₂ avail₃ b₂ b₃)
    (hincrement : b₃.Live avail₃ b₃.current increment) :
    Flows n (b₁.opened avail) avail₃ (b₁.openLoop v first)
      (b₃.put .f64 (.arith .add · b₁.regTypes.length increment)) := by
  -- The variable is live where its block starts, and so where it is counted up.
  have hcounter : b₃.Live avail₃ b₃.current b₁.regTypes.length := by
    refine f₃.live _ (f₂.live _ (.inr ?_))
    rw [openLoop_current, opsOf_openLoop v first w.before.ready]
    exact List.mem_cons_self
  have counted := f₃.assigned.putArith w.behindStep.ready.current_lt .add hcounter hincrement
  exact (f₂.trans f₃ w.ran.length_le).trans (.put counted)
    (Nat.le_trans w.ran.length_le w.stepped.length_le)

/-- Behind a loop, what was live in front of it is live again. -/
theorem Looping.flows_close {v : String} {first increment value : Nat}
    (w : Looping pending b₁ b₂ b₃ b₄ v first increment value)
    (h : Flows n (b₁.opened avail) avail' (b₁.openLoop v first) b₄) (shadowed : Option Nat)
    (counter : Nat) {next : Nat} (hvalue : b₄.Live avail' b₄.current value)
    (hnext : b₄.Live avail' b₄.current next) :
    Flows n avail (b₄.opened avail') b₁
      (b₄.closeLoop v shadowed b₁.blocks.length counter next value) := by
  have hkept {i : Nat} (hi : i < b₁.blocks.length + 1) : avail' i = b₁.opened avail i :=
    h.same i (by rw [openLoop_blocks_length]; exact hi)
  -- What is live in front of the loop is available in its block, and live in it until the end.
  have hlive {reg : Nat} (hreg : b₁.Live avail b₁.current reg) : b₄.Live avail' b₄.current reg := by
    refine h.live reg (.inl ?_)
    rw [openLoop_current, opened_of_le (Nat.le_refl _)]
    exact hreg
  refine ⟨fun i hi => ?_, ?_, fun reg hreg => .inl ?_⟩
  · rw [opened_of_lt (Nat.lt_trans hi w.block_lt), hkept (Nat.lt_succ_of_lt hi), opened_of_lt hi]
  · refine h.assigned.closeLoop w.behindTest v shadowed counter w.block_lt w.value_lt hvalue hnext
      fun reg hreg => hlive ?_
    rw [hkept (Nat.lt_succ_self _), opened_of_le (Nat.le_refl _)] at hreg
    exact hreg
  · rw [closeLoop_current, opened_of_le (Nat.le_refl _)]
    exact hlive hreg

mutual

/-- Lowering an expression keeps registers from being read before they are filled, what is live stays
live, and so is the register of the value. -/
theorem Lowered.flows : ∀ {e : Expr} {b b' : Builder} {r : Nat} {pending : Nat → Prop}
    {avail : Nat → Nat → Prop}, Lowered c e b r b' → b.Shaped pending → b.Assigned n avail →
      b.Names avail → ∃ avail', Flows n avail avail' b b' ∧ b'.Live avail' b'.current r
  | _, _, _, _, _, _, .num, hb, h, _ =>
    ⟨_, .put (h.put hb.ready.current_lt _ rfl fun _ hreg => by cases hreg),
      live_put _ _ hb.ready.current_lt rfl⟩
  | _, _, _, _, _, _, .var bound, _, h, names => ⟨_, .refl h, names _ _ bound⟩
  | _, _, _, _, _, avail, @Lowered.binary _ _ _ kind _ _ b b₁ b₂ l r first second _ _ _, hb, h,
      names => by
    have g₁ := (first.grown hb.ready).1
    have s₁ := first.shaped hb
    have s₂ := second.shaped s₁
    obtain ⟨avail₁, f₁, hl⟩ := first.flows hb h names
    obtain ⟨avail₂, f₂, hr⟩ := second.flows s₁ f₁.assigned (names.of_live g₁.bindings f₁.live)
    have added := f₂.assigned.putArith s₂.ready.current_lt kind (f₂.live l hl) hr
    exact ⟨avail₂, (f₁.trans f₂ g₁.length_le).trans (.put added)
      (Nat.le_trans g₁.length_le (second.grown s₁.ready).1.length_le),
      live_put _ _ s₂.ready.current_lt rfl⟩
  | _, _, _, _, _, avail, @Lowered.call _ _ callee _ target b b₁ regs _ _ given, hb, h, names => by
    have g₁ := (given.grown hb.ready).1
    have hlt : (b₁.need target).current < (b₁.need target).blocks.length := by
      rw [need_current, need_blocks]
      exact g₁.current_lt
    obtain ⟨avail₁, f₁, hregs⟩ := given.flows hb h names
    have needed := Flows.need f₁.assigned target
    have called : ((b₁.need target).put target.signature.ret (.call · callee regs)).Assigned n avail₁ :=
      needed.assigned.put hlt _ rfl fun reg hreg => needed.live reg (hregs reg hreg)
    exact ⟨avail₁, (f₁.trans needed g₁.length_le).trans (.put called)
      (by rw [need_blocks]; exact g₁.length_le), live_put _ _ hlt rfl⟩
  | _, _, _, _, pending, avail, @Lowered.cond _ _ _ _ _ b b₁ b₂ b₃ value t e test _ first second _, hb,
      h, names => by
    have w := Lowered.branching test first second hb
    have g₁ := (test.grown hb.ready).1
    have long := w.length_le
    obtain ⟨avail₁, f₁, hvalue⟩ := test.flows hb h names
    have names₁ := names.of_live g₁.bindings f₁.live
    have opened := Flows.openBranches f₁.assigned w.before hvalue
    obtain ⟨avail₂, f₂, ht⟩ := first.flows w.opened opened.assigned (names₁.of_live rfl opened.live)
    have resumed := w.flows_resume f₂
    obtain ⟨avail₃, f₃, he⟩ := second.flows w.resumed resumed.assigned
      (names₁.of_live (w.first.bindings.trans rfl) resumed.live)
    refine ⟨avail₃, f₁.trans (w.flows_join f₂ f₃ ht he _) g₁.length_le, ?_⟩
    exact live_put (b := b₃.jumpTo (b₁.blocks.length + 2) (b₁.blocks.length + 2)) _ _
      (by rw [jumpTo_current, jumpTo_blocks_length]; omega) rfl
  | _, _, _, _, pending, avail, @Lowered.loop _ _ v _ _ _ _ b b₁ b₂ b₃ b₄ _ first _ increment value
      started _ ran stepped tested _ closed, hb, h, names => by
    have w := Lowered.looping started ran stepped tested hb
    have g₁ := (started.grown hb.ready).1
    obtain ⟨avail₁, f₁, hfirst⟩ := started.flows hb h names
    have names₁ := names.of_live g₁.bindings f₁.live
    have opened := Flows.openLoop f₁.assigned w.before v hfirst
    have namesIn := names₁.openLoop w.before.ready v first
    obtain ⟨avail₂, f₂, -⟩ := ran.flows w.opened opened.assigned namesIn
    have names₂ := namesIn.of_live w.ran.bindings f₂.live
    obtain ⟨avail₃, f₃, hincrement⟩ := stepped.flows w.behindBody f₂.assigned names₂
    have names₃ := names₂.of_live w.stepped.bindings f₃.live
    have counted := w.flows_count f₂ f₃ hincrement
    have hlt := w.behindStep.ready.current_lt
    obtain ⟨avail₄, f₄, hvalue⟩ := tested.flows w.added counted.assigned
      (names₃.of_live rfl fun _ hreg => hreg.put _ _)
    have hnext := f₄.live b₃.regTypes.length (live_put _ _ hlt rfl)
    have inside := counted.trans f₄
      (by rw [put_blocks_length]; exact Nat.le_trans w.ran.length_le w.stepped.length_le)
    subst closed
    have behind := w.flows_close inside (b₁.lookup? v) b₁.regTypes.length hvalue hnext
    have zero : ((b₄.closeLoop v (b₁.lookup? v) b₁.blocks.length b₁.regTypes.length
        b₃.regTypes.length value).put .f64 (.const · 0)).Assigned n (b₄.opened avail₄) :=
      behind.assigned.put (by simp) _ rfl fun _ hreg => by cases hreg
    refine ⟨_, (f₁.trans behind g₁.length_le).trans (.put zero) ?_, live_put _ _ (by simp) rfl⟩
    rw [closeLoop_blocks_length]
    exact Nat.le_succ_of_le (Nat.le_trans g₁.length_le (Nat.le_of_lt w.block_lt))
  | _, _, _, _, _, _, .alloc _, hb, h, _ =>
    ⟨_, .put (h.put hb.ready.current_lt _ rfl fun _ hreg => by cases hreg),
      live_put _ _ hb.ready.current_lt rfl⟩
  | _, _, _, _, _, _, .construct storage _ _ filled, hb, h, names => by
    have g₁ := storage.grown hb.ready
    obtain ⟨avail₁, f₁, hbase⟩ := storage.flows hb h names
    obtain ⟨avail₂, f₂⟩ := filled.flows (storage.shaped hb) f₁.assigned
      (names.of_live g₁.1.bindings f₁.live) g₁.2 hbase
    exact ⟨avail₂, f₁.trans f₂ g₁.1.length_le, f₂.live _ hbase⟩

theorem LoweredArgs.flows : ∀ {es : List Expr} {b b' : Builder} {regs : List Nat}
    {pending : Nat → Prop} {avail : Nat → Nat → Prop}, LoweredArgs c es b regs b' → b.Shaped pending →
      b.Assigned n avail → b.Names avail →
        ∃ avail', Flows n avail avail' b b' ∧ ∀ reg ∈ regs, b'.Live avail' b'.current reg
  | _, _, _, _, _, _, .nil, _, h, _ => ⟨_, .refl h, fun _ hreg => by cases hreg⟩
  | _, _, _, _, _, _, .cons head _ tail, hb, h, names => by
    have g₁ := (head.grown hb.ready).1
    obtain ⟨avail₁, f₁, hreg₁⟩ := head.flows hb h names
    obtain ⟨avail₂, f₂, hregs⟩ := tail.flows (head.shaped hb) f₁.assigned
      (names.of_live g₁.bindings f₁.live)
    refine ⟨avail₂, f₁.trans f₂ g₁.length_le, fun reg hreg => ?_⟩
    rcases List.mem_cons.mp hreg with rfl | hreg
    · exact f₂.live _ hreg₁
    · exact hregs reg hreg

theorem LoweredStep.flows : ∀ {stepBy : Option Expr} {b b' : Builder} {r : Nat}
    {pending : Nat → Prop} {avail : Nat → Nat → Prop}, LoweredStep c stepBy b r b' →
      b.Shaped pending → b.Assigned n avail → b.Names avail →
        ∃ avail', Flows n avail avail' b b' ∧ b'.Live avail' b'.current r
  | _, _, _, _, _, _, .one, hb, h, _ =>
    ⟨_, .put (h.put hb.ready.current_lt _ rfl fun _ hreg => by cases hreg),
      live_put _ _ hb.ready.current_lt rfl⟩
  | _, _, _, _, _, _, .given value _, hb, h, names => value.flows hb h names

theorem LoweredFields.flows : ∀ {base width : Nat} {record : String} {fields : List (Nat × Expr)}
    {b b' : Builder} {pending : Nat → Prop} {avail : Nat → Nat → Prop},
    LoweredFields c base record width fields b b' → b.Shaped pending → b.Assigned n avail →
      b.Names avail → base < b.regTypes.length → b.Live avail b.current base →
        ∃ avail', Flows n avail avail' b b'
  | _, _, _, _, _, _, _, _, .nil, _, h, _, _, _ => ⟨_, .refl h⟩
  | _, _, _, _, _, _, _, _, @LoweredFields.cons _ base _ record i _ _ b b₁ _ value _ head _ tail, hb, h,
      names, hlt, hbase => by
    have g₁ := head.grown hb.ready
    have s₁ := head.shaped hb
    have hlt₁ := Nat.lt_of_lt_of_le hlt g₁.1.regTypes.length_le
    obtain ⟨avail₁, f₁, hvalue⟩ := head.flows hb h names
    have stored := Flows.storeField f₁.assigned s₁.ready record i (f₁.live base hbase) hvalue
    have g₂ := Grown.storeField s₁.ready record base value i
    have names₁ := names.of_live g₁.1.bindings f₁.live
    obtain ⟨avail₂, f₂⟩ := tail.flows (s₁.storeField i hlt₁ g₁.2) stored.assigned
      (names₁.of_live g₂.bindings stored.live) (Nat.lt_of_lt_of_le hlt₁ g₂.regTypes.length_le)
      (stored.live base (f₁.live base hbase))
    exact ⟨avail₂, (f₁.trans stored g₁.1.length_le).trans f₂
      (Nat.le_trans g₁.1.length_le g₂.length_le)⟩

end

end

end PoseLang
