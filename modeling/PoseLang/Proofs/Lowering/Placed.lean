import PoseLang.Proofs.Lowering.Steps
import PoseLang.Proofs.Lowering.Within
import PoseLang.Proofs.Machine.Reaches

/-!
# Lowered pieces in their routine

What a simulation has to know of a piece of lowered code, in two bundles. What holds of the builder
before the piece holds of the builders after it: it is ready, and stands in no block that is pending
(`Builder.Open`). What holds of the builder after the piece holds of those before it: it is within
the code of the finished routine, has no more registers than that, and needs no declarations but
those that the program got (`Builder.Inside`).
-/

namespace PoseLang

/-! ## Declarations that calls need -/

/-- A declaration that a call needs in a context: of a function that is known by its prototype
alone. -/
def Signature.Needed (c : Context) (s : Signature) : Prop :=
  ∃ name proto, c.program.get? name = none ∧ c.prototypes[name]? = some proto ∧
    s = .external proto.name proto.params

namespace Builder

/-- Declarations are only added, and all that are added are needed. -/
structure Notes (c : Context) (b b' : Builder) : Prop where
  kept : ∀ s ∈ b.declarations, s ∈ b'.declarations
  needed : ∀ s ∈ b'.declarations, s ∈ b.declarations ∨ s.Needed c

namespace Notes

variable {c : Context} {b b₁ b₂ : Builder}

theorem of_eq (h : b₁.declarations = b.declarations) : Notes c b b₁ :=
  ⟨fun _ hs => h ▸ hs, fun _ hs => .inl (h ▸ hs)⟩

theorem trans (h : Notes c b b₁) (h' : Notes c b₁ b₂) : Notes c b b₂ :=
  ⟨fun s hs => h'.kept s (h.kept s hs), fun s hs => (h'.needed s hs).elim (h.needed s) .inr⟩

theorem need {callee : String} {t : Target} (h : c.resolve? callee = some t) :
    Notes c b (b.need t) := by
  cases t with
  | routine s => exact of_eq rfl
  | prototype s =>
    have hneeded : s.Needed c := by
      unfold Context.resolve? at h
      split at h
      · cases h
      next hnone =>
        obtain ⟨proto, hproto, heq⟩ := Option.map_eq_some_iff.mp h
        cases heq
        exact ⟨callee, proto, hnone, hproto, rfl⟩
    simp only [Builder.need, queue]
    split
    · exact of_eq rfl
    · refine ⟨fun _ hs => List.mem_append_left _ hs, fun s' hs => ?_⟩
      rcases List.mem_append.mp hs with hs | hs
      · exact .inl hs
      · obtain rfl := List.mem_singleton.mp hs
        exact .inr hneeded

end Notes

section

variable {c : Context} {b b' : Builder}

/-- No step notes anything but what a call needs. -/
theorem Step.notes (h : Step c b b') : Notes c b b' := by
  cases h with
  | newReg => exact .of_eq rfl
  | emit => exact .of_eq rfl
  | call resolved => exact (Notes.need resolved).trans (.of_eq rfl)
  | appendBlock => exact .of_eq rfl
  | position => exact .of_eq rfl
  | addPhiEdge => exact .of_eq rfl
  | bind => exact .of_eq rfl
  | restore name previous => exact .of_eq (restore_declarations b name previous)

theorem Steps.notes (h : Steps c b b') : Notes c b b' := by
  induction h with
  | refl => exact .of_eq rfl
  | tail _ last ih => exact ih.trans last.notes

end

/-- A target that is known by its prototype alone is noted by its name. -/
theorem exists_mem_need (b : Builder) (s : Signature) :
    ∃ s' ∈ (b.need (.prototype s)).declarations, s'.name = s.name := by
  simp only [need, queue]
  split
  next h =>
    obtain ⟨s', hs', hname⟩ := List.any_eq_true.mp h
    exact ⟨s', hs', by simpa using hname⟩
  next => exact ⟨s, by simp, rfl⟩

end Builder

/-! ## Pieces of a routine -/

namespace Builder

/-- A builder is ready, and what is pending is not where it goes on. -/
structure Open (pending : Nat → Prop) (b : Builder) : Prop where
  ready : b.Ready
  known : ∀ i, pending i → i < b.blocks.length
  free : ¬ pending b.current

/-- A builder lies within a routine, apart from what is pending, and all its declarations are among
some. -/
structure Inside (pending : Nat → Prop) (r : Routine) (declared : List Signature) (b : Builder) :
    Prop where
  within : b.Within pending r.blocks
  room : b.regTypes.length ≤ r.regTypes.length
  declares : ∀ s ∈ b.declarations, s ∈ declared

section

variable {pending : Nat → Prop} {r : Routine} {declared : List Signature} {b b' : Builder}

theorem Open.grown (h : b.Open pending) (hg : Grown b b') : b'.Open pending := by
  refine ⟨hg.ready h.ready, fun i hi => Nat.lt_of_lt_of_le (h.known i hi) hg.length_le, fun hp => ?_⟩
  rcases hg.current with hc | hc
  · exact h.free (hc ▸ hp)
  · exact absurd (h.known _ hp) (by omega)

theorem Open.put (h : b.Open pending) (ty : Ty) (op : Nat → Op) : (b.put ty op).Open pending :=
  h.grown (.put h.ready ty op)

/-- While a branch is built, the block in which the branches are joined is pending. -/
theorem Open.openBranches (h : b.Open pending) (value : Nat) :
    (b.openBranches value).Open fun i => i = b.blocks.length + 2 ∨ pending i := by
  refine ⟨h.ready.openBranches value, fun i hi => ?_, fun hi => ?_⟩
  · rcases hi with rfl | hi
    · simp
    · have := h.known i hi
      rw [openBranches_blocks_length]
      omega
  · rcases hi with hi | hi
    · rw [openBranches_current] at hi
      omega
    · exact absurd (h.known _ hi) (by simp)

theorem Open.jumpTo (h : b.Open pending) (target next : Nat) (hnext : next < b.blocks.length)
    (hfree : ¬ pending next) : (b.jumpTo target next).Open pending :=
  ⟨h.ready.jumpTo target hnext, fun i hi => by simpa using h.known i hi, hfree⟩

theorem Open.openLoop (h : b.Open pending) (v : String) (first : Nat) :
    (b.openLoop v first).Open pending := by
  refine ⟨h.ready.openLoop v first, fun i hi => ?_, fun hi => ?_⟩
  · have := h.known i hi
    rw [openLoop_blocks_length]
    omega
  · exact absurd (h.known _ hi) (by simp)

theorem Inside.back {pending' : Nat → Prop} (h : b'.Inside pending r declared)
    (within : b.Within pending' r.blocks) (regs : b.regTypes <+: b'.regTypes)
    (decls : ∀ s ∈ b.declarations, s ∈ b'.declarations) : b.Inside pending' r declared :=
  ⟨within, Nat.le_trans regs.length_le h.room, fun s hs => h.declares s (decls s hs)⟩

theorem Inside.of_put {ty : Ty} {op : Nat → Op} (h : (b.put ty op).Inside pending r declared)
    (hop : (op b.regTypes.length).isPhi = false) : b.Inside pending r declared :=
  h.back (.of_put h.within hop) (List.prefix_append _ _) fun _ hs => hs

theorem Inside.of_need {c : Context} {callee : String} {t : Target}
    (h : (b.need t).Inside pending r declared) (ht : c.resolve? callee = some t) :
    b.Inside pending r declared :=
  h.back (.of_need h.within) (need_regTypes b t ▸ List.prefix_refl _) (Notes.need ht).kept

theorem Inside.of_jumpTo {target next : Nat} (h : (b.jumpTo target next).Inside pending r declared) :
    b.Inside pending r declared :=
  h.back (.of_jumpTo h.within) (List.prefix_refl _) fun _ hs => hs

theorem Inside.of_openBranches {value : Nat}
    (h : (b.openBranches value).Inside (fun i => i = b.blocks.length + 2 ∨ pending i) r declared) :
    b.Inside pending r declared :=
  h.back (.of_pending (.of_openBranches h.within) (by omega)) (List.prefix_append _ _)
    fun _ hs => hs

theorem Inside.of_joinBranches {merge : Nat} {ty : Ty} {edges : List (Nat × Nat)}
    (h : (b.joinBranches merge ty edges).Inside pending r declared) :
    b.Inside (fun i => i = merge ∨ pending i) r declared :=
  h.back (.of_joinBranches h.within) (List.prefix_append _ _) fun _ hs => hs

theorem Inside.of_openLoop {v : String} {first : Nat}
    (h : (b.openLoop v first).Inside pending r declared) : b.Inside pending r declared :=
  h.back (.of_openLoop h.within) (List.prefix_append _ _) fun _ hs => hs

theorem Inside.of_closeLoop {v : String} {shadowed : Option Nat} {block counter next value : Nat}
    (h : (b.closeLoop v shadowed block counter next value).Inside pending r declared) :
    b.Inside pending r declared :=
  h.back (.of_closeLoop h.within) (closeLoop_regTypes b v shadowed .. ▸ List.prefix_append _ _)
    fun _ hs => (restore_declarations _ v shadowed).symm ▸ hs

theorem Inside.of_storeField {record : String} {base value field : Nat}
    (h : (b.storeField record base value field).Inside pending r declared) :
    b.Inside pending r declared :=
  h.back (.of_storeField h.within) (List.prefix_append _ _) fun _ hs => hs

end

end Builder

section

open Builder

variable {c : Context} {pending : Nat → Prop} {r : Routine} {declared : List Signature}
  {b b' : Builder}

theorem Lowered.inside {e : Expr} {reg : Nat} (h : Lowered c e b reg b') (hb : b.Ready)
    (hi : b'.Inside pending r declared) : b.Inside pending r declared :=
  hi.back (h.within hi.within) (h.grown hb).1.regTypes h.steps.notes.kept

theorem LoweredArgs.inside {es : List Expr} {regs : List Nat} (h : LoweredArgs c es b regs b')
    (hb : b.Ready) (hi : b'.Inside pending r declared) : b.Inside pending r declared :=
  hi.back (h.within hi.within) (h.grown hb).1.regTypes h.steps.notes.kept

theorem LoweredStep.inside {stepBy : Option Expr} {reg : Nat} (h : LoweredStep c stepBy b reg b')
    (hb : b.Ready) (hi : b'.Inside pending r declared) : b.Inside pending r declared :=
  hi.back (h.within hi.within) (h.grown hb).1.regTypes h.steps.notes.kept

theorem LoweredFields.inside {base width : Nat} {record : String} {fields : List (Nat × Expr)}
    (h : LoweredFields c base record width fields b b') (hb : b.Ready)
    (hi : b'.Inside pending r declared) : b.Inside pending r declared :=
  hi.back (h.within hi.within) (h.grown hb).regTypes h.steps.notes.kept

end

/-! ## What blocks hold -/

namespace Builder

section

variable {b b' : Builder} {i : Nat}

theorem opsOf_of_length_le {blocks : List Block} (h : blocks.length ≤ i) : opsOf blocks i = [] := by
  simp [opsOf, List.getElem?_eq_none h]

theorem opsOf_appendBlock (label : String) :
    opsOf (b.appendBlock label).2.blocks i = opsOf b.blocks i := by
  rcases Nat.lt_trichotomy i b.blocks.length with h | rfl | h
  · simp [opsOf, appendBlock, List.getElem?_append_left h]
  · simp [opsOf, appendBlock]
  · rw [opsOf_of_length_le (by simp; omega), opsOf_of_length_le (by omega)]

theorem opsOf_emit_other (op : Op) (h : b.current ≠ i) :
    opsOf (b.emit op).blocks i = opsOf b.blocks i := by
  simp [opsOf, emit, h]

/-- Whatever block an operation is added to, no block loses any. -/
theorem opsOf_prefix_emit (op : Op) : opsOf b.blocks i <+: opsOf (b.emit op).blocks i := by
  by_cases h : b.current = i
  · cases hblk : b.blocks[i]? <;> simp [opsOf, emit, h, hblk, Block.push]
  · exact opsOf_emit_other op h ▸ List.prefix_refl _

theorem opsOf_addPhiEdge (dest : Nat) (edge : Nat × Nat) :
    opsOf (b.addPhiEdge i dest edge).blocks i = addEdge dest edge (opsOf b.blocks i) := by
  cases hblk : b.blocks[i]? <;> simp [opsOf, addPhiEdge, hblk, addEdge]

theorem opsOf_addPhiEdge_other {block : Nat} (dest : Nat) (edge : Nat × Nat) (h : block ≠ i) :
    opsOf (b.addPhiEdge block dest edge).blocks i = opsOf b.blocks i := by
  simp [opsOf, addPhiEdge, h]

/-- What holds of the operations of a block, and of them with an edge more, holds of every block when
a phi gets an edge more. -/
theorem opsOf_addPhiEdge_of {p : List Op → Prop} {block dest : Nat} {edge : Nat × Nat}
    (hops : p (opsOf b.blocks i)) (hedge : ∀ {ops}, p ops → p (addEdge dest edge ops)) :
    p (opsOf (b.addPhiEdge block dest edge).blocks i) := by
  by_cases hi : block = i
  · subst hi
    rw [opsOf_addPhiEdge]
    exact hedge hops
  · rw [opsOf_addPhiEdge_other dest edge hi]
    exact hops

theorem opsOf_jumpTo (target next : Nat) (h : b.current ≠ i) :
    opsOf (b.jumpTo target next).blocks i = opsOf b.blocks i :=
  opsOf_emit_other _ h

theorem opsOf_put_other (ty : Ty) (op : Nat → Op) (h : b.current ≠ i) :
    opsOf (b.put ty op).blocks i = opsOf b.blocks i :=
  opsOf_emit_other (b := (b.newReg ty).2) _ h

theorem Grown.opsOf (h : Grown b b') (hi : i < b.blocks.length) (hne : i ≠ b.current) :
    opsOf b'.blocks i = Builder.opsOf b.blocks i := by
  rw [Builder.opsOf, h.others i hi hne, Builder.opsOf]

/-- The block that a builder goes on in loses no operations. -/
theorem Grown.opsOf_prefix (h : Grown b b') (hb : b.Ready) :
    Builder.opsOf b.blocks b.current <+: Builder.opsOf b'.blocks b.current := by
  obtain ⟨ops, hops⟩ := h.extended _ (List.getElem?_eq_getElem hb.current_lt)
  simp [Builder.opsOf, hops, List.getElem?_eq_getElem hb.current_lt]

/-- The blocks of a conditional start empty. -/
theorem opsOf_openBranches (value : Nat) (hb : b.Ready) (h : b.blocks.length ≤ i) :
    opsOf (b.openBranches value).blocks i = [] := by
  have hne : b.current ≠ i := Nat.ne_of_lt (Nat.lt_of_lt_of_le hb.current_lt h)
  have hold : opsOf b.blocks i = [] := opsOf_of_length_le h
  change opsOf (emit _ _).blocks i = []
  rw [opsOf_emit_other _ (by exact hne), opsOf_appendBlock, opsOf_appendBlock, opsOf_appendBlock,
    opsOf_put_other _ _ hne, hold]

/-- The block in which branches are joined starts with their phi. -/
theorem opsOf_joinBranches {merge : Nat} (ty : Ty) (edges : List (Nat × Nat))
    (hmerge : merge < b.blocks.length) (hne : b.current ≠ merge) (hempty : opsOf b.blocks merge = []) :
    opsOf (b.joinBranches merge ty edges).blocks merge = [.phi b.regTypes.length edges] := by
  have hadded := opsOf_emit (b := ((b.jumpTo merge merge).newReg ty).2) (.phi b.regTypes.length edges)
    (by simpa [newReg] using hmerge)
  have hjumped : opsOf ((b.jumpTo merge merge).newReg ty).2.blocks merge = [] :=
    (opsOf_jumpTo merge merge hne).trans hempty
  exact hadded.trans (by rw [show ((b.jumpTo merge merge).newReg ty).2.current = merge from rfl,
    hjumped, List.nil_append])

/-- The block of a loop starts with the phi of its variable. -/
theorem opsOf_openLoop (v : String) (first : Nat) (hb : b.Ready) :
    opsOf (b.openLoop v first).blocks b.blocks.length =
      [.phi b.regTypes.length [(first, b.current)]] := by
  have hne : (b.appendBlock "loop").2.current ≠ b.blocks.length := Nat.ne_of_lt hb.current_lt
  refine opsOf_joinBranches (b := (b.appendBlock "loop").2) .f64 [(first, b.current)] (by simp) hne ?_
  rw [opsOf_appendBlock]
  exact opsOf_of_length_le (Nat.le_refl _)

end

section

variable {b : Builder} {block counter : Nat} (v : String) (shadowed : Option Nat) (next value : Nat)

/-- Closing a loop adds the edge of the rounds behind the first to the phi of its variable. -/
theorem opsOf_closeLoop {edges : List (Nat × Nat)} {ops : List Op}
    (hops : opsOf b.blocks block = .phi counter edges :: ops) :
    ∃ ops', opsOf (b.closeLoop v shadowed block counter next value).blocks block =
      .phi counter (edges ++ [(next, b.current)]) :: ops' := by
  have tested : opsOf b.blocks block <+: opsOf (b.put .bool (.truthy · value)).blocks block :=
    opsOf_prefix_emit (b := (b.newReg .bool).2) _
  rw [← opsOf_appendBlock (b := b.put .bool (.truthy · value)) "afterloop"] at tested
  obtain ⟨more, hmore⟩ := tested.trans
    (opsOf_prefix_emit (.branch b.regTypes.length block b.blocks.length))
  rw [closeLoop, restore_blocks]
  change ∃ ops', opsOf (addPhiEdge _ block counter (next, b.current)).blocks block = _
  rw [opsOf_addPhiEdge, ← hmore, hops, List.cons_append, addEdge, if_pos rfl]
  exact ⟨_, rfl⟩

/-- Behind a loop there is a block that starts empty. -/
theorem opsOf_closeLoop_after (hb : b.Ready) (hblock : block < b.blocks.length) :
    opsOf (b.closeLoop v shadowed block counter next value).blocks b.blocks.length = [] := by
  have hne : b.current ≠ b.blocks.length := Nat.ne_of_lt hb.current_lt
  rw [closeLoop, restore_blocks]
  change opsOf (addPhiEdge _ block counter (next, b.current)).blocks b.blocks.length = []
  rw [opsOf_addPhiEdge_other _ _ (Nat.ne_of_lt hblock), opsOf_emit_other _ (by exact hne),
    opsOf_appendBlock, opsOf_put_other _ _ hne]
  exact opsOf_of_length_le (Nat.le_refl _)

end

/-- While the first branch is built, the other blocks of the conditional stay empty. -/
theorem Grown.opsOf_openBranches {b b₂ : Builder} {value i : Nat} (h : Grown (b.openBranches value) b₂)
    (hb : b.Ready) (hlt : b.blocks.length < i) (hi : i < b.blocks.length + 3)
    (hne : b₂.current ≠ i) (target next : Nat) :
    Builder.opsOf (b₂.jumpTo target next).blocks i = [] := by
  calc Builder.opsOf (b₂.jumpTo target next).blocks i
      = Builder.opsOf b₂.blocks i := opsOf_jumpTo _ _ hne
    _ = Builder.opsOf (b.openBranches value).blocks i :=
        h.opsOf (by rw [openBranches_blocks_length]; omega) (by rw [openBranches_current]; omega)
    _ = [] := Builder.opsOf_openBranches value hb (by omega)

/-- Between the ends of two branches and their join: the ends are different blocks, and the block of
the join has nothing but the phi. -/
theorem joined_phi {b b₂ b₃ : Builder} {value : Nat} (hb : b.Ready)
    (first : Grown (b.openBranches value) b₂) (hend : b₂.current ≠ b.blocks.length + 2)
    (second : Grown (b₂.jumpTo (b.blocks.length + 2) (b.blocks.length + 1)) b₃) (ty : Ty)
    (edges : List (Nat × Nat)) :
    b₂.current ≠ b₃.current ∧
      opsOf (b₃.joinBranches (b.blocks.length + 2) ty edges).blocks (b.blocks.length + 2) =
        [.phi b₃.regTypes.length edges] := by
  have hlen₂ := first.length_le
  have hlen₃ := second.length_le
  have hcur₂ := first.current
  have hcur₃ := second.current
  have hlt₂ := first.current_lt
  simp only [openBranches_blocks_length, openBranches_current] at hlen₂ hcur₂
  simp only [jumpTo_blocks_length, jumpTo_current] at hlen₃ hcur₃
  refine ⟨by omega, opsOf_joinBranches ty edges (by omega) (by omega) ?_⟩
  rw [second.opsOf (by rw [jumpTo_blocks_length]; omega) (by rw [jumpTo_current]; omega)]
  exact first.opsOf_openBranches hb (by omega) (by omega) hend _ _

/-! ## Testing and branching -/

section

variable {pending : Nat → Prop} {r : Routine} {declared : List Signature} {b : Builder}

/-- Operations that test a number and branch on it, with blocks opened in between. -/
theorem rest_branch {code : List Block} {value t e : Nat} {forked : Builder}
    (h : (forked.emit (.branch b.regTypes.length t e)).Within pending code)
    (htested : (b.put .bool (.truthy · value)).Within pending code)
    (hlt : b.current < b.blocks.length) (hfree : ¬ pending b.current)
    (hcur : forked.current = b.current) (hlen : b.blocks.length ≤ forked.blocks.length)
    (hops : opsOf forked.blocks b.current =
      opsOf (b.put .bool (.truthy · value)).blocks b.current) :
    ∃ ops, b.rest code =
      .truthy b.regTypes.length value :: .branch b.regTypes.length t e :: ops := by
  have hfirst := htested.rest_put hlt hfree rfl
  have hsecond := h.rest_emit (by omega) (by rw [hcur]; exact hfree) rfl
  have hsame : (b.put .bool (.truthy · value)).rest code = forked.rest code := by
    rw [rest, rest, hcur, hops]
    rfl
  exact ⟨_, by rw [hfirst, hsame, hsecond]⟩

theorem Inside.rest_openBranches {value : Nat}
    (h : (b.openBranches value).Inside pending r declared) (hb : b.Ready)
    (hfree : ¬ pending b.current) :
    ∃ ops, b.rest r.blocks = .truthy b.regTypes.length value ::
      .branch b.regTypes.length b.blocks.length (b.blocks.length + 1) :: ops := by
  have branched : (((((b.put .bool (.truthy · value)).appendBlock "then").2.appendBlock
      "else").2.appendBlock "ifcont").2.emit (.branch b.regTypes.length b.blocks.length
      (b.blocks.length + 1))).Within pending r.blocks := .of_blocks h.within rfl
  have tested := Within.of_appendBlock (.of_appendBlock (.of_appendBlock (.of_emit branched rfl)))
  refine rest_branch branched tested hb.current_lt hfree rfl ?_ ?_
  · simp
    omega
  · rw [opsOf_appendBlock, opsOf_appendBlock, opsOf_appendBlock]

theorem Inside.rest_openLoop {v : String} {first : Nat}
    (h : (b.openLoop v first).Inside pending r declared) (hb : b.Open pending) :
    ∃ ops, b.rest r.blocks = .jump b.blocks.length :: ops := by
  have hlt := hb.ready.current_lt
  have opened : ((b.appendBlock "loop").2.jumpTo b.blocks.length b.blocks.length).Within
      (fun i => i = b.blocks.length ∨ pending i) r.blocks := .of_phi (.of_blocks h.within rfl)
  have jumped : ((b.appendBlock "loop").2.emit (.jump b.blocks.length)).Within
      (fun i => i = b.blocks.length ∨ pending i) r.blocks := .of_blocks opened rfl
  have hcurrent : b.current < (b.appendBlock "loop").2.blocks.length := by
    rw [appendBlock_blocks_length]
    exact Nat.lt_succ_of_lt hlt
  have hjump := jumped.rest_emit hcurrent
    (fun hor => hor.elim (Nat.ne_of_lt hlt) hb.free) rfl
  rw [rest, opsOf_appendBlock] at hjump
  exact ⟨_, hjump⟩

theorem Inside.rest_closeLoop {v : String} {shadowed : Option Nat} {block counter next value : Nat}
    (h : (b.closeLoop v shadowed block counter next value).Inside pending r declared) (hb : b.Ready)
    (hfree : ¬ pending b.current) :
    ∃ ops, b.rest r.blocks = .truthy b.regTypes.length value ::
      .branch b.regTypes.length block b.blocks.length :: ops := by
  have edged := Within.of_blocks h.within (restore_blocks _ v shadowed)
  have branched : (((b.put .bool (.truthy · value)).appendBlock "afterloop").2.emit
      (.branch b.regTypes.length block b.blocks.length)).Within pending r.blocks :=
    .of_addPhiEdge (.of_blocks edged rfl)
  refine rest_branch branched (.of_appendBlock (.of_emit branched rfl)) hb.current_lt hfree rfl ?_ ?_
  · simp
  · rw [opsOf_appendBlock]

end

/-! ## Entering blocks -/

section

variable {pending : Nat → Prop} {r : Routine} {declared : List Signature} {b : Builder}

/-- The finished block in which a builder goes on. -/
theorem Inside.block (h : b.Inside pending r declared) (hb : b.Open pending) :
    ∃ blk, r.blocks[b.current]? = some blk ∧ opsOf r.blocks b.current = blk.ops ∧
      Op.Begin (opsOf b.blocks b.current) blk.ops := by
  have hbegin := h.within.begin hb.ready.current_lt hb.free
  obtain ⟨blk, hblk, -⟩ := h.within b.current _ (List.getElem?_eq_getElem hb.ready.current_lt)
  have hops : opsOf r.blocks b.current = blk.ops := by simp [opsOf, hblk]
  exact ⟨blk, hblk, hops, hops ▸ hbegin⟩

/-- Control enters an empty block where the builder goes on in it. -/
theorem Inside.enterBlock (h : b.Inside pending r declared) (hb : b.Open pending)
    (hempty : opsOf b.blocks b.current = []) (regs : Registers) (source : Option Nat) :
    Frame.enterBlock r regs source b.current = .ok ⟨r, b.current, b.rest r.blocks, regs⟩ := by
  obtain ⟨blk, hblk, hops, hbegin⟩ := h.block hb
  have hrest : b.rest r.blocks = blk.ops := by rw [rest, hops, hempty, List.length_nil, List.drop_zero]
  rw [hrest]
  rw [hempty] at hbegin
  exact Config.enterBlock_plain hblk hbegin.plain_drop

/-- Control enters a block that starts with a phi, takes over a value along the edge that it comes
from, and is where the builder goes on behind the phi. -/
theorem Inside.enterBlock_phi {dest reg source : Nat} {edges : List (Nat × Nat)} {regs : Registers}
    {x : Value} (h : b.Inside pending r declared) (hb : b.Open pending)
    (hphi : opsOf b.blocks b.current = [.phi dest edges])
    (hedge : ∀ more ops, opsOf r.blocks b.current = .phi dest more :: ops →
      more.find? (·.2 == source) = some (reg, source))
    (hx : regs.Holds reg x) (hdest : dest < regs.size) :
    Frame.enterBlock r regs (some source) b.current =
      .ok ⟨r, b.current, b.rest r.blocks, regs.set! dest (some x)⟩ := by
  obtain ⟨blk, hblk, hops, hbegin⟩ := h.block hb
  rw [hphi] at hbegin
  obtain ⟨more, ops, hall, -, hempty⟩ := hbegin.of_phi
  have hrest : b.rest r.blocks = ops := by rw [rest, hops, hall, hphi]; rfl
  rw [hrest]
  exact Config.enterBlock_phi hblk hall hempty.plain_drop (hedge more ops (hops.trans hall)) hx hdest

/-- The edges that a builder knows of a phi are those of the finished phi that come first. -/
theorem Inside.find_edge {block dest : Nat} {edges more : List (Nat × Nat)} {ops ops' : List Op}
    {reg source : Nat} (h : b.Inside pending r declared) (hlt : block < b.blocks.length)
    (hfree : ¬ pending block) (hphi : opsOf b.blocks block = .phi dest edges :: ops)
    (hall : opsOf r.blocks block = .phi dest more :: ops')
    (hfind : edges.find? (·.2 == source) = some (reg, source)) :
    more.find? (·.2 == source) = some (reg, source) := by
  have hbegin := h.within.begin hlt hfree
  rw [hphi, hall] at hbegin
  obtain ⟨_, _, heq, hprefix, -⟩ := hbegin.of_phi
  cases heq
  exact hprefix.find?_eq_some hfind

/-- The variable of a loop comes from where the loop is entered, and from where its rounds end. -/
theorem Inside.loop_edges {b₂ : Builder} {v : String} {first next value : Nat}
    {shadowed : Option Nat} {more : List (Nat × Nat)} {ops : List Op}
    (h : (b₂.closeLoop v shadowed b.blocks.length b.regTypes.length next value).Inside pending r
      declared) (hb : b.Open pending) (g : Grown (b.openLoop v first) b₂)
    (hall : opsOf r.blocks b.blocks.length = .phi b.regTypes.length more :: ops) :
    more.find? (·.2 == b.current) = some (first, b.current) ∧
      more.find? (·.2 == b₂.current) = some (next, b₂.current) := by
  have hlt := hb.ready.current_lt
  have hlen := g.length_le
  have hcur := g.current
  obtain ⟨ops₂, hops₂⟩ := g.opsOf_prefix (hb.ready.openLoop v first)
  rw [openLoop_current, opsOf_openLoop v first hb.ready] at hops₂
  rw [openLoop_current, openLoop_blocks_length] at hcur
  rw [openLoop_blocks_length] at hlen
  obtain ⟨ops', hphi⟩ := opsOf_closeLoop v shadowed next value hops₂.symm
  have hblock : b.blocks.length <
      (b₂.closeLoop v shadowed b.blocks.length b.regTypes.length next value).blocks.length := by
    rw [closeLoop_blocks_length]
    omega
  have hfree : ¬ pending b.blocks.length := fun hp => absurd (hb.known _ hp) (Nat.lt_irrefl _)
  have hne : b.current ≠ b₂.current := by omega
  exact ⟨h.find_edge hblock hfree hphi hall (by simp),
    h.find_edge hblock hfree hphi hall (by simp [hne])⟩

end

end Builder

end PoseLang
