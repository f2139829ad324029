import PoseLang.Proofs.Lowering.Growth

/-!
# A builder within the finished code

Code runs in the finished routine, while its lowering saw a builder on the way. `Builder.Within` ties
the two: each block of the builder is the beginning of a block of the finished code. Two things
happen to it later. Operations are added at its end, of which none is a phi; and a phi may gain
edges, as that of a loop does when the loop is closed.

A block that waits for its phi is no such beginning yet; the blocks that wait are listed as pending.
The blocks where branches join wait from the time they are opened until both branches are lowered.

The lemmas go backwards, from a builder to the one before it: what holds of the finished code came
from a builder that holds it whole.
-/

namespace PoseLang

/-- An operation and what becomes of it: a phi may gain edges. -/
inductive Op.Becomes : Op → Op → Prop
  | same {op : Op} : Becomes op op
  | edges {dest : Nat} {some all : List (Nat × Nat)} (more : some <+: all) :
    Becomes (.phi dest some) (.phi dest all)

/-- Operations and the block that they become: phis may gain edges, and operations that are no phis
are added. -/
inductive Op.Begin : List Op → List Op → Prop
  | rest {all : List Op} (plain : ∀ op ∈ all, op.isPhi = false) : Begin [] all
  | cons {op op' : Op} {ops all : List Op} (head : op.Becomes op') (tail : Begin ops all) :
    Begin (op :: ops) (op' :: all)

namespace Op

theorem Becomes.trans {op op₁ op₂ : Op} (h : op.Becomes op₁) (h' : op₁.Becomes op₂) :
    op.Becomes op₂ := by
  cases h with
  | same => exact h'
  | edges more =>
    cases h' with
    | same => exact .edges more
    | edges more' => exact .edges (more.trans more')

theorem Becomes.eq {op op' : Op} (h : op.Becomes op') (hop : op.isPhi = false) : op' = op := by
  cases h with
  | same => rfl
  | edges => cases hop

namespace Begin

variable {ops all : List Op} {op : Op}

/-- An operation that is no phi may as well have been added later. -/
theorem of_snoc (h : Begin (ops ++ [op]) all) (hop : op.isPhi = false) : Begin ops all := by
  induction ops generalizing all with
  | nil =>
    cases h with
    | cons head tail =>
      cases tail with
      | rest plain =>
        obtain rfl := head.eq hop
        refine .rest fun o ho => ?_
        rcases List.mem_cons.mp ho with rfl | ho
        · exact hop
        · exact plain o ho
  | cons first ops ih =>
    cases h with
    | cons head tail => exact .cons head (ih tail)

/-- Behind a beginning the finished block goes on with what was added to it. -/
theorem drop_snoc (h : Begin (ops ++ [op]) all) (hop : op.isPhi = false) :
    all.drop ops.length = op :: all.drop (ops ++ [op]).length := by
  induction ops generalizing all with
  | nil =>
    cases h with
    | cons head tail =>
      obtain rfl := head.eq hop
      rfl
  | cons first ops ih =>
    cases h with
    | cons head tail => exact ih tail

/-- What is added behind a beginning are no phis. -/
theorem plain_drop (h : Begin ops all) : ∀ o ∈ all.drop ops.length, o.isPhi = false := by
  induction h with
  | rest plain => exact plain
  | cons head tail ih => exact ih

/-- A phi at the start of a block keeps its place and its edges. -/
theorem of_phi {dest : Nat} {edges : List (Nat × Nat)} (h : Begin (.phi dest edges :: ops) all) :
    ∃ more rest, all = .phi dest more :: rest ∧ edges <+: more ∧ Begin ops rest := by
  cases h with
  | cons head tail =>
    cases head with
    | same => exact ⟨edges, _, rfl, List.prefix_refl _, tail⟩
    | edges more => exact ⟨_, _, rfl, more, tail⟩

/-- A phi with an edge more becomes what the phi becomes. -/
theorem of_addEdge {dest : Nat} {edge : Nat × Nat} (h : Begin (Builder.addEdge dest edge ops) all) :
    Begin ops all := by
  fun_induction Builder.addEdge dest edge ops generalizing all with
  | case1 => exact h
  | case2 incoming ops =>
    cases h with
    | cons head tail => exact .cons (.trans (.edges (List.prefix_append _ _)) head) tail
  | case3 d incoming ops hne ih =>
    cases h with
    | cons head tail => exact .cons head (ih tail)
  | case4 op ops hne ih =>
    cases h with
    | cons head tail => exact .cons head (ih tail)

end Begin

end Op

namespace Builder

/-- Each block of a builder is the beginning of a block of some code, unless it is pending. -/
def Within (pending : Nat → Prop) (code : List Block) (b : Builder) : Prop :=
  ∀ (i : Nat) (blk : Block), b.blocks[i]? = some blk →
    ∃ all, code[i]? = some all ∧ (pending i ∨ Op.Begin blk.ops all.ops)

namespace Within

variable {pending : Nat → Prop} {code : List Block} {b b' : Builder}

theorem of_blocks (h : Within pending code b') (hblocks : b'.blocks = b.blocks) :
    Within pending code b := by
  simpa only [Within, hblocks] using h

/-- A step that changes one block, and that block back to a beginning of what it became. -/
theorem of_modify {k : Nat} {f : Block → Block} (h : Within pending code b')
    (hblocks : b'.blocks = b.blocks.modify k f)
    (hback : ∀ (blk : Block) (all : List Op), Op.Begin (f blk).ops all → Op.Begin blk.ops all) :
    Within pending code b := by
  intro i blk hblk
  by_cases hk : k = i
  · obtain ⟨all, hall, hbegin⟩ := h i (f blk) (by simp [hblocks, hk, hblk])
    exact ⟨all, hall, hbegin.imp id (hback blk all.ops)⟩
  · exact h i blk (by simp [hblocks, hk, hblk])

theorem of_emit {op : Op} (h : Within pending code (b.emit op)) (hop : op.isPhi = false) :
    Within pending code b :=
  h.of_modify rfl fun _ _ hbegin => hbegin.of_snoc hop

theorem of_put {ty : Ty} {op : Nat → Op} (h : Within pending code (b.put ty op))
    (hop : (op b.regTypes.length).isPhi = false) : Within pending code b :=
  of_blocks (of_emit h hop) rfl

theorem of_appendBlock {label : String} (h : Within pending code (b.appendBlock label).2) :
    Within pending code b := by
  intro i blk hblk
  have hi : i < b.blocks.length := (List.getElem?_eq_some_iff.mp hblk).1
  refine h i blk ?_
  rw [appendBlock, List.getElem?_append_left hi]
  exact hblk

theorem of_addPhiEdge {block dest : Nat} {edge : Nat × Nat}
    (h : Within pending code (b.addPhiEdge block dest edge)) : Within pending code b :=
  h.of_modify rfl fun _ _ hbegin => hbegin.of_addEdge

theorem of_jumpTo {target next : Nat} (h : Within pending code (b.jumpTo target next)) :
    Within pending code b :=
  of_emit (of_blocks h rfl) rfl

theorem of_openBranches {value : Nat} (h : Within pending code (b.openBranches value)) :
    Within pending code b := by
  have forked : Within pending code _ := of_emit (of_blocks h rfl) rfl
  exact of_put (of_appendBlock (of_appendBlock (of_appendBlock forked))) rfl

/-- Before its phi a block is pending. -/
theorem of_phi {ty : Ty} {edges : List (Nat × Nat)} (h : Within pending code (b.put ty (.phi · edges))) :
    Within (fun i => i = b.current ∨ pending i) code b := by
  intro i blk hblk
  by_cases hi : b.current = i
  · obtain ⟨all, hall, -⟩ := h i (blk.push (.phi b.regTypes.length edges))
      (by simp [put, emit, newReg, hi, hblk])
    exact ⟨all, hall, .inl (.inl hi.symm)⟩
  · obtain ⟨all, hall, hbegin⟩ := h i blk (by simp [put, emit, newReg, hi, hblk])
    exact ⟨all, hall, hbegin.imp .inr id⟩

theorem of_joinBranches {merge : Nat} {ty : Ty} {edges : List (Nat × Nat)}
    (h : Within pending code (b.joinBranches merge ty edges)) :
    Within (fun i => i = merge ∨ pending i) code b :=
  of_jumpTo (of_phi h)

/-- A block that the builder does not have yet need not be pending. -/
theorem of_pending {k : Nat} (h : Within (fun i => i = k ∨ pending i) code b)
    (hk : b.blocks.length ≤ k) : Within pending code b := by
  intro i blk hblk
  obtain ⟨all, hall, hbegin⟩ := h i blk hblk
  have hi : i < b.blocks.length := (List.getElem?_eq_some_iff.mp hblk).1
  exact ⟨all, hall, hbegin.imp (fun hor => hor.resolve_left (by omega)) id⟩

theorem of_openLoop {v : String} {first : Nat} (h : Within pending code (b.openLoop v first)) :
    Within pending code b := by
  have opened : Within (fun i => i = b.blocks.length ∨ pending i) code _ := of_phi (of_blocks h rfl)
  exact of_pending (of_appendBlock (of_jumpTo opened)) (Nat.le_refl _)

theorem of_closeLoop {v : String} {shadowed : Option Nat} {block counter next value : Nat}
    (h : Within pending code (b.closeLoop v shadowed block counter next value)) :
    Within pending code b := by
  have edged : Within pending code _ := of_blocks h (restore_blocks _ v shadowed)
  have branched : Within pending code _ := of_addPhiEdge (of_blocks edged rfl)
  exact of_put (of_appendBlock (of_emit branched rfl)) rfl

theorem of_storeField {record : String} {base value field : Nat}
    (h : Within pending code (b.storeField record base value field)) : Within pending code b :=
  of_put (of_emit h rfl) rfl

theorem of_need {t : Target} (h : Within pending code (b.need t)) : Within pending code b :=
  of_blocks h (need_blocks b t)

end Within

end Builder

section

open Builder

variable {c : Context} {code : List Block}

mutual

/-- Code that holds what lowering an expression left holds what there was before. -/
theorem Lowered.within : ∀ {e : Expr} {b b' : Builder} {r : Nat} {pending : Nat → Prop},
    Lowered c e b r b' → b'.Within pending code → b.Within pending code
  | _, _, _, _, _, .num, h => .of_put h rfl
  | _, _, _, _, _, .var _, h => h
  | _, _, _, _, _, .binary first second _ _ _, h => first.within (second.within (.of_put h rfl))
  | _, _, _, _, _, .call _ _ given, h => given.within (.of_need (.of_put h rfl))
  | _, _, _, _, _, .cond test _ first second _, h => by
    have joined := second.within (Within.of_joinBranches h)
    have branched := first.within (Within.of_jumpTo joined)
    exact test.within (.of_pending (Within.of_openBranches branched) (by omega))
  | _, _, _, _, _, .loop started _ ran stepped tested _ closed, h => by
    subst closed
    have tested := tested.within (Within.of_closeLoop (Within.of_put h rfl))
    exact started.within (.of_openLoop (ran.within (stepped.within (.of_put tested rfl))))
  | _, _, _, _, _, .alloc _, h => .of_put h rfl
  | _, _, _, _, _, .construct storage _ _ filled, h => storage.within (filled.within h)

theorem LoweredArgs.within : ∀ {es : List Expr} {b b' : Builder} {regs : List Nat}
    {pending : Nat → Prop},
    LoweredArgs c es b regs b' → b'.Within pending code → b.Within pending code
  | _, _, _, _, _, .nil, h => h
  | _, _, _, _, _, .cons head _ tail, h => head.within (tail.within h)

theorem LoweredStep.within : ∀ {stepBy : Option Expr} {b b' : Builder} {r : Nat}
    {pending : Nat → Prop},
    LoweredStep c stepBy b r b' → b'.Within pending code → b.Within pending code
  | _, _, _, _, _, .one, h => .of_put h rfl
  | _, _, _, _, _, .given value _, h => value.within h

theorem LoweredFields.within : ∀ {base width : Nat} {record : String}
    {fields : List (Nat × Expr)} {b b' : Builder} {pending : Nat → Prop},
    LoweredFields c base record width fields b b' → b'.Within pending code →
      b.Within pending code
  | _, _, _, _, _, _, _, .nil, h => h
  | _, _, _, _, _, _, _, .cons _ head _ tail, h => head.within (.of_storeField (tail.within h))

end

end

/-! ## Where lowered code goes on -/

namespace Builder

/-- The operations of a block, none if there is no such block. -/
def opsOf (blocks : List Block) (i : Nat) : List Op :=
  (blocks[i]?).elim [] Block.ops

/-- The operations of the current block in the finished code that the builder does not have yet. -/
def rest (code : List Block) (b : Builder) : List Op :=
  (opsOf code b.current).drop (opsOf b.blocks b.current).length

section

variable {pending : Nat → Prop} {code : List Block} {b : Builder}

/-- A block that is not pending, in the builder and in the code. -/
theorem Within.begin {i : Nat} (h : b.Within pending code) (hi : i < b.blocks.length)
    (hp : ¬ pending i) : Op.Begin (opsOf b.blocks i) (opsOf code i) := by
  obtain ⟨all, hall, hbegin⟩ := h i _ (List.getElem?_eq_getElem hi)
  simpa [opsOf, hall, List.getElem?_eq_getElem hi] using hbegin.resolve_left hp

theorem opsOf_emit (op : Op) (hcur : b.current < b.blocks.length) :
    opsOf (b.emit op).blocks b.current = opsOf b.blocks b.current ++ [op] := by
  simp [opsOf, emit, List.getElem?_eq_getElem hcur, Block.push]

/-- The code goes on with the operation that is emitted next. -/
theorem Within.rest_emit {op : Op} (h : (b.emit op).Within pending code)
    (hcur : b.current < b.blocks.length) (hp : ¬ pending b.current) (hop : op.isPhi = false) :
    b.rest code = op :: (b.emit op).rest code := by
  have hbegin := h.begin (i := b.current) (by simpa using hcur) hp
  rw [opsOf_emit op hcur] at hbegin
  have hdrop := hbegin.drop_snoc hop
  rw [← opsOf_emit op hcur] at hdrop
  exact hdrop

theorem Within.rest_put {ty : Ty} {op : Nat → Op} (h : (b.put ty op).Within pending code)
    (hcur : b.current < b.blocks.length) (hp : ¬ pending b.current)
    (hop : (op b.regTypes.length).isPhi = false) :
    b.rest code = op b.regTypes.length :: (b.put ty op).rest code :=
  Within.rest_emit (b := (b.newReg ty).2) h hcur hp hop

end

end Builder

end PoseLang
