import PoseLang.Expr.Parser
import PoseLang.Proofs.Expr.Grammar

/-!
# What has been read in the middle of an expression

The parser keeps what it has begun as a stack of frames. Here stands which tokens each frame was read
from, what makes the frames of a stack fit each other (`Pending`), and what the phase adds to them
(`Read`). The operators that wait directly above each other bind tighter and tighter (`Tighter`).
-/

namespace PoseLang

namespace Expr

variable {d : Dialect}

/-! ## Calls with all their arguments -/

theorem zipIdx_map_swap {α : Type} (xs : List α) :
    (xs.zipIdx.map fun p => (p.2, p.1)) = (List.range xs.length).zip xs := by
  apply List.ext_getElem
  · simp
  · intro i h₁ h₂
    simp

/-- A call is a call, or a record with a value for each of its fields. -/
theorem ofCall_eq_ok {records : Registry} {loc : Option Location} {callee : String} {es : List Expr}
    {e : Expr} : ofCall records loc callee es = .ok e ↔
      (records[callee]? = none ∧ e = .call loc callee es) ∨
        ∃ layout, records[callee]? = some layout ∧ es.length = layout.width ∧
          e = .construct loc (.alloc loc callee) ((List.range layout.width).zip es) := by
  unfold ofCall
  constructor
  · intro h
    split at h
    next hplain =>
      cases h
      exact .inl ⟨hplain, rfl⟩
    next layout hrecord =>
      split at h
      next hwidth =>
        cases h
        exact .inr ⟨layout, hrecord, hwidth, by rw [zipIdx_map_swap, hwidth]⟩
      next => cases h
  · rintro (⟨hplain, rfl⟩ | ⟨layout, hrecord, hwidth, rfl⟩)
    · rw [hplain]
    · simp only [hrecord, zipIdx_map_swap, hwidth, if_true]

/-! ## Frames, stacks and phases -/

/-- The operator that waits on top of the stack, if there is one, binds looser. -/
def Tighter (p : Int32) : List Frame → Prop
  | .operator _ _ q _ :: _ => q < p
  | _ => True

/-- The tokens that a frame was read from, and the precedences of the operators of its chain. -/
inductive Frame.Spelled (d : Dialect) : List Token → List Int32 → Frame → Prop
  | operator {ls : List Token} {ps : List Int32} {l : Expr} {t : Token} {op : Char} {p : Int32}
    (hl : Chain d .closed ls ps l) (ht : d.operators.binary? t = some (op, p))
    (hps : ∀ q ∈ ps, p ≤ q) :
    Spelled d (ls ++ [t]) (ps ++ [p]) (.operator t.location op p l)
  | group {l : Token} (hl : l.kind = .leftParen) : Spelled d [l] [] .group
  | argument {t l : Token} {cs : List Token} {es : List Expr} (ht : t.kind = .identifier)
    (hl : l.kind = .leftParen) (hcs : Leading d cs es) :
    Spelled d (t :: l :: cs) [] (.argument t.location t.name es.reverse)
  | condition {i : Token} (hi : i.kind = .kwIf) : Spelled d [i] [] (.condition i.location)
  | thenBranch {i t : Token} {cs : List Token} {ending : Ending} {ps : List Int32} {c : Expr}
    (hi : i.kind = .kwIf) (hc : Chain d ending cs ps c) (ht : t.kind = .kwThen) :
    Spelled d (i :: cs ++ [t]) [] (.thenBranch i.location c)
  | elseBranch {i t f : Token} {cs ts : List Token} {ec et : Ending} {pc pt : List Int32}
    {c th : Expr} (hi : i.kind = .kwIf) (hc : Chain d ec cs pc c) (ht : t.kind = .kwThen)
    (hth : Chain d et ts pt th) (hf : f.kind = .kwElse) :
    Spelled d (i :: cs ++ t :: ts ++ [f]) [] (.elseBranch i.location c th)
  | loopStart {f x q : Token} (hf : f.kind = .kwFor) (hx : x.kind = .identifier)
    (hq : q.kind = .equal) : Spelled d [f, x, q] [] (.loopStart f.location x.name)
  | loopTest {f x q c : Token} {ss : List Token} {es : Ending} {ps : List Int32} {s : Expr}
    (hf : f.kind = .kwFor) (hx : x.kind = .identifier) (hq : q.kind = .equal)
    (hs : Chain d es ss ps s) (hc : c.kind = .comma) :
    Spelled d (f :: x :: q :: ss ++ [c]) [] (.loopTest f.location x.name s)
  | loopStep {f x q c c' : Token} {ss ts : List Token} {es et : Ending} {ps pt : List Int32}
    {s test : Expr} (hf : f.kind = .kwFor) (hx : x.kind = .identifier) (hq : q.kind = .equal)
    (hs : Chain d es ss ps s) (hc : c.kind = .comma) (htest : Chain d et ts pt test)
    (hc' : c'.kind = .comma) :
    Spelled d (f :: x :: q :: ss ++ c :: ts ++ [c']) [] (.loopStep f.location x.name s test)
  | loopBody {f x q c n : Token} {ss ts us : List Token} {es et : Ending} {ps pt : List Int32}
    {s test : Expr} {step : Option Expr} (hf : f.kind = .kwFor) (hx : x.kind = .identifier)
    (hq : q.kind = .equal) (hs : Chain d es ss ps s) (hc : c.kind = .comma)
    (htest : Chain d et ts pt test) (hstep : StepPart d us step) (hn : n.kind = .kwIn) :
    Spelled d (f :: x :: q :: ss ++ c :: ts ++ us ++ [n]) []
      (.loopBody f.location x.name s test step)

/-- The tokens that a stack was read from. The operators of a chain stay tighter than the operator
that waits below them. -/
inductive Pending (d : Dialect) : List Token → List Frame → Prop
  | nil : Pending d [] []
  | cons {cs os : List Token} {ps : List Int32} {frame : Frame} {stack : List Frame}
    (below : Pending d cs stack) (hframe : frame.Spelled d os ps)
    (hps : ∀ q ∈ ps, Tighter q stack) : Pending d (cs ++ os) (frame :: stack)

/-- The tokens of a phase, behind those of the stack. -/
inductive Phase.Spelled (d : Dialect) : List Token → Phase → Prop
  | operand : Spelled d [] .operand
  | operandDone {os : List Token} {e : Expr} (he : Primary d .closed os e) :
    Spelled d os (.operandDone e)
  | named {t : Token} (ht : t.kind = .identifier) : Spelled d [t] (.named t.location t.name)
  | callOpened {t l : Token} (ht : t.kind = .identifier) (hl : l.kind = .leftParen) :
    Spelled d [t, l] (.callOpened t.location t.name)
  | loopVariable {f : Token} (hf : f.kind = .kwFor) : Spelled d [f] (.loopVariable f.location)
  | loopEquals {f x : Token} (hf : f.kind = .kwFor) (hx : x.kind = .identifier) :
    Spelled d [f, x] (.loopEquals f.location x.name)

/-- The tokens that the parser has read when it is in a phase with a stack. -/
def Read (d : Dialect) (cs : List Token) (phase : Phase) (stack : List Frame) : Prop :=
  ∃ us os, cs = us ++ os ∧ Pending d us stack ∧ phase.Spelled d os

theorem Read.start : Read d [] .operand [] :=
  ⟨[], [], rfl, .nil, .operand⟩

/-! ## Operators that take in an operand -/

theorem Tighter.trans {p q : Int32} {stack : List Frame} (h : Tighter p stack) (hpq : p ≤ q) :
    Tighter q stack := by
  unfold Tighter at h ⊢
  split
  next => exact Int32.lt_of_lt_of_le h hpq
  next => trivial

/-- Nothing waits for an operand in front of a tighter operator. -/
theorem reduce_of_tighter {p : Int32} {stack : List Frame} (h : Tighter p stack) (e : Expr) :
    reduce p e stack = (e, stack) := by
  unfold reduce
  split
  next => exact if_pos h
  next => rfl

/-- The operators that are taken in continue the chain, and the rest of the stack waits for it. -/
theorem Pending.reduce {us os : List Token} {qs : List Int32} {e e' : Expr} {p : Int32}
    {stack stack' : List Frame} (h : Pending d us stack) (he : Chain d .closed os qs e)
    (habove : ∀ q ∈ qs, Tighter q stack) (hqs : ∀ q ∈ qs, p ≤ q)
    (hreduce : reduce p e stack = (e', stack')) :
    ∃ us' os' qs', us ++ os = us' ++ os' ∧ Pending d us' stack' ∧ Chain d .closed os' qs' e' ∧
      (∀ q ∈ qs', p ≤ q) ∧ ∀ q ∈ qs' ++ [p], Tighter q stack' := by
  induction h generalizing os qs e with
  | nil =>
    cases hreduce
    exact ⟨[], os, qs, rfl, .nil, he, hqs, fun _ _ => trivial⟩
  | @cons cs os₁ ps frame stack below hframe hps ih =>
    by_cases hp : Tighter p (frame :: stack)
    · rw [reduce_of_tighter hp] at hreduce
      cases hreduce
      refine ⟨cs ++ os₁, os, qs, rfl, below.cons hframe hps, he, hqs, fun q hq => ?_⟩
      rcases List.mem_append.mp hq with hq | hq
      · exact habove q hq
      · exact List.mem_singleton.mp hq ▸ hp
    · cases hframe with
      | @operator ls ps l t op p₁ hl ht hleft =>
        have hlt : ¬ p₁ < p := hp
        have hright : ∀ q ∈ qs, p₁ < q := habove
        have hlow := le_of_mem_link hleft hright
        have hp₁ : Tighter p₁ stack := hps p₁ (by simp)
        rw [Expr.reduce, if_neg hlt] at hreduce
        obtain ⟨us', os', qs', heq, hpending, hchain, hqs', htight⟩ :=
          ih (.link hl ht he hleft hright) (fun q hq => hp₁.trans (hlow q hq))
            (fun q hq => Int32.le_trans (Int32.not_lt.mp hlt) (hlow q hq)) hreduce
        exact ⟨us', os', qs', by simpa using heq, hpending, hchain, hqs', htight⟩
      | _ => exact absurd trivial hp

end Expr

end PoseLang
