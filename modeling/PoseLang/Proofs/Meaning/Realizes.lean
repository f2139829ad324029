import PoseLang.Proofs.Machine.Reaches
import PoseLang.Proofs.Meaning.Evaluation

/-!
# Evaluations that the machine realizes

The machine realizes an evaluation from a configuration if it does what the evaluation says: it
reaches a configuration that has the value, in the world that the evaluation leaves; or it fails as
the evaluation fails; or, if the evaluation is not at its end with its ticks, it takes at least as
many steps. The last is what ties going on forever to running out of every budget: nothing spends a
tick without the machine taking a step.

`Config.Realizes.bind` follows one evaluation by another, so that a simulation is put together the
way the evaluator is.
-/

namespace PoseLang

/-- What evaluation sees of a machine. -/
def Machine.world (m : Machine) : World :=
  ⟨m.memory, m.output⟩

/-- The faults that lowered code can run into: too many functions inside each other, or a function
that nobody implements. -/
def Fault.IsLimit (f : Fault) : Prop :=
  f = .depthExceeded ∨ ∃ name, f = .noHost name

/-- The machine does from a configuration what an evaluation says. What it reaches with a value is
told by `post`. -/
def Config.Realizes {α : Type} (p : Program) (ticks : Nat) (post : α → Config → Prop) (c : Config) :
    Option (Except Failure α × World) → Prop
  | none => ∃ n c', ticks ≤ n ∧ c.Reaches p n c'
  | some (.ok v, w) => ∃ n c', c.Reaches p n c' ∧ c'.machine.world = w ∧ post v c'
  | some (.error (.fault e), w) =>
    ∃ n c' m, c.Reaches p n c' ∧ c'.step p = .failed e m ∧ m.world = w ∧ e.fault.IsLimit
  | some (.error .meaningless, _) => False

namespace Config.Realizes

variable {α β : Type} {p : Program} {ticks : Nat} {c c₁ : Config} {post : α → Config → Prop}
  {r : Option (Except Failure α × World)}

/-- A value that is there already. -/
theorem value {v : α} {w : World} (hw : c.machine.world = w) (h : post v c) :
    c.Realizes p ticks post (some (.ok v, w)) :=
  ⟨0, c, .refl, hw, h⟩

theorem of_reaches {n : Nat} (hsteps : c.Reaches p n c₁) (h : c₁.Realizes p ticks post r) :
    c.Realizes p (n + ticks) post r := by
  match r, h with
  | none, ⟨k, c₂, hk, hreach⟩ => exact ⟨n + k, c₂, Nat.add_le_add_left hk n, hsteps.trans hreach⟩
  | some (.ok v, w), ⟨k, c₂, hreach, hw, hv⟩ => exact ⟨n + k, c₂, hsteps.trans hreach, hw, hv⟩
  | some (.error (.fault e), w), ⟨k, c₂, m, hreach, hfail⟩ =>
    exact ⟨n + k, c₂, m, hsteps.trans hreach, hfail⟩

theorem of_le {more : Nat} (h : c.Realizes p more post r) (hle : ticks ≤ more) :
    c.Realizes p ticks post r := by
  match r, h with
  | none, ⟨k, c₂, hk, hreach⟩ => exact ⟨k, c₂, Nat.le_trans hle hk, hreach⟩
  | some (.ok v, w), h => exact h
  | some (.error (.fault e), w), h => exact h

/-- A step on the way. -/
theorem step (hstep : c.step p = .next c₁) (h : c₁.Realizes p ticks post r) :
    c.Realizes p ticks post r :=
  (of_reaches (.step hstep .refl) h).of_le (Nat.le_add_left _ _)

/-- A step that a tick is spent for. -/
theorem tick (hstep : c.step p = .next c₁) (h : c₁.Realizes p ticks post r) :
    c.Realizes p (ticks + 1) post r :=
  (of_reaches (.step hstep .refl) h).of_le (by omega)

/-- A step that fails. -/
theorem failed {e : RunError} {m : Machine} {w : World} (hstep : c.step p = .failed e m)
    (hw : m.world = w) (he : e.fault.IsLimit) :
    c.Realizes p ticks post (some (.error (.fault e), w)) :=
  ⟨0, c, m, .refl, hstep, hw, he⟩

theorem imp {post' : α → Config → Prop} (h : c.Realizes p ticks post r)
    (himp : ∀ v c', post v c' → post' v c') : c.Realizes p ticks post' r := by
  match r, h with
  | none, h => exact h
  | some (.ok v, w), ⟨k, c₂, hreach, hw, hv⟩ => exact ⟨k, c₂, hreach, hw, himp v c₂ hv⟩
  | some (.error (.fault e), w), h => exact h

/-- One evaluation behind another. -/
theorem bind {x : Eval α} {f : α → Eval β} {post' : β → Config → Prop} {w : World}
    (h : c.Realizes p ticks post (x w))
    (hnext : ∀ v c', post v c' → c'.Realizes p ticks post' (f v c'.machine.world)) :
    c.Realizes p ticks post' ((x >>= f) w) := by
  rw [Eval.bind_apply]
  generalize hx : x w = r at h
  match r, h with
  | none, h => exact h
  | some (.ok v, w'), ⟨k, c₂, hreach, hw, hv⟩ =>
    subst hw
    exact (of_reaches hreach (hnext v c₂ hv)).of_le (Nat.le_add_left _ _)
  | some (.error (.fault e), w'), h => exact h

/-- Steps behind an evaluation that leave its value and its world as they are. -/
theorem followed {post' : α → Config → Prop} (h : c.Realizes p ticks post r)
    (hnext : ∀ v c', post v c' → c'.Realizes p ticks post' (some (.ok v, c'.machine.world))) :
    c.Realizes p ticks post' r := by
  match r, h with
  | none, h => exact h
  | some (.ok v, w), ⟨k, c₂, hreach, hw, hv⟩ =>
    subst hw
    exact (of_reaches hreach (hnext v c₂ hv)).of_le (Nat.le_add_left _ _)
  | some (.error (.fault e), w), h => exact h

/-- An evaluation that takes the number that another one gives. -/
theorem bind_number {x : Eval Value} {f : Float → Eval β} {post : Value → Config → Prop}
    {post' : β → Config → Prop} {w : World} (h : c.Realizes p ticks post (x w))
    (hfloat : ∀ v c', post v c' → ∃ y, v = .float y)
    (hnext : ∀ y c', post (.float y) c' → c'.Realizes p ticks post' (f y c'.machine.world)) :
    c.Realizes p ticks post' ((do let y ← Eval.number (← x); f y) w) := by
  refine h.bind fun v c' hv => ?_
  obtain ⟨y, rfl⟩ := hfloat v c' hv
  rw [Eval.number_bind]
  exact hnext y c' hv

/-- Rounds one after the other. `top` holds where a round starts, `turn` where it is known whether
another one follows; the step from there to the next round is what a tick is spent for. -/
theorem rounds {round : Float → Eval (Option Float)} {post : Unit → Config → Prop} {x : Float}
    {k : Nat} (top : Float → Config → Prop) (turn : Option Float → Config → Prop)
    (hround : ∀ x c, top x c → c.Realizes p ticks turn (round x c.machine.world))
    (hagain : ∀ x c, turn (some x) c → ∃ c', c.step p = .next c' ∧
      c'.machine.world = c.machine.world ∧ top x c')
    (hleave : ∀ c, turn none c → c.Realizes p ticks post (some (.ok (), c.machine.world)))
    (htop : top x c) (hk : k ≤ ticks) :
    c.Realizes p k post (Eval.rounds round k x c.machine.world) := by
  induction k generalizing x c with
  | zero => exact ⟨0, c, Nat.le_refl _, .refl⟩
  | succ k ih =>
    refine ((hround x c htop).of_le hk).bind fun o c₁ hturn => ?_
    cases o with
    | none => exact (hleave c₁ hturn).of_le hk
    | some next =>
      obtain ⟨c₂, hstep, hworld, htop⟩ := hagain next c₁ hturn
      rw [← hworld]
      exact .tick hstep (ih htop (by omega))

end Config.Realizes

end PoseLang
