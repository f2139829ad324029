import PoseLang.Proofs.Meaning.Calls

/-!
# What compiled sources mean

Where a source has been compiled the program implements it, and so what calls do is what they mean.
-/

namespace PoseLang

namespace Machine

/-- A call does what an evaluation says, whether or not there is such a function. -/
def Follows (p : Program) (ticks : Nat) (m : Machine) (name : String) (args : List Float) :
    Option (Except Failure Value × World) → Prop
  | none => ∀ budget, budget - m.steps + 1 < ticks → m.Exhausts p budget name args
  | some (.ok v, w) => ∃ m', m.Ends p name args (.ok v) m' ∧ m'.world = w
  | some (.error (.fault e), w) => ∃ m', m.Ends p name args (.error e) m' ∧ m'.world = w
  | some (.error .meaningless, _) => False

theorem Realizes.follows {p : Program} {ticks : Nat} {ret : Ty} {m : Machine} {name : String}
    {args : List Float} {result : Option (Except Failure Value × World)}
    (h : m.Realizes p ticks ret name args result) : m.Follows p ticks name args result := by
  match result, h with
  | none, h => exact h
  | some (.ok v, w), ⟨m', hends, hw, _⟩ => exact ⟨m', hends, hw⟩
  | some (.error (.fault e), w), ⟨m', hends, hw, _⟩ => exact ⟨m', hends, hw⟩

end Machine

theorem Source.Implemented.follows {s : Source} {p : Program} (h : s.Implemented p) (ticks : Nat)
    (m : Machine) (name : String) (args : List Float) :
    m.Follows p ticks name args (s.call ticks name args m.world) := by
  cases hr : p.get? name with
  | none =>
    obtain ⟨hcall, hends⟩ := h.call_unknown hr ticks m args
    rw [hcall]
    exact ⟨m, hends, rfl⟩
  | some r =>
    by_cases hlen : r.arity = args.length
    · exact (h.call ticks m hr hlen).follows
    · obtain ⟨hcall, hends⟩ := h.call_arity hr hlen ticks m
      rw [hcall]
      exact ⟨m, hends, rfl⟩

/-- Lowering keeps the meaning of a source. A call on the machine ends as the evaluation of the source
ends, with the same value or the same failure, the same records and the same text, once the budget
allows for the steps that it takes; the source is never without meaning; and a call whose evaluation
does not come to an end is stopped by every budget. -/
theorem Compiled.call_means {records : Registry} {s : Source} {c : Context}
    (h : Compiled records s c) (m : Machine) (name : String) (args : List Float) :
    (∀ ticks v w, s.call ticks name args m.world = some (.ok v, w) →
      ∃ m', m.Ends c.program name args (.ok v) m' ∧ m'.world = w) ∧
    (∀ ticks e w, s.call ticks name args m.world = some (.error (.fault e), w) →
      ∃ m', m.Ends c.program name args (.error e) m' ∧ m'.world = w) ∧
    (∀ ticks w, s.call ticks name args m.world ≠ some (.error .meaningless, w)) ∧
    ((∀ ticks, s.call ticks name args m.world = none) →
      ∀ budget, m.Exhausts c.program budget name args) := by
  have hfollows := fun ticks => h.implemented.follows ticks m name args
  refine ⟨fun ticks v w hcall => ?_, fun ticks e w hcall => ?_, fun ticks w hcall => ?_,
    fun hcall budget => ?_⟩
  · have hends := hfollows ticks
    rw [hcall] at hends
    exact hends
  · have hends := hfollows ticks
    rw [hcall] at hends
    exact hends
  · have hnever := hfollows ticks
    rw [hcall] at hnever
    exact hnever
  · have hstopped := hfollows (budget - m.steps + 2)
    rw [hcall] at hstopped
    exact hstopped budget (Nat.lt_succ_self _)

/-- A function with a loop, a conditional inside of it, and a call of itself inside of that. -/
def countDown : Definition where
  proto := { name := "count", params := ["n"] }
  body := .loop none "i" (.num none 1) (.binary none '<' (.var none "i") (.var none "n")) none
    (.cond none (.var none "n")
      (.call none "count" [.binary none '-' (.var none "n") (.num none 1)]) (.num none 0))

/-- The number that a call of a source comes to, on a fresh machine. -/
def Source.number? (s : Source) (ticks : Nat) (name : String) (args : List Float) : Option Float :=
  match s.call ticks name args (Machine.world {}) with
  | some (.ok (.float x), _) => some x
  | _ => none

theorem Compiled.call_means_countDown : ∃ c x m',
    Compiled ∅ ((Source.empty ∅).define countDown) c ∧ (x == 0) = true ∧
      Machine.Ends c.program {} "count" [2] (.ok (.float x)) m' := by
  have hany : (((Source.empty ∅).define countDown).number? 4 "count" [2]).any (· == 0) = true := by
    decide +kernel
  obtain ⟨x, hnumber, hzero⟩ := (Option.any_eq_true _ _).mp hany
  cases hdefine : (Context.start ∅).define countDown with
  | error e =>
    have hdefined : ((Context.start ∅).define countDown).isOk = true := by decide +kernel
    rw [hdefine] at hdefined
    cases hdefined
  | ok defined =>
    have hcompiled : Compiled ∅ ((Source.empty ∅).define countDown) defined.2 := .define .start hdefine
    unfold Source.number? at hnumber
    split at hnumber
    next y w hcall =>
      cases hnumber
      obtain ⟨m', hends, -⟩ := (hcompiled.call_means {} "count" [2]).1 4 _ _ hcall
      exact ⟨defined.2, x, m', hcompiled, hzero, hends⟩
    next => cases hnumber

end PoseLang
