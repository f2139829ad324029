import PoseLang.Proofs.Machine.Effects

/-!
# Budgets cut runs off

The budget of a run says how many steps it may take and has no other influence. A run either goes on
forever, and then every budget stops it; or there is a number of steps that it takes, and then every
budget that allows for them leads to the same end, while a smaller one stops it
(`Config.goesOn_or_endsIn`). On the way text and records are only added, so what a small budget leaves
is the beginning of what a large one leaves (`Machine.grown_run_run`).
-/

namespace PoseLang

/-! ## Runs -/

/-- A run is stopped by the budget. -/
def Config.Exhausts (p : Program) (c : Config) (budget left : Nat) : Prop :=
  ∃ function m, Machine.run p budget left c = (.error ⟨.budgetExhausted budget, function⟩, m)

/-- A run takes a number of steps and then ends with a result and a machine; if fewer steps are left
it is stopped by the budget. -/
structure Config.EndsIn (p : Program) (c : Config) (k : Nat) (result : Except RunError Value)
    (m : Machine) : Prop where
  ends : ∀ budget left, k ≤ left → Machine.run p budget left c = (result, m)
  stopped : ∀ budget left, left < k → c.Exhausts p budget left

/-- A result is not that of a run that was stopped. -/
def RunError.Unbudgeted (result : Except RunError Value) : Prop :=
  ∀ budget function, result ≠ .error ⟨.budgetExhausted budget, function⟩

namespace Config

variable {p : Program} {c c' : Config} {n k : Nat} {result : Except RunError Value} {m : Machine}

theorem ops_ne_nil_of_done {v : Value} (h : c.step p = .done v m) : c.frame.ops ≠ [] := by
  intro hnil
  rw [step, hnil] at h
  cases h

/-- A run that is at its last step. -/
theorem endsIn_one (hops : c.frame.ops ≠ [])
    (hlast : ∀ budget left, Machine.run p budget (left + 1) c = (result, m)) :
    c.EndsIn p 1 result m := by
  refine ⟨fun budget left hle => ?_, fun budget left hlt => ?_⟩
  · obtain ⟨left, rfl⟩ := Nat.exists_eq_add_of_le' hle
    exact hlast budget left
  · obtain rfl := Nat.lt_one_iff.mp hlt
    obtain ⟨m', hm'⟩ := run_zero (p := p) budget hops
    exact ⟨_, m', hm'⟩

/-- Steps on the way to where a run is known to end. -/
theorem Reaches.endsIn (h : Reaches p n c c') (hends : c'.EndsIn p k result m) :
    c.EndsIn p (n + k) result m := by
  refine ⟨fun budget left hle => ?_, fun budget left hlt => ?_⟩
  · obtain ⟨rest, rfl⟩ := Nat.exists_eq_add_of_le (Nat.le_trans (Nat.le_add_right n k) hle)
    rw [h.run]
    exact hends.ends budget rest (Nat.le_of_add_le_add_left hle)
  · by_cases hn : left < n
    · exact h.run_of_lt budget hn
    · obtain ⟨rest, rfl⟩ := Nat.exists_eq_add_of_le (Nat.le_of_not_lt hn)
      rw [Exhausts, h.run]
      exact hends.stopped budget rest (Nat.lt_of_add_lt_add_left hlt)

/-- A configuration without a next one is at the end of its run. The operation that ends the run is
counted, if there is one. -/
theorem endsIn_of_last (h : ∀ c₁, c.step p ≠ .next c₁) : ∃ k result m,
    c.EndsIn p k result m ∧ m.steps = c.machine.steps + k ∧ RunError.Unbudgeted result := by
  have hmachine := steps_step (c := c) p
  have hfault := unbudgeted_step p c
  cases hstep : c.step p with
  | next c₁ => exact absurd hstep (h c₁)
  | done v m =>
    have hops := ops_ne_nil_of_done hstep
    rw [hstep] at hmachine
    refine ⟨1, .ok v, m, endsIn_one hops fun budget left => ?_, hmachine hops, fun _ _ => nofun⟩
    rw [Machine.run, hstep]
  | failed e m =>
    rw [hstep] at hmachine hfault
    have hresult : RunError.Unbudgeted (.error e) := by
      rintro budget function heq
      cases heq
      exact hfault budget rfl
    cases hops : c.frame.ops with
    | cons op rest =>
      have hne : c.frame.ops ≠ [] := by simp [hops]
      refine ⟨1, .error e, m, endsIn_one hne fun budget left => ?_, hmachine hne, hresult⟩
      rw [Machine.run, hstep]
    | nil =>
      -- Nothing is counted here, so that the run ends in the same way if no step is left.
      have hnil := step_of_nil p hops
      rw [hstep] at hnil
      cases hnil
      refine ⟨0, _, _, ⟨fun budget left _ => ?_, fun _ _ hlt => absurd hlt (Nat.not_lt_zero _)⟩, rfl,
        hresult⟩
      cases left with
      | zero => simp only [Machine.run, stop, hops]
      | succ left => rw [Machine.run, hstep]

/-- A run goes on forever, or comes to a configuration without a next one. -/
theorem goesOn_or_reaches_last (p : Program) (c : Config) : (∀ n, ∃ c', c.Reaches p n c') ∨
    ∃ n c', c.Reaches p n c' ∧ ∀ c₁, c'.step p ≠ .next c₁ := by
  by_cases hlast : ∃ n c', c.Reaches p n c' ∧ ∀ c₁, c'.step p ≠ .next c₁
  · exact .inr hlast
  · refine .inl fun n => ?_
    induction n with
    | zero => exact ⟨c, .refl⟩
    | succ n ih =>
      obtain ⟨c', hreach⟩ := ih
      by_cases hnext : ∃ c₁, c'.step p = .next c₁
      · obtain ⟨c₁, hstep⟩ := hnext
        exact ⟨c₁, hreach.trans (.step hstep .refl)⟩
      · exact absurd ⟨n, c', hreach, fun c₁ hstep => hnext ⟨c₁, hstep⟩⟩ hlast

/-- A run that goes on forever is stopped by every budget; any other one ends in a number of steps,
which is the number that is counted. -/
theorem goesOn_or_endsIn (p : Program) (c : Config) : (∀ budget left, c.Exhausts p budget left) ∨
    ∃ k result m, c.EndsIn p k result m ∧ m.steps = c.machine.steps + k ∧
      RunError.Unbudgeted result := by
  rcases goesOn_or_reaches_last p c with hgoes | ⟨n, c', hreach, hlast⟩
  · refine .inl fun budget left => ?_
    obtain ⟨c', hreach⟩ := hgoes (left + 1)
    exact hreach.run_of_lt budget (Nat.lt_succ_self left)
  · obtain ⟨k, result, m, hends, hsteps, hresult⟩ := endsIn_of_last hlast
    refine .inr ⟨n + k, result, m, hreach.endsIn hends, ?_, hresult⟩
    rw [hsteps, hreach.steps_eq, Nat.add_assoc]

end Config

namespace Machine

variable {p : Program} {m : Machine} {name : String} {args : List Float}

/-- Being stopped by the budget changes nothing but the number of steps. -/
theorem stop_eq (budget : Nat) (c : Config) : (c.stop budget).2.output = c.machine.output ∧
    (c.stop budget).2.memory = c.machine.memory := by
  unfold Config.stop
  split <;> exact ⟨rfl, rfl⟩

/-- What a run leaves has grown from what there was. -/
theorem grown_run (p : Program) (budget left : Nat) (c : Config) :
    Grown c.machine (run p budget left c).2 := by
  induction left generalizing c with
  | zero => exact .of_eq (stop_eq budget c).1 (stop_eq budget c).2
  | succ left ih =>
    have hstep := c.grown_step p
    rw [run]
    split
    next c₁ hnext => rw [hnext] at hstep; exact hstep.trans (ih c₁)
    next hdone => rw [hdone] at hstep; exact hstep
    next hfailed => rw [hfailed] at hstep; exact hstep

/-- What a run leaves has grown from what it leaves with fewer steps. -/
theorem grown_run_run (p : Program) (budget budget' : Nat) {left left' : Nat} (h : left ≤ left')
    (c : Config) : Grown (run p budget left c).2 (run p budget' left' c).2 := by
  induction left generalizing c left' with
  | zero =>
    have hstopped : Grown (c.stop budget).2 c.machine :=
      .of_eq (stop_eq budget c).1.symm (stop_eq budget c).2.symm
    exact hstopped.trans (grown_run p budget' left' c)
  | succ left ih =>
    obtain ⟨left', rfl⟩ := Nat.exists_eq_add_of_le' (Nat.le_trans (Nat.le_add_left 1 left) h)
    rw [run, run]
    split
    next c₁ _ => exact ih (Nat.le_of_succ_le_succ h) c₁
    · exact .of_eq rfl rfl
    · exact .of_eq rfl rfl

theorem steps_stop_le (budget : Nat) (c : Config) :
    (c.stop budget).2.steps ≤ c.machine.steps + 1 := by
  unfold Config.stop
  split
  · exact Nat.le_succ _
  · exact Nat.le_refl _

theorem steps_step_le (p : Program) (c : Config) :
    (c.step p).machine.steps ≤ c.machine.steps + 1 := by
  cases hops : c.frame.ops with
  | nil =>
    rw [Config.step_of_nil p hops]
    exact Nat.le_succ _
  | cons op rest => exact Nat.le_of_eq (Config.steps_step p (by simp [hops]))

/-- A run counts one step more than are left, at most. -/
theorem steps_run_le (p : Program) (budget left : Nat) (c : Config) :
    (run p budget left c).2.steps ≤ c.machine.steps + left + 1 := by
  induction left generalizing c with
  | zero => exact steps_stop_le budget c
  | succ left ih =>
    have hstep := steps_step_le p c
    rw [run]
    split
    next c' hnext =>
      have hrest := ih c'
      rw [hnext] at hstep
      have hc' : c'.machine.steps ≤ c.machine.steps + 1 := hstep
      omega
    next v m hdone =>
      rw [hdone] at hstep
      have hm : m.steps ≤ c.machine.steps + 1 := hstep
      change m.steps ≤ _
      omega
    next e m hfailed =>
      rw [hfailed] at hstep
      have hm : m.steps ≤ c.machine.steps + 1 := hstep
      change m.steps ≤ _
      omega

/-! ## Calls -/

/-- A call is stopped by the budget. -/
def Exhausts (p : Program) (m : Machine) (budget : Nat) (name : String) (args : List Float) : Prop :=
  ∃ function m', m.call p budget name args = (.error ⟨.budgetExhausted budget, function⟩, m')

/-- A call takes a number of steps and then ends with a result and a machine; a budget that has fewer
steps left stops it. -/
def Ends (p : Program) (m : Machine) (name : String) (args : List Float)
    (result : Except RunError Value) (m' : Machine) : Prop :=
  ∃ k, ∀ budget, (k ≤ budget - m.steps → m.call p budget name args = (result, m')) ∧
    (budget - m.steps < k → m.Exhausts p budget name args)

/-- A call that is a run, if what ends the run is known. -/
theorem ends_of_reaches {m' : Machine} {frame : Frame} {c : Config} {n : Nat}
    {result : Except RunError Value}
    (hcall : ∀ budget, m.call p budget name args = run p budget (budget - m.steps) ⟨m, frame, []⟩)
    (hreach : Config.Reaches p n ⟨m, frame, []⟩ c) (hops : c.frame.ops ≠ [])
    (hlast : ∀ budget left, run p budget (left + 1) c = (result, m')) :
    m.Ends p name args result m' := by
  have hends := hreach.endsIn (Config.endsIn_one hops hlast)
  refine ⟨n + 1, fun budget => ?_⟩
  rw [Exhausts, hcall]
  exact ⟨hends.ends budget _, hends.stopped budget _⟩

theorem ends_of_call {m' : Machine} {result : Except RunError Value}
    (h : ∀ budget, m.call p budget name args = (result, m')) : m.Ends p name args result m' :=
  ⟨0, fun budget => ⟨fun _ => h budget, fun hlt => absurd hlt (Nat.not_lt_zero _)⟩⟩

/-- A call is over before anything is counted, or it is a run of a body. -/
theorem call_cases (p : Program) (m : Machine) (name : String) (args : List Float) :
    (∃ result m', (∀ budget, m.call p budget name args = (result, m')) ∧ m'.steps = m.steps ∧
      RunError.Unbudgeted result) ∨
    ∃ frame, ∀ budget,
      m.call p budget name args = run p budget (budget - m.steps) ⟨m, frame, []⟩ := by
  cases hinvoke : m.invoke p 0 name (args.map .float) with
  | error fault =>
    refine .inl ⟨.error ⟨fault, none⟩, m, fun budget => by rw [call, hinvoke], rfl, ?_⟩
    rintro budget function heq
    cases heq
    exact (dynamic_invoke p 0 m name _).unbudgeted budget hinvoke
  | ok invocation =>
    cases invocation with
    | returned v m' =>
      exact .inl ⟨.ok v, m', fun budget => by rw [call, hinvoke], (effect_invoke hinvoke).steps_eq,
        fun _ _ => nofun⟩
    | body routine =>
      cases henter : Frame.enter routine (args.map .float) with
      | ok frame => exact .inr ⟨frame, fun budget => by simp only [call, hinvoke, henter]⟩
      | error fault =>
        refine .inl ⟨.error ⟨fault, some routine.name⟩, m,
          fun budget => by simp only [call, hinvoke, henter], rfl, ?_⟩
        rintro budget function heq
        cases heq
        exact Frame.unbudgeted_enter routine _ budget henter

theorem steps_call_le (p : Program) (budget : Nat) (m : Machine) (name : String) (args : List Float) :
    (m.call p budget name args).2.steps ≤ m.steps + max 1 (budget + 1 - m.steps) := by
  rcases call_cases p m name args with ⟨result, m', hcall, hsteps, -⟩ | ⟨frame, hcall⟩
  · rw [hcall]
    change m'.steps ≤ _
    omega
  · have hrun := steps_run_le p budget (budget - m.steps) ⟨m, frame, []⟩
    rw [hcall]
    change _ ≤ m.steps + (budget - m.steps) + 1 at hrun
    omega

/-- The budget of a call cuts it off and does nothing else. On a fresh machine a call of any function of
any program is stopped by every budget, or there is a number of steps such that every budget that
allows for them leads to the same result, text and records after just these steps, and every smaller
one stops the call. And what a call leaves under some budget is the beginning of what it leaves under
a larger one. All this is about budgets less than the greatest word, for which the count of the steps is
a word, too. -/
theorem call_cut_off (p : Program) (name : String) (args : List Float) :
    ((∀ budget < UInt64.size - 1, Exhausts p {} budget name args) ∨
      ∃ k < UInt64.size - 1, ∃ result m', m'.steps = k ∧ RunError.Unbudgeted result ∧
        ∀ budget < UInt64.size - 1,
          (k ≤ budget → call p budget {} name args = (result, m')) ∧
          (budget < k → Exhausts p {} budget name args)) ∧
    (∀ small large, small ≤ large → large < UInt64.size - 1 →
      (∃ text, (call p large {} name args).2.output =
        (call p small {} name args).2.output ++ text) ∧
      (call p small {} name args).2.memory.size ≤ (call p large {} name args).2.memory.size) ∧
    ∀ budget < UInt64.size - 1, (call p budget {} name args).2.steps < UInt64.size := by
  have hcounted (budget : Nat) (hbudget : budget < UInt64.size - 1) :
      (call p budget {} name args).2.steps < UInt64.size := by
    have hsteps := steps_call_le p budget {} name args
    have hfresh : ({} : Machine).steps = 0 := rfl
    omega
  refine ⟨?_, fun small large hle _ => ?_, hcounted⟩
  · rcases call_cases p {} name args with ⟨result, m', hcall, hsteps, hresult⟩ | ⟨frame, hcall⟩
    · refine .inr ⟨0, by decide, result, m', hsteps, hresult, fun budget _ => ?_⟩
      exact ⟨fun _ => hcall budget, fun hlt => absurd hlt (Nat.not_lt_zero _)⟩
    · rcases Config.goesOn_or_endsIn p ⟨{}, frame, []⟩ with
        hgoes | ⟨k, result, m', hends, hsteps, hresult⟩
      · refine .inl fun budget _ => ?_
        rw [Exhausts, hcall]
        exact hgoes budget _
      · by_cases hk : k < UInt64.size - 1
        · refine .inr ⟨k, hk, result, m', hsteps.trans (Nat.zero_add k), hresult, fun budget _ => ?_⟩
          rw [Exhausts, hcall]
          exact ⟨hends.ends budget budget, hends.stopped budget budget⟩
        · -- The call ends, but no budget allows for so many steps.
          refine .inl fun budget hbudget => ?_
          rw [Exhausts, hcall]
          exact hends.stopped budget budget (Nat.lt_of_lt_of_le hbudget (Nat.le_of_not_lt hk))
  · rcases call_cases p {} name args with ⟨result, m', hcall, -⟩ | ⟨frame, hcall⟩
    · rw [hcall, hcall]
      exact ⟨⟨"", by simp⟩, Nat.le_refl _⟩
    · have hgrown := grown_run_run p small large hle ⟨{}, frame, []⟩
      rw [hcall, hcall]
      exact ⟨hgrown.output, hgrown.size_le⟩

/-- A program with a function that writes a letter, in three steps. -/
def letterProgram : Program :=
  ((Program.empty ∅).declare (.external "putchard" ["x"])).define
    ⟨⟨"letter", [], .f64⟩, [⟨"entry", [.const 0 65, .call 1 "putchard" [0], .ret 1]⟩], [.f64, .f64]⟩

theorem call_cut_off_letter :
    (∀ budget < UInt64.size - 1, 3 ≤ budget →
      (call letterProgram budget {} "letter" []).2.output = "A") ∧
    (∀ budget < 3, Exhausts letterProgram {} budget "letter" []) ∧
    1 ≤ 2 ∧ 2 < UInt64.size - 1 ∧ ∃ text, (call letterProgram 2 {} "letter" []).2.output =
      (call letterProgram 1 {} "letter" []).2.output ++ text := by
  obtain ⟨hends, hgrows, -⟩ := call_cut_off letterProgram "letter" []
  have hok : (call letterProgram 3 {} "letter" []).1.isOk = true := by decide +kernel
  have hsteps : (call letterProgram 3 {} "letter" []).2.steps = 3 := by decide +kernel
  have houtput : (call letterProgram 3 {} "letter" []).2.output = "A" := by decide +kernel
  have hthree : 3 < UInt64.size - 1 := by decide
  have hstops : ¬ Exhausts letterProgram {} 3 "letter" [] := by
    rintro ⟨function, m', hcall⟩
    rw [hcall] at hok
    cases hok
  rcases hends with hgoes | ⟨k, -, result, m', hcount, -, hcall⟩
  · exact absurd (hgoes 3 hthree) hstops
  · have hle : k ≤ 3 := Nat.le_of_not_lt fun hlt => hstops ((hcall 3 hthree).2 hlt)
    rw [(hcall 3 hthree).1 hle] at hsteps houtput
    obtain rfl : k = 3 := hcount.symm.trans hsteps
    refine ⟨fun budget hbudget henough => ?_, fun budget hless => ?_, by decide, by decide,
      (hgrows 1 2 (by decide) (by decide)).1⟩
    · rw [(hcall budget hbudget).1 henough]
      exact houtput
    · exact (hcall budget (Nat.lt_trans hless hthree)).2 hless

end Machine

end PoseLang
