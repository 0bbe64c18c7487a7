import AsyncppGrpc.Library.Run

/-! A pool of machines of one kind that are created at any time and step one at a time. -/
namespace Pool
open Run
variable {σ γ α : Type*} {create : γ → σ} {step : σ → α → Option σ}

/-- `create c`: a new machine joins; `act i a`: the `i`-th created one takes the step `a`. -/
inductive Action (γ α : Type*) where
  | create (c : γ)
  | act (i : Nat) (a : α)

def poolStep (create : γ → σ) (step : σ → α → Option σ) (ss : List σ) :
    Action γ α → Option (List σ)
  | .create c => some (ss ++ [create c])
  | .act i a => do
    let s ← ss[i]?
    let s' ← step s a
    return ss.set i s'

theorem poolStep_act_eq_some {ss ss' : List σ} {i : Nat} {a : α} :
    poolStep create step ss (.act i a) = some ss' ↔
      ∃ s s', ss[i]? = some s ∧ step s a = some s' ∧ ss' = ss.set i s' := by
  simp only [poolStep, Option.bind_eq_bind, Option.bind_eq_some_iff]
  constructor
  · intro ⟨s, hs, s', hs', heq⟩
    exact ⟨s, s', hs, hs', by simpa [eq_comm] using heq⟩
  · intro ⟨s, s', hs, hs', heq⟩
    exact ⟨s, hs, s', hs', by rw [heq]; rfl⟩

/-- Every machine in the pool has taken a run of its own. -/
theorem machine_run {ss : List σ} {sched : List (Action γ α)}
    (hr : run (poolStep create step) [] sched = some ss) :
    ∀ s ∈ ss, ∃ c as, run step (create c) as = some s := by
  refine inv_of_run (P := fun ss => ∀ s ∈ ss, ∃ c as, run step (create c) as = some s)
    (by simp) ?_ hr
  intro ss b ss' h hstep s hs
  cases b with
  | create c =>
    obtain rfl : ss ++ [create c] = ss' := by simpa [poolStep] using hstep
    rcases List.mem_append.mp hs with hold | hnew
    · exact h s hold
    · obtain rfl : s = create c := by simpa using hnew
      exact ⟨c, [], rfl⟩
  | act i a =>
    obtain ⟨t, t', ht, ht', rfl⟩ := poolStep_act_eq_some.mp hstep
    rcases List.mem_or_eq_of_mem_set hs with hold | rfl
    · exact h s hold
    · obtain ⟨c, as, hrun⟩ := h t (List.mem_of_getElem? ht)
      refine ⟨c, as ++ [a], ?_⟩
      rw [run_append, hrun]
      exact run_cons_eq_some.mpr ⟨s, ht', rfl⟩

end Pool
