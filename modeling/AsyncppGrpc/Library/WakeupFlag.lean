import AsyncppGrpc.Library.Wakeup

/-! The wake-up protocol as code keeps it: a flag, the threads between winning the flag and
signalling, a count of untaken signals, and the workers that have not put the flag back.
Nothing here says these are exclusive; the refinement to the token shows it. -/
namespace Wakeup
open Run
variable {τ ω α : Type*}

structure Flagged (τ ω α : Type*) where
  queue : List α
  flag : Bool
  announcing : τ → Bool
  claiming : τ → Bool
  signals : Nat
  holding : ω → Bool
  draining : ω → Bool
  running : ω → Option α
  put : List α
  taken : List α
  done : List α

namespace Flagged

def init : Flagged τ ω α where
  queue := []
  flag := true
  announcing := fun _ => false
  claiming := fun _ => false
  signals := 0
  holding := fun _ => false
  draining := fun _ => false
  running := fun _ => none
  put := []
  taken := []
  done := []

/-- The control data of the flag stand for the token, the rest is the same. -/
structure Refines (s : Flagged τ ω α) (a : State τ ω α) : Prop where
  queue : a.queue = s.queue
  announcing : a.announcing = s.announcing
  draining : a.draining = s.draining
  running : a.running = s.running
  put : a.put = s.put
  taken : a.taken = s.taken
  done : a.done = s.done
  flag : a.token = .free ↔ s.flag = true
  claiming : ∀ t, a.token = .claimed t ↔ s.claiming t = true
  signals : a.token = .signalled ↔ s.signals ≠ 0
  single : s.signals ≤ 1
  holding : ∀ w, a.token = .held w ↔ s.holding w = true

theorem refines_init : Refines (init : Flagged τ ω α) .init := by
  constructor <;> simp [init, State.init]

/-- No signal is out when a thread is about to signal. -/
theorem Refines.signals_eq_zero {s : Flagged τ ω α} {a : State τ ω α} (h : Refines s a) {t : τ}
    (ht : s.claiming t = true) : s.signals = 0 := by
  have htok := (h.claiming t).mpr ht
  simpa [htok] using h.signals

/-- Nobody holds the token then. -/
theorem Refines.not_holding {s : Flagged τ ω α} {a : State τ ω α} (h : Refines s a) {t : τ}
    (ht : s.claiming t = true) (w : ω) : s.holding w = false := by
  have htok := (h.claiming t).mpr ht
  simpa [htok] using h.holding w

/-- Nobody is announcing, about to signal, holding or draining, and no signal is out. -/
structure Quiet (s : Flagged τ ω α) : Prop where
  announcing : ∀ t, s.announcing t = false
  claiming : ∀ t, s.claiming t = false
  signals : s.signals = 0
  holding : ∀ w, s.holding w = false
  draining : ∀ w, s.draining w = false

/-- If nobody has the token it is free. -/
theorem Refines.free {s : Flagged τ ω α} {a : State τ ω α} (h : Refines s a)
    (hclaiming : ∀ t, s.claiming t = false) (hsignals : s.signals = 0)
    (hholding : ∀ w, s.holding w = false) : a.token = .free := by
  cases htok : a.token with
  | free => rfl
  | claimed t => simpa [hclaiming] using (h.claiming t).mp htok
  | signalled => exact absurd hsignals (h.signals.mp htok)
  | held w => simpa [hholding] using (h.holding w).mp htok

theorem Refines.quiet [Fintype ω] {s : Flagged τ ω α} {a : State τ ω α} (h : Refines s a)
    (hi : Inv a) (hq : Quiet s) : s.queue = [] ∧ s.done.Perm s.put := by
  have hfree := h.free hq.claiming hq.signals hq.holding
  have hdone := hi.no_lost_wakeup hfree (by rw [h.announcing]; exact hq.announcing)
    (by rw [h.draining]; exact hq.draining)
  rwa [h.queue, h.done, h.put] at hdone

variable [DecidableEq τ] [DecidableEq ω]

def Enabled (s : Flagged τ ω α) : Action τ ω α → Prop
  | .put t _ => s.announcing t = false
  | .claim t => s.announcing t = true ∧ s.flag = true
  | .skip t => s.announcing t = true ∧ s.flag = false
  | .signal t => s.claiming t = true
  | .wake w => s.signals ≠ 0 ∧ s.draining w = false
  | .release w => s.holding w = true ∧ s.running w = none
  | .take w => (s.holding w = true ∨ s.draining w = true) ∧ s.running w = none ∧ s.queue ≠ []
  | .finish w => s.running w ≠ none
  | .leave w => s.draining w = true ∧ s.running w = none ∧ s.queue = []

instance (s : Flagged τ ω α) (a : Action τ ω α) : Decidable (Enabled s a) :=
  match a with
  | .put t _ => inferInstanceAs (Decidable (s.announcing t = false))
  | .claim t => inferInstanceAs (Decidable (s.announcing t = true ∧ s.flag = true))
  | .skip t => inferInstanceAs (Decidable (s.announcing t = true ∧ s.flag = false))
  | .signal t => inferInstanceAs (Decidable (s.claiming t = true))
  | .wake w => inferInstanceAs (Decidable (s.signals ≠ 0 ∧ s.draining w = false))
  | .release w => inferInstanceAs (Decidable (s.holding w = true ∧ s.running w = none))
  | .take w => inferInstanceAs (Decidable ((s.holding w = true ∨ s.draining w = true) ∧
      s.running w = none ∧ s.queue ≠ []))
  | .finish w => inferInstanceAs (Decidable (s.running w ≠ none))
  | .leave w => inferInstanceAs (Decidable (s.draining w = true ∧ s.running w = none ∧
      s.queue = []))

def next (s : Flagged τ ω α) : Action τ ω α → Flagged τ ω α
  | .put t x => { s with
      queue := s.queue ++ [x]
      announcing := Function.update s.announcing t true
      put := s.put ++ [x] }
  | .claim t => { s with
      flag := false
      announcing := Function.update s.announcing t false
      claiming := Function.update s.claiming t true }
  | .skip t => { s with announcing := Function.update s.announcing t false }
  | .signal t => { s with
      claiming := Function.update s.claiming t false
      signals := s.signals + 1 }
  | .wake w => { s with
      signals := s.signals - 1
      holding := Function.update s.holding w true }
  | .release w => { s with
      flag := true
      holding := Function.update s.holding w false
      draining := Function.update s.draining w true }
  | .take w => match s.queue with
    | [] => s
    | x :: q => { s with
        queue := q
        running := Function.update s.running w (some x)
        taken := s.taken ++ [x] }
  | .finish w => match s.running w with
    | none => s
    | some x => { s with
        running := Function.update s.running w none
        done := s.done ++ [x] }
  | .leave w => { s with draining := Function.update s.draining w false }

def step : Flagged τ ω α → Action τ ω α → Option (Flagged τ ω α) := stepOf Enabled next

omit [DecidableEq τ] [DecidableEq ω] in
/-- What the flag allows, the token allows. -/
theorem Refines.enabled {s : Flagged τ ω α} {a : State τ ω α} (h : Refines s a)
    {act : Action τ ω α} (he : Enabled s act) : Wakeup.Enabled a act := by
  cases act with
  | put t x => exact (congrFun h.announcing t).trans he
  | claim t => exact ⟨(congrFun h.announcing t).trans he.1, h.flag.mpr he.2⟩
  | skip t =>
    refine ⟨(congrFun h.announcing t).trans he.1, fun hf => ?_⟩
    exact Bool.false_ne_true (he.2.symm.trans (h.flag.mp hf))
  | signal t => exact (h.claiming t).mpr he
  | wake w => exact ⟨h.signals.mpr he.1, (congrFun h.draining w).trans he.2⟩
  | release w => exact ⟨(h.holding w).mpr he.1, (congrFun h.running w).trans he.2⟩
  | take w =>
    obtain ⟨hw, hr, hq⟩ := he
    refine ⟨?_, (congrFun h.running w).trans hr, h.queue ▸ hq⟩
    exact hw.imp (h.holding w).mpr (congrFun h.draining w).trans
  | finish w => exact fun hr => he ((congrFun h.running w).symm.trans hr)
  | leave w =>
    exact ⟨(congrFun h.draining w).trans he.1, (congrFun h.running w).trans he.2.1,
      h.queue.trans he.2.2⟩

theorem Refines.claim {s : Flagged τ ω α} {a : State τ ω α} (h : Refines s a) {t : τ}
    (he : Enabled s (.claim t)) : Refines (next s (.claim t)) (Wakeup.next a (.claim t)) := by
  have htok : a.token = .free := (h.enabled he).2
  exact { h with
    announcing := by simp [Wakeup.next, next, h.announcing]
    flag := by simp [Wakeup.next, next]
    claiming := by
      intro u
      have hu := h.claiming u
      by_cases hut : u = t
      · simp [Wakeup.next, next, hut]
      · simpa [Wakeup.next, next, hut, Ne.symm hut, htok] using hu
    signals := by simpa [Wakeup.next, next, htok] using h.signals
    holding := fun w => by simpa [Wakeup.next, next, htok] using h.holding w }

theorem Refines.signal {s : Flagged τ ω α} {a : State τ ω α} (h : Refines s a) {t : τ}
    (he : Enabled s (.signal t)) : Refines (next s (.signal t)) (Wakeup.next a (.signal t)) := by
  have htok : a.token = .claimed t := h.enabled he
  have hzero : s.signals = 0 := h.signals_eq_zero he
  exact { h with
    flag := by simpa [Wakeup.next, next, htok] using h.flag
    claiming := by
      intro u
      have hu := h.claiming u
      by_cases hut : u = t
      · simp [Wakeup.next, next, hut]
      · simpa [Wakeup.next, next, hut, Ne.symm hut, htok] using hu
    signals := by simp [Wakeup.next, next]
    single := by simp [next, hzero]
    holding := fun w => by simpa [Wakeup.next, next, htok] using h.holding w }

theorem Refines.wake {s : Flagged τ ω α} {a : State τ ω α} (h : Refines s a) {w : ω}
    (he : Enabled s (.wake w)) : Refines (next s (.wake w)) (Wakeup.next a (.wake w)) := by
  have htok : a.token = .signalled := (h.enabled he).1
  have hsingle := h.single
  exact { h with
    flag := by simpa [Wakeup.next, next, htok] using h.flag
    claiming := fun t => by simpa [Wakeup.next, next, htok] using h.claiming t
    signals := by simp only [Wakeup.next, next, reduceCtorEq, false_iff]; omega
    single := by simp only [next]; omega
    holding := by
      intro v
      have hv := h.holding v
      by_cases hvw : v = w
      · simp [Wakeup.next, next, hvw]
      · simpa [Wakeup.next, next, hvw, Ne.symm hvw, htok] using hv }

theorem Refines.release {s : Flagged τ ω α} {a : State τ ω α} (h : Refines s a) {w : ω}
    (he : Enabled s (.release w)) : Refines (next s (.release w)) (Wakeup.next a (.release w)) := by
  have htok : a.token = .held w := (h.enabled he).1
  exact { h with
    draining := by simp [Wakeup.next, next, h.draining]
    flag := by simp [Wakeup.next, next]
    claiming := fun t => by simpa [Wakeup.next, next, htok] using h.claiming t
    signals := by simpa [Wakeup.next, next, htok] using h.signals
    holding := by
      intro v
      have hv := h.holding v
      by_cases hvw : v = w
      · simp [Wakeup.next, next, hvw]
      · simpa [Wakeup.next, next, hvw, Ne.symm hvw, htok] using hv }

/-- One action of the flag is one action of the token. -/
theorem Refines.next {s : Flagged τ ω α} {a : State τ ω α} (h : Refines s a)
    {act : Action τ ω α} (he : Enabled s act) :
    Refines (Flagged.next s act) (Wakeup.next a act) := by
  cases act with
  | put t x => exact { h with
      queue := by simp [Wakeup.next, Flagged.next, h.queue]
      announcing := by simp [Wakeup.next, Flagged.next, h.announcing]
      put := by simp [Wakeup.next, Flagged.next, h.put] }
  | claim t => exact h.claim he
  | skip t => exact { h with
      announcing := by simp [Wakeup.next, Flagged.next, h.announcing] }
  | signal t => exact h.signal he
  | wake w => exact h.wake he
  | release w => exact h.release he
  | take w =>
    simp only [Wakeup.next, Flagged.next, h.queue]
    cases hq : s.queue with
    | nil => exact h
    | cons x q => exact { h with
        queue := rfl
        running := by simp [h.running]
        taken := by simp [h.taken] }
  | finish w =>
    simp only [Wakeup.next, Flagged.next, h.running]
    cases hr : s.running w with
    | none => exact h
    | some x => exact { h with
        running := rfl
        done := by simp [h.done] }
  | leave w => exact { h with
      draining := by simp [Wakeup.next, Flagged.next, h.draining] }

/-- Every run of the flag is a run of the token. -/
theorem exists_refines [Fintype ω] {s : Flagged τ ω α} {as : List (Action τ ω α)}
    (hr : run step init as = some s) : ∃ a, Inv a ∧ Refines s a := by
  have hmatch : ∀ (s : Flagged τ ω α) a act s', Refines s a → step s act = some s' →
      ∃ a', run Wakeup.step a [act] = some a' ∧ Refines s' a' := by
    intro s a act s' h hs
    obtain ⟨he, rfl⟩ := stepOf_eq_some.mp hs
    exact ⟨Wakeup.next a act, run_single (h.enabled he), h.next he⟩
  obtain ⟨bs, a, hbs, h⟩ := run_refines hmatch refines_init hr
  exact ⟨a, inv_run hbs, h⟩

end Flagged
end Wakeup
