import AsyncppGrpc.Library.Progress
import AsyncppGrpc.Library.Update

/-! A machine that serves queues on which an environment has operations outstanding. Operations
are started at any time. A step that takes an event needs one outstanding on its queue, and a
step may have to wait for what is outstanding. -/
namespace Outstanding
open Run
variable {κ σ α : Type*}

/-- `outstanding k`: the operations started on queue `k` whose event nobody has taken. -/
structure State (κ σ : Type*) where
  machine : σ
  outstanding : κ → Nat

def State.init (m : σ) : State κ σ := ⟨m, fun _ => 0⟩

/-- `start k`: an operation is started on queue `k`; `act a`: the machine steps. -/
inductive Action (κ α : Type*) where
  | start (k : κ)
  | act (a : α)

/-- What a step is to the machine. -/
def label (_ : State κ σ) : Action κ α → Option α
  | .start _ => none
  | .act a => some a

/-- The machine's part of a step meets the guard. -/
def OnMachine (ok : σ → α → Prop) (s : State κ σ) (b : Action κ α) : Prop :=
  ∀ a ∈ label s b, ok s.machine a

instance (ok : σ → α → Prop) [∀ s a, Decidable (ok s a)] (s : State κ σ) (b : Action κ α) :
    Decidable (OnMachine ok s b) :=
  inferInstanceAs (Decidable (∀ a ∈ label s b, ok s.machine a))

section
variable (takes : α → Option κ) (permits : State κ σ → α → Prop)

/-- The event is there, and the step need not wait. -/
def Ready (s : State κ σ) (a : α) : Prop :=
  (∀ k ∈ takes a, 0 < s.outstanding k) ∧ permits s a

instance [∀ s a, Decidable (permits s a)] (s : State κ σ) (a : α) :
    Decidable (Ready takes permits s a) :=
  inferInstanceAs (Decidable (_ ∧ _))

variable [DecidableEq κ]

/-- An event is taken, if any. -/
def take (o : κ → Nat) : Option κ → κ → Nat
  | none => o
  | some k => Function.update o k (o k - 1)

def step [∀ s a, Decidable (permits s a)] (mstep : σ → α → Option σ) (s : State κ σ) :
    Action κ α → Option (State κ σ)
  | .start k =>
    some { s with outstanding := Function.update s.outstanding k (s.outstanding k + 1) }
  | .act a =>
    if Ready takes permits s a then
      (mstep s.machine a).map fun m => ⟨m, take s.outstanding (takes a)⟩
    else none
end

/-- What a step brings in when the event of an operation costs `c`: it is paid for when the
operation is started. -/
def charge (takes : α → Option κ) (c : Nat) (brings : α → Nat) : Action κ α → Nat
  | .start _ => c + 1
  | .act a => match takes a with
    | none => brings a
    | some _ => 0

/-- The work of the machine, and that of the events to come. -/
def load [Fintype κ] (work : σ → Nat) (c : Nat) (s : State κ σ) : Nat :=
  work s.machine + c * ∑ k, s.outstanding k

section
variable [DecidableEq κ] {takes : α → Option κ} {permits : State κ σ → α → Prop}
  [∀ s a, Decidable (permits s a)] {mstep : σ → α → Option σ} {s s' : State κ σ}

theorem step_act {a : α} : step takes permits mstep s (.act a) = some s' ↔
    Ready takes permits s a ∧ ∃ m, mstep s.machine a = some m ∧
      s' = ⟨m, take s.outstanding (takes a)⟩ := by
  by_cases h : Ready takes permits s a <;> simp [step, h, eq_comm]

/-- The machine goes its own way. -/
theorem views_machine : Views (step takes permits mstep) mstep State.machine label := by
  intro s b s' hs
  cases b with
  | start k =>
    obtain rfl : _ = s' := by simpa [step] using hs
    rfl
  | act a =>
    obtain ⟨-, m, hm, rfl⟩ := step_act.mp hs
    exact hm

theorem machine_run {bs : List (Action κ α)} (hr : run (step takes permits mstep) s bs = some s') :
    run mstep s.machine (labels (step takes permits mstep) label s bs) = some s'.machine :=
  run_labels views_machine hr

theorem inv_machine {P : σ → Prop} (hP : ∀ m a m', P m → mstep m a = some m' → P m')
    {b : Action κ α} (h : P s.machine) (hs : step takes permits mstep s b = some s') :
    P s'.machine := by
  cases b with
  | start k =>
    obtain rfl : _ = s' := by simpa [step] using hs
    exact h
  | act a =>
    obtain ⟨-, m, hm, rfl⟩ := step_act.mp hs
    exact hP s.machine a m h hm

theorem guarded_machine {ok : σ → α → Prop} (s : State κ σ) (bs : List (Action κ α)) :
    Guarded mstep ok s.machine (labels (step takes permits mstep) label s bs) ↔
      Guarded (step takes permits mstep) (OnMachine ok) s bs :=
  guarded_labels views_machine s bs

/-- What the machine can do can be done if its event is there and it need not wait. -/
theorem exists_step {enabled : σ → α → Prop} [∀ m a, Decidable (enabled m a)] (next : σ → α → σ)
    {a : α} (he : enabled s.machine a) (h : Ready takes permits s a) :
    ∃ t, step takes permits (stepOf enabled next) s (.act a) = some t :=
  ⟨_, step_act.mpr ⟨h, _, stepOf_eq_some.mpr ⟨he, rfl⟩, rfl⟩⟩

/-- If the machine pays for its steps, so it does here, each event being paid for in advance. -/
theorem pays [Fintype κ] {work : σ → Nat} {brings : α → Nat} {c : Nat}
    (h : Progress.Pays mstep work brings) (hc : ∀ a, takes a ≠ none → brings a ≤ c) :
    Progress.Pays (step takes permits mstep) (load work c) (charge takes c brings) := by
  intro s b s' hs
  cases b with
  | start k =>
    obtain rfl : _ = s' := by simpa [step] using hs
    have hsum := Update.sum_update id s.outstanding k (s.outstanding k + 1)
    have hone : ∑ j, Function.update s.outstanding k (s.outstanding k + 1) j =
        ∑ j, s.outstanding j + 1 := by
      simp only [id] at hsum
      omega
    simp only [load, charge, hone, Nat.mul_add]
    omega
  | act a =>
    obtain ⟨hready, m, hm, rfl⟩ := step_act.mp hs
    have hpay := h s.machine a m hm
    cases ht : takes a with
    | none =>
      simp only [load, charge, take, ht]
      omega
    | some k =>
      have hpos : 0 < s.outstanding k := hready.1 k ht
      have hsum := Update.sum_update id s.outstanding k (s.outstanding k - 1)
      have hone : ∑ j, s.outstanding j =
          ∑ j, Function.update s.outstanding k (s.outstanding k - 1) j + 1 := by
        simp only [id] at hsum
        omega
      have hle := hc a (by simp [ht])
      simp only [load, charge, take, ht, hone, Nat.mul_add]
      omega

end
end Outstanding
