import AsyncppGrpc.Library.Run
import AsyncppGrpc.Library.Update
import Mathlib.Algebra.Order.Group.Multiset

/-! The wake-up protocol behind a shared queue with one signal. Threads put items and then
try to claim the only token; the claimer signals, a worker woken by the signal holds the
token, gives it back and keeps draining. Parametric in threads, workers and items. -/
namespace Wakeup
open Run
variable {τ ω α : Type*}

/-- Where the right to signal is. -/
inductive Token (τ ω : Type*) where
  | free
  | claimed (t : τ)
  | signalled
  | held (w : ω)
  deriving DecidableEq

/-- `announcing t`: thread `t` has put an item and not yet tried to claim the token.
`put`, `taken` and `done` are the histories of the items. -/
structure State (τ ω α : Type*) where
  queue : List α
  token : Token τ ω
  announcing : τ → Bool
  draining : ω → Bool
  running : ω → Option α
  put : List α
  taken : List α
  done : List α

def State.init : State τ ω α :=
  ⟨[], .free, fun _ => false, fun _ => false, fun _ => none, [], [], []⟩

inductive Action (τ ω α : Type*) where
  | put (t : τ) (x : α)
  | claim (t : τ)
  | skip (t : τ)
  | signal (t : τ)
  | wake (w : ω)
  | release (w : ω)
  | take (w : ω)
  | finish (w : ω)
  | leave (w : ω)

variable [DecidableEq τ] [DecidableEq ω]

/-- Only the holder and the drainers take items, one at a time, and a drainer leaves only
when it finds the queue empty. -/
def Enabled (s : State τ ω α) : Action τ ω α → Prop
  | .put t _ => s.announcing t = false
  | .claim t => s.announcing t = true ∧ s.token = .free
  | .skip t => s.announcing t = true ∧ s.token ≠ .free
  | .signal t => s.token = .claimed t
  | .wake w => s.token = .signalled ∧ s.draining w = false
  | .release w => s.token = .held w ∧ s.running w = none
  | .take w => (s.token = .held w ∨ s.draining w = true) ∧ s.running w = none ∧ s.queue ≠ []
  | .finish w => s.running w ≠ none
  | .leave w => s.draining w = true ∧ s.running w = none ∧ s.queue = []

instance (s : State τ ω α) (a : Action τ ω α) : Decidable (Enabled s a) := by
  cases a <;> unfold Enabled <;> infer_instance

def next (s : State τ ω α) : Action τ ω α → State τ ω α
  | .put t x => { s with
      queue := s.queue ++ [x], announcing := Function.update s.announcing t true,
      put := s.put ++ [x] }
  | .claim t => { s with
      token := .claimed t, announcing := Function.update s.announcing t false }
  | .skip t => { s with announcing := Function.update s.announcing t false }
  | .signal _ => { s with token := .signalled }
  | .wake w => { s with token := .held w }
  | .release w => { s with token := .free, draining := Function.update s.draining w true }
  | .take w => match s.queue with
    | [] => s
    | x :: q => { s with
        queue := q, running := Function.update s.running w (some x), taken := s.taken ++ [x] }
  | .finish w => match s.running w with
    | none => s
    | some x => { s with
        running := Function.update s.running w none, done := s.done ++ [x] }
  | .leave w => { s with draining := Function.update s.draining w false }

def step : State τ ω α → Action τ ω α → Option (State τ ω α) := stepOf Enabled next

/-- What is queued has somebody who will come for it. -/
def Covered (s : State τ ω α) : Prop :=
  s.queue ≠ [] → s.token ≠ .free ∨ (∃ t, s.announcing t = true) ∨ ∃ w, s.draining w = true

theorem covered_next {s : State τ ω α} {a : Action τ ω α} (h : Covered s) (he : Enabled s a) :
    Covered (next s a) := by
  cases a with
  | put t x => exact fun _ => .inr (.inl ⟨t, by simp [next]⟩)
  | claim t => exact fun _ => .inl (by simp [next])
  | skip t => exact fun _ => .inl he.2
  | signal t => exact fun _ => .inl (by simp [next])
  | wake w => exact fun _ => .inl (by simp [next])
  | release w => exact fun _ => .inr (.inr ⟨w, by simp [next]⟩)
  | take w =>
    obtain ⟨hw, -, -⟩ := he
    intro _
    have hw' : s.token ≠ .free ∨ ∃ v, s.draining v = true := by
      rcases hw with hw | hw
      · exact .inl (by simp [hw])
      · exact .inr ⟨w, hw⟩
    cases hq : s.queue <;> simpa [next, hq] using hw'.imp_right .inr
  | finish w => cases hr : s.running w <;> simpa [next, hr, Covered] using h
  | leave w => exact fun hq => absurd he.2.2 hq

/-- Only the holder and the drainers are in the middle of an item. -/
def Busy (s : State τ ω α) : Prop :=
  ∀ w, s.running w ≠ none → s.token = .held w ∨ s.draining w = true

theorem busy_next {s : State τ ω α} {a : Action τ ω α} (h : Busy s) (he : Enabled s a) :
    Busy (next s a) := by
  intro v hv
  cases a with
  | put t x => exact h v hv
  | claim t => exact .inr ((h v hv).resolve_left (by simp [he.2]))
  | skip t => exact h v hv
  | signal t =>
    have ht : s.token = .claimed t := he
    exact .inr ((h v hv).resolve_left (by simp [ht]))
  | wake w => exact .inr ((h v hv).resolve_left (by simp [he.1]))
  | release w =>
    have hvw : v ≠ w := by
      rintro rfl
      exact hv he.2
    have hd : s.draining v = true := (h v hv).resolve_left (by simp [he.1, hvw.symm])
    exact .inr (by simp [next, hvw, hd])
  | take w =>
    by_cases hvw : v = w
    · subst v
      cases hq : s.queue <;> simpa [next, hq] using he.1
    · cases hq : s.queue with
      | nil => exact absurd hq he.2.2
      | cons x q => simpa [next, hq] using h v (by simpa [next, hq, hvw] using hv)
  | finish w =>
    cases hr : s.running w with
    | none => exact absurd hr he
    | some x =>
      have hvw : v ≠ w := by
        rintro rfl
        simp [next, hr] at hv
      simpa [next, hr] using h v (by simpa [next, hr, hvw] using hv)
  | leave w =>
    have hvw : v ≠ w := by
      rintro rfl
      exact hv he.2.1
    simpa [next, hvw] using h v hv

/-- Every item put is at one place of `taken ++ queue`. -/
def Split (s : State τ ω α) : Prop := s.put = s.taken ++ s.queue

theorem split_next {s : State τ ω α} {a : Action τ ω α} (h : Split s) : Split (next s a) := by
  cases a with
  | put t x =>
    have h' : s.put = s.taken ++ s.queue := h
    simp [Split, next, h']
  | take w => cases hq : s.queue <;> simpa [Split, next, hq] using h
  | finish w => cases hr : s.running w <;> simpa [Split, next, hr] using h
  | _ => exact h

def one : Option α → Multiset α
  | none => 0
  | some x => {x}

@[simp] theorem one_none : one (none : Option α) = 0 := rfl
@[simp] theorem one_some (x : α) : one (some x) = {x} := rfl

/-- Every item taken is finished or being handled by exactly one worker. -/
def Accounted [Fintype ω] (s : State τ ω α) : Prop :=
  (s.taken : Multiset α) = s.done + ∑ w, one (s.running w)

theorem accounted_next [Fintype ω] {s : State τ ω α} {a : Action τ ω α} (h : Accounted s)
    (he : Enabled s a) : Accounted (next s a) := by
  cases a with
  | take w =>
    cases hq : s.queue with
    | nil => exact absurd hq he.2.2
    | cons x q =>
      have hsum := Update.sum_update one s.running w (some x)
      rw [he.2.1, one_none, add_zero, one_some] at hsum
      have h' : (s.taken : Multiset α) = s.done + ∑ v, one (s.running v) := h
      simp only [Accounted, next, hq]
      rw [hsum, ← Multiset.coe_add, Multiset.coe_singleton, h', add_assoc]
  | finish w =>
    cases hr : s.running w with
    | none => exact absurd hr he
    | some x =>
      have hsum := Update.sum_update one s.running w none
      rw [hr, one_none, add_zero, one_some] at hsum
      have h' : (s.taken : Multiset α) = s.done + ∑ v, one (s.running v) := h
      simp only [Accounted, next, hr]
      rw [h', ← hsum, ← Multiset.coe_add, Multiset.coe_singleton, add_assoc,
        add_comm ({x} : Multiset α)]
  | _ => exact h

structure Inv [Fintype ω] (s : State τ ω α) : Prop where
  covered : Covered s
  busy : Busy s
  split : Split s
  accounted : Accounted s

theorem inv_run [Fintype ω] {s : State τ ω α} {as : List (Action τ ω α)}
    (hr : run step .init as = some s) : Inv s := by
  apply inv_of_run (P := Inv) _ _ hr
  · exact ⟨by simp [Covered, State.init], by simp [Busy, State.init], rfl, by
      simp [Accounted, State.init]⟩
  · intro s a s' h hs
    obtain ⟨he, rfl⟩ := stepOf_eq_some.mp hs
    exact ⟨covered_next h.covered he, busy_next h.busy he, split_next h.split,
      accounted_next h.accounted he⟩

omit [DecidableEq τ] [DecidableEq ω] in
/-- No lost wake-up: with the token free, no thread about to try for it and no worker
draining, nothing is queued and every item put has been handled exactly once. -/
theorem Inv.no_lost_wakeup [Fintype ω] {s : State τ ω α} (h : Inv s) (hfree : s.token = .free)
    (ha : ∀ t, s.announcing t = false) (hd : ∀ w, s.draining w = false) :
    s.queue = [] ∧ s.done.Perm s.put := by
  have hq : s.queue = [] := by
    by_contra hne
    simpa [hfree, ha, hd] using h.covered hne
  have hidle : ∀ w, s.running w = none := by
    intro w
    by_contra hw
    simpa [hfree, hd] using h.busy w hw
  have hacc : (s.taken : Multiset α) = s.done := by
    rw [h.accounted]
    simp [hidle]
  refine ⟨hq, ?_⟩
  rw [h.split, hq, List.append_nil]
  exact (Multiset.coe_eq_coe.mp hacc).symm

end Wakeup
