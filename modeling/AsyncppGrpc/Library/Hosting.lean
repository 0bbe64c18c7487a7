import AsyncppGrpc.Library.Run

/-! Machines of one kind that wait for events on the queues of some hosts. A host leaves when
its queue is drained; what it leaves behind is decided by what nobody delivers any more. -/
namespace Hosting
open Run
variable {κ σ γ α : Type*}

/-- `left` are the hosts that are gone, `parties` the machines with the host of their queue. -/
@[ext] structure State (κ σ : Type*) where
  left : κ → Bool
  parties : List (κ × σ)

def State.init : State κ σ := ⟨fun _ => false, []⟩

/-- `create k c`: a machine joins at host `k`; `act i a`: the `i`-th one takes the step `a`. -/
inductive Action (κ γ α : Type*) where
  | create (k : κ) (c : γ)
  | act (i : Nat) (a : α)
  | leave (k : κ)

section
variable [DecidableEq κ] (create : γ → σ) (step : σ → α → Option σ) (drained : σ → Bool)

/-- Nothing is outstanding on the queue of `k`. -/
def Drained (s : State κ σ) (k : κ) : Prop := ∀ q ∈ s.parties, q.1 = k → drained q.2 = true

instance (s : State κ σ) (k : κ) : Decidable (Drained drained s k) :=
  inferInstanceAs (Decidable (∀ q ∈ s.parties, q.1 = k → drained q.2 = true))

def hostStep (s : State κ σ) : Action κ γ α → Option (State κ σ)
  | .create k c =>
    if s.left k then none else some { s with parties := s.parties ++ [(k, create c)] }
  | .act i a => s.parties[i]?.bind fun q =>
    (step q.2 a).map fun p => { s with parties := s.parties.set i (q.1, p) }
  | .leave k =>
    if Drained drained s k then some { s with left := Function.update s.left k true } else none
end

/-- What the departed hosts have left behind has the property. -/
def Settled (good : σ → Prop) (s : State κ σ) : Prop :=
  ∀ q ∈ s.parties, s.left q.1 = true → good q.2

/-- A host leaves machines that are ready for it only, and one that is left behind takes only
steps that keep it so. -/
def Orderly (ready : σ → Prop) (keeps : σ → α → Prop) (s : State κ σ) : Action κ γ α → Prop
  | .create _ _ => True
  | .act i a => ∀ q ∈ s.parties[i]?, s.left q.1 = true → keeps q.2 a
  | .leave k => ∀ q ∈ s.parties, q.1 = k → ready q.2

/-- What the action is to the `i`-th machine. -/
def actOn (i : Nat) : Action κ γ α → Option α
  | .act j a => if j = i then some a else none
  | _ => none

/-- Every machine has got where it is by its part of the schedule; one to come has none yet. -/
structure Ran (create : γ → σ) (step : σ → α → Option σ) (s : State κ σ)
    (bs : List (Action κ γ α)) : Prop where
  machine : ∀ (i : Nat) (q : κ × σ), s.parties[i]? = some q →
    ∃ c, run step (create c) (bs.filterMap (actOn i)) = some q.2
  unborn : ∀ i, s.parties.length ≤ i → bs.filterMap (actOn i) = []

/-- Every machine has the invariant. -/
def Each (I : σ → Prop) (s : State κ σ) : Prop := ∀ q ∈ s.parties, I q.2

/-- One machine of the list steps; the others are those there were. -/
theorem forall_mem_set {P : κ × σ → Prop} {qs : List (κ × σ)} {i : Nat} {q r : κ × σ}
    (hq : qs[i]? = some q) :
    (∀ x ∈ qs.set i r, P x) ↔ P r ∧ ∀ j x, j ≠ i → qs[j]? = some x → P x := by
  have hi : i < qs.length := (List.getElem?_eq_some_iff.mp hq).1
  constructor
  · intro h
    refine ⟨h r (List.mem_set hi r), fun j x hj hx => h x ?_⟩
    refine List.mem_of_getElem? (i := j) ?_
    rw [List.getElem?_set_ne (Ne.symm hj), hx]
  · intro ⟨hr, h⟩ x hx
    obtain ⟨j, hj⟩ := List.mem_iff_getElem?.mp hx
    by_cases hji : j = i
    · subst j
      rw [List.getElem?_set_self hi] at hj
      obtain rfl : r = x := by simpa using hj
      exact hr
    · rw [List.getElem?_set_ne (Ne.symm hji)] at hj
      exact h j x hji hj

section
variable [DecidableEq κ] {create : γ → σ} {step : σ → α → Option σ} {drained : σ → Bool}
  {I good ready : σ → Prop} {keeps : σ → α → Prop} {s s' : State κ σ}

theorem hostStep_act {i : Nat} {a : α} : hostStep create step drained s (.act i a) = some s' ↔
    ∃ q p, s.parties[i]? = some q ∧ step q.2 a = some p ∧
      s' = { s with parties := s.parties.set i (q.1, p) } := by
  simp only [hostStep, Option.bind_eq_some_iff, Option.map_eq_some_iff]
  constructor
  · intro ⟨q, hq, p, hp, heq⟩
    exact ⟨q, p, hq, hp, heq.symm⟩
  · intro ⟨q, p, hq, hp, heq⟩
    exact ⟨q, hq, p, hp, heq.symm⟩

theorem hostStep_create {k : κ} {c : γ} :
    hostStep create step drained s (.create k c) = some s' ↔
      s.left k = false ∧ s' = { s with parties := s.parties ++ [(k, create c)] } := by
  cases hk : s.left k <;> simp [hostStep, hk, eq_comm]

theorem hostStep_leave {k : κ} : hostStep create step drained s (.leave k) = some s' ↔
    Drained drained s k ∧ s' = { s with left := Function.update s.left k true } := by
  unfold hostStep
  split <;> simp_all [eq_comm]

theorem each_step (h0 : ∀ c, I (create c)) (hI : ∀ p a p', I p → step p a = some p' → I p')
    {b : Action κ γ α} (h : Each I s) (hs : hostStep create step drained s b = some s') :
    Each I s' := by
  cases b with
  | create k c =>
    obtain ⟨-, rfl⟩ := hostStep_create.mp hs
    intro q hq
    rcases List.mem_append.mp hq with hold | hnew
    · exact h q hold
    · obtain rfl : q = (k, create c) := by simpa using hnew
      exact h0 c
  | act i a =>
    obtain ⟨q, p, hq, hp, rfl⟩ := hostStep_act.mp hs
    refine (forall_mem_set hq).mpr ⟨?_, fun j x _ hx => h x (List.mem_of_getElem? hx)⟩
    exact hI q.2 a p (h q (List.mem_of_getElem? hq)) hp
  | leave k =>
    obtain ⟨-, rfl⟩ := hostStep_leave.mp hs
    exact h

theorem ran_step {bs : List (Action κ γ α)} {b : Action κ γ α} (h : Ran create step s bs)
    (hs : hostStep create step drained s b = some s') : Ran create step s' (bs ++ [b]) := by
  have hsnoc : ∀ i, (bs ++ [b]).filterMap (actOn i) =
      bs.filterMap (actOn i) ++ (actOn i b).toList := by
    intro i
    cases hb : actOn i b <;> simp [hb]
  cases b with
  | create k c =>
    obtain ⟨-, rfl⟩ := hostStep_create.mp hs
    have hsame : ∀ i, (bs ++ [Action.create k c]).filterMap (actOn i) = bs.filterMap (actOn i) :=
      fun i => (hsnoc i).trans (List.append_nil _)
    refine ⟨fun i q hq => ?_, fun i hi => ?_⟩
    · rw [hsame]
      rcases Nat.lt_or_ge i s.parties.length with hi | hi
      · rw [List.getElem?_append_left hi] at hq
        exact h.machine i q hq
      · rw [List.getElem?_append_right hi] at hq
        obtain rfl : q = (k, create c) := List.mem_singleton.mp (List.mem_of_getElem? hq)
        exact ⟨c, by rw [h.unborn i hi]; rfl⟩
    · rw [hsame]
      refine h.unborn i (Nat.le_trans ?_ hi)
      simp
  | act j a =>
    obtain ⟨r, p, hr, hp, rfl⟩ := hostStep_act.mp hs
    have hj : j < s.parties.length := (List.getElem?_eq_some_iff.mp hr).1
    refine ⟨fun i q hq => ?_, fun i hi => ?_⟩
    · rw [hsnoc]
      by_cases hij : j = i
      · subst i
        rw [List.getElem?_set_self hj] at hq
        obtain rfl : (r.1, p) = q := by simpa using hq
        obtain ⟨c, hc⟩ := h.machine j r hr
        refine ⟨c, ?_⟩
        rw [run_append, hc]
        simpa [actOn] using hp
      · rw [List.getElem?_set_ne hij] at hq
        simpa [actOn, hij] using h.machine i q hq
    · have hi : s.parties.length ≤ i := by simpa using hi
      have hij : j ≠ i := by omega
      rw [hsnoc, h.unborn i hi]
      simp [actOn, hij]
  | leave k =>
    obtain ⟨-, rfl⟩ := hostStep_leave.mp hs
    have hsame : ∀ i, (bs ++ [Action.leave k]).filterMap (actOn i) = bs.filterMap (actOn i) :=
      fun i => (hsnoc i).trans (List.append_nil _)
    refine ⟨fun i q hq => ?_, fun i hi => ?_⟩
    · rw [hsame]
      exact h.machine i q hq
    · rw [hsame]
      exact h.unborn i hi

theorem ran_of_run {bs : List (Action κ γ α)}
    (hr : run (hostStep create step drained) .init bs = some s) : Ran create step s bs := by
  refine log_of_run ?_ (fun _ _ _ _ => ran_step) hr
  constructor <;> simp [State.init]

theorem settled_step (hready : ∀ p, I p → drained p = true → (good p ↔ ready p))
    (hkeeps : ∀ p a p', I p → good p → step p a = some p' → (good p' ↔ keeps p a))
    {b : Action κ γ α} (h : Each I s) (hset : Settled good s)
    (hs : hostStep create step drained s b = some s') :
    Settled good s' ↔ Orderly ready keeps s b := by
  cases b with
  | create k c =>
    obtain ⟨hk, rfl⟩ := hostStep_create.mp hs
    refine iff_of_true (fun q hq hleft => ?_) trivial
    rcases List.mem_append.mp hq with hold | hnew
    · exact hset q hold hleft
    · obtain rfl : q = (k, create c) := by simpa using hnew
      simp [hk] at hleft
  | act i a =>
    obtain ⟨q, p, hq, hp, rfl⟩ := hostStep_act.mp hs
    have hmem := List.mem_of_getElem? hq
    have hothers : ∀ j x, j ≠ i → s.parties[j]? = some x → s.left x.1 = true → good x.2 :=
      fun j x _ hx => hset x (List.mem_of_getElem? hx)
    unfold Settled
    rw [forall_mem_set hq, and_iff_left hothers]
    simp only [Orderly, hq, Option.mem_some_iff, forall_eq']
    exact forall_congr' fun hleft => hkeeps q.2 a p (h q hmem) (hset q hmem hleft) hp
  | leave k =>
    obtain ⟨hdrained, rfl⟩ := hostStep_leave.mp hs
    constructor
    · intro hall q hq hk
      refine (hready q.2 (h q hq) (hdrained q hq hk)).mp (hall q hq ?_)
      simp [hk]
    · intro hall q hq hleft
      by_cases hk : q.1 = k
      · exact (hready q.2 (h q hq) (hdrained q hq hk)).mpr (hall q hq hk)
      · exact hset q hq (by simpa [hk] using hleft)

/-- What is left behind is good all along a run exactly if the hosts leave in order. -/
theorem settled_iff (h0 : ∀ c, I (create c)) (hI : ∀ p a p', I p → step p a = some p' → I p')
    (hready : ∀ p, I p → drained p = true → (good p ↔ ready p))
    (hkeeps : ∀ p a p', I p → good p → step p a = some p' → (good p' ↔ keeps p a))
    (bs : List (Action κ γ α)) :
    Always (hostStep create step drained) (Settled good) .init bs ↔
      Guarded (hostStep create step drained) (Orderly ready keeps) .init bs := by
  apply always_iff_guarded_of_inv (I := Each I)
  · simp [Each, State.init]
  · simp [Settled, State.init]
  · exact fun _ _ _ => each_step h0 hI
  · exact fun _ _ _ => settled_step hready hkeeps

end
end Hosting
