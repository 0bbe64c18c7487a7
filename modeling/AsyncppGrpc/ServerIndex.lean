import AsyncppGrpc.ServerStop

/-! The division in `server::push`: when `cq_idx %= m_cqs.size()` is reached with queues to
choose from. Whether a push gets there is up to the flag, which is true whenever there are no
queues. `raw_cq` checks its index against the same size. -/
namespace AsyncppGrpc.Server
open Run
variable {F T : Type*} {n : Nat}

/-- A push that has reached the division divides by a positive number and selects a queue
that exists, and no division by zero has been executed. -/
def IndexSafe (s : State F n T) : Prop :=
  s.fault ≠ some .divideByZero ∧
    ∀ t k, s.pushing t = some (.set k) → s.cqs ≠ 0 ∧ k % s.cqs < s.cqs

/-- The index of the push on `t` whose next statement is its `exchange(false)`. -/
def exchanging (s : State F n T) (t : Thread n T) : Option Nat :=
  match s.pushing t with
  | some (.exchange k) => some k
  | _ => none

/-- Pushes come to their exchange only on a server with threads whose `stop` has not cleared
the queues, and `stop` clears them while no push stands between its exchange and
`Alarm::Set`. -/
def QueuesKept (s : State F n T) : Action F n T → Prop
  | .push t => exchanging s t ≠ none → n ≠ 0 ∧ s.stop ≠ .stopped
  | .stop => s.stop = .clear → ∀ t, arming s t = none
  | _ => True

instance [Fintype T] (s : State F n T) (a : Action F n T) : Decidable (QueuesKept s a) :=
  match a with
  | .push t => inferInstanceAs (Decidable (exchanging s t ≠ none → n ≠ 0 ∧ s.stop ≠ .stopped))
  | .stop => inferInstanceAs (Decidable (s.stop = .clear → ∀ t, arming s t = none))
  | .beginPush _ _ _ | .online _ | .nextAlarm _ | .nextEvent _ | .endEvent _ | .handleEvent _
  | .exit _ => instDecidableTrue

/-- `stop` matters to the division only where it clears the queues. -/
theorem indexSafe_stop {s : State F n T} (hp : IndexSafe s) :
    IndexSafe (stopNext s) ↔ QueuesKept s .stop := by
  by_cases hc : s.stop = .clear
  · have hmod : IndexSafe (stopNext s) ↔ ∀ t k, s.pushing t ≠ some (.set k) := by
      simp [IndexSafe, stopNext, hc, hp.1]
    rw [hmod]
    simp only [QueuesKept, hc, forall_true_left, Option.eq_none_iff_forall_not_mem, mem_arming]
  · refine iff_of_true ?_ fun h => absurd h hc
    simpa [IndexSafe, stopNext_cqs, hc] using hp

variable [DecidableEq T] [DecidableEq F]

/-- The flag is true where there are no queues: nobody is left who could have taken it, as long
as no push is about to divide. -/
theorem needAlarm_of_no_queues {s : State F n T} {as : List (Action F n T)}
    (hr : run step .init as = some s) (hp : IndexSafe s) (hcqs : s.cqs = 0) :
    s.dispatchNeedAlarm = true := by
  have hattended := attended_run hr
  have hex : ∀ w, s.worker w = .exited := by
    intro w
    refine hattended.joined w ?_
    have hstop : s.stop = .stopped := by
      by_contra hne
      have hn := hattended.cqs hne
      have hw := w.isLt
      omega
    rw [hstop]
    trivial
  obtain ⟨a, -, h⟩ := exists_refines hr
  refine h.flag.mp (h.free (fun t => ?_) ?_ fun w => ?_)
  · rw [← Bool.not_eq_true]
    intro hclaims
    cases ht : s.pushing t with
    | none => simp [view, ht, claims] at hclaims
    | some pc =>
      cases pc with
      | set k => exact (hp.2 t k ht).1 hcqs
      | _ => simp [view, ht, claims] at hclaims
  · simp [view, hattended.alarms_eq_nil hex]
  · simp [view, hex w, holds]

/-- A push that exchanges the flag where there are no queues wins it, and divides by zero. -/
theorem indexSafe_push {s : State F n T} {as : List (Action F n T)}
    (hr : run step .init as = some s) (hp : IndexSafe s) {t : Thread n T} :
    IndexSafe (pushNext s t) ↔ QueuesKept s (.push t) := by
  have hothers : ∀ u k, u ≠ t → (pushNext s t).pushing u = some (.set k) →
      s.cqs ≠ 0 ∧ k % s.cqs < s.cqs := by
    intro u k hut hu
    exact hp.2 u k (by rwa [pushNext_pushing_of_ne s hut] at hu)
  have hmine : IndexSafe (pushNext s t) ↔ (pushNext s t).fault ≠ some .divideByZero ∧
      ∀ k, (pushNext s t).pushing t = some (.set k) → s.cqs ≠ 0 := by
    unfold IndexSafe
    rw [(pushNext_frame s t).2.2.1]
    refine and_congr_right fun _ => ⟨fun hall k hk => (hall t k hk).1, fun hall u k hk => ?_⟩
    by_cases hut : u = t
    · subst u
      have hpos := hall k hk
      exact ⟨hpos, Nat.mod_lt k (by omega)⟩
    · exact hothers u k hut hk
  rw [hmine]
  simp only [QueuesKept, exchanging, ← (attended_run hr).sized.ne_zero_iff]
  cases hpc : s.pushing t with
  | none => simp [pushNext, hpc, hp.1]
  | some pc =>
    cases pc with
    | emplace fn k => simp [pushNext, hpc, hp.1]
    | exchange k =>
      by_cases hcqs : s.cqs = 0
      · simp [pushNext, hpc, hcqs, needAlarm_of_no_queues hr hp hcqs]
      · cases hneed : s.dispatchNeedAlarm <;> simp [pushNext, hpc, hp.1, hcqs]
    | set k =>
      have hpos := (hp.2 t k hpc).1
      cases hs : s.shutdown (k % s.cqs) <;> simp [pushNext, hpc, hp.1, hpos, hs]

theorem indexSafe_step {s s' : State F n T} {as : List (Action F n T)} {a : Action F n T}
    (hr : run step .init as = some s) (hp : IndexSafe s) (hs : step s a = some s') :
    IndexSafe s' ↔ QueuesKept s a := by
  obtain ⟨⟨-, he⟩, rfl⟩ := stepOf_eq_some.mp hs
  cases a with
  | beginPush t fn k =>
    refine iff_of_true ⟨hp.1, fun u j hj => ?_⟩ trivial
    by_cases hut : u = t
    · subst u
      simp [next] at hj
    · exact hp.2 u j (by simpa [next, hut] using hj)
  | push t => exact indexSafe_push hr hp
  | handleEvent w => exact iff_of_true (by simpa [IndexSafe, next] using hp) trivial
  | stop => exact indexSafe_stop hp
  | _ => exact iff_of_true hp trivial

/-- For any thread count, pushes and `stop` interleaved in any way: the division is safe on a
schedule exactly when no push comes to its exchange on a server without queues and `stop` clears
the queues under no push that has won it. -/
theorem index_safe_iff (as : List (Action F n T)) :
    Always step IndexSafe (.init : State F n T) as ↔
      Guarded step QueuesKept (.init : State F n T) as := by
  apply always_iff_guarded_of_inv (I := fun s => ∃ as, run step .init as = some s)
  · exact ⟨[], rfl⟩
  · exact ⟨by simp [State.init], by simp [State.init]⟩
  · intro s a s' h hs
    obtain ⟨as, hr⟩ := h
    exact ⟨as ++ [a], by simp [run_append, hr, hs]⟩
  · intro s a s' h hp hs
    obtain ⟨as, hr⟩ := h
    exact indexSafe_step hr hp hs

/-- A push on a server built with no threads, and one after `stop` has returned. -/
def pushWithoutThreads : List (Action Nat 0 Unit) :=
  [.beginPush (.external ()) (some 7) 0, .push (.external ()), .push (.external ()),
    .push (.external ())]

def pushAfterStop (w : Fin 1) : List (Action Nat 1 Unit) :=
  [.online w, .stop, .stop, .stop, .stop, .exit w, .stop, .stop, .stop,
    .beginPush (.external ()) (some 7) 0, .push (.external ()), .push (.external ()),
    .push (.external ())]

theorem pushWithoutQueues_divides :
    (∃ s, run step .init pushWithoutThreads = some s ∧ s.fault = some .divideByZero ∧
      ¬IndexSafe s) ∧
    ∃ s, run step .init (pushAfterStop 0) = some s ∧ s.fault = some .divideByZero ∧
      ¬IndexSafe s := by
  refine ⟨⟨_, rfl, rfl, ?_⟩, ⟨_, rfl, rfl, ?_⟩⟩
  · exact fun h => h.1 rfl
  · exact fun h => h.1 rfl

end AsyncppGrpc.Server
