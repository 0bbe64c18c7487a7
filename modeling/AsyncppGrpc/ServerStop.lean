import AsyncppGrpc.ServerQueues

/-! `server::stop` against the dispatcher. `push` consults neither the server's life cycle
nor the queue it arms, so the two meet in `Alarm::Set`. -/
namespace AsyncppGrpc.Server
open Run
variable {F T : Type*} {n : Nat}

/-- The threads that are not workers push only before `stop`, and are out of `push` when it
begins. -/
def ExternalBefore (s : State F n T) : Action F n T → Prop
  | .beginPush (.external _) _ _ => s.stop = .running
  | .stop => s.stop = .running → ∀ t, s.pushing (.external t) = none
  | _ => True

/-- The index of the push on `t` whose next statement wins the flag. -/
def winning (s : State F n T) (t : Thread n T) : Option Nat :=
  match s.pushing t with
  | some (.exchange k) => if s.dispatchNeedAlarm then some k else none
  | _ => none

/-- The index of the push on `t` whose next statement is `Alarm::Set`. -/
def arming (s : State F n T) (t : Thread n T) : Option Nat :=
  match s.pushing t with
  | some (.set k) => some k
  | _ => none

/-- The queue `stop` shuts down next. -/
def closing (s : State F n T) : Option Nat :=
  match s.stop with
  | .shutdownCq k => some k
  | _ => none

/-- A push that wins the flag finds its queue open, and no queue is shut down under a push
that is about to set the alarm on it. -/
def OpenQueue (s : State F n T) : Action F n T → Prop
  | .push t => ∀ k ∈ winning s t, s.shutdown (k % n) = false
  | .stop => ∀ k ∈ closing s, ∀ t, ∀ j ∈ arming s t, j % n ≠ k
  | _ => True

theorem mem_winning {s : State F n T} {t : Thread n T} {k : Nat} :
    k ∈ winning s t ↔ s.pushing t = some (.exchange k) ∧ s.dispatchNeedAlarm = true := by
  unfold winning
  split
  · split <;> simp_all
  · simp_all

theorem mem_arming {s : State F n T} {t : Thread n T} {k : Nat} :
    k ∈ arming s t ↔ s.pushing t = some (.set k) := by
  unfold arming
  split <;> simp_all

theorem mem_closing {s : State F n T} {k : Nat} : k ∈ closing s ↔ s.stop = .shutdownCq k := by
  unfold closing
  split <;> simp_all

theorem openQueue_push {s : State F n T} {t : Thread n T} : OpenQueue s (.push t) ↔
    ∀ k, s.pushing t = some (.exchange k) → s.dispatchNeedAlarm = true →
      s.shutdown (k % n) = false := by
  simp only [OpenQueue, mem_winning, and_imp]

theorem openQueue_stop {s : State F n T} : OpenQueue s .stop ↔
    ∀ k, s.stop = .shutdownCq k → ∀ t j, s.pushing t = some (.set j) → j % n ≠ k := by
  simp only [OpenQueue, mem_arming, mem_closing]

instance [Fintype T] (s : State F n T) (a : Action F n T) : Decidable (ExternalBefore s a) :=
  match a with
  | .beginPush (.external _) _ _ => inferInstanceAs (Decidable (s.stop = .running))
  | .stop =>
    inferInstanceAs (Decidable (s.stop = .running → ∀ t, s.pushing (.external t) = none))
  | .beginPush (.worker _) _ _ | .push _ | .online _ | .nextAlarm _ | .nextEvent _
  | .endEvent _ | .handleEvent _ | .exit _ => instDecidableTrue

instance [Fintype T] (s : State F n T) (a : Action F n T) : Decidable (OpenQueue s a) :=
  match a with
  | .push t => inferInstanceAs (Decidable (∀ k ∈ winning s t, s.shutdown (k % n) = false))
  | .stop =>
    inferInstanceAs (Decidable (∀ k ∈ closing s, ∀ t, ∀ j ∈ arming s t, j % n ≠ k))
  | .beginPush _ _ _ | .online _ | .nextAlarm _ | .nextEvent _ | .endEvent _ | .handleEvent _
  | .exit _ => instDecidableTrue

/-- No `Alarm::Set` has hit, or is next to hit, a queue that is shut down. -/
def NoFatalSet (s : State F n T) : Prop :=
  s.fault = none ∧ ∀ t k, s.pushing t = some (.set k) → s.shutdown (k % n) = false

/-- Only workers push once `stop` has begun, and only out of code that may. -/
structure StopInv (s : State F n T) : Prop extends Attended s where
  pushing : ∀ w, s.pushing (.worker w) ≠ none → (s.worker w).mayPush
  external : s.stop ≠ .running → ∀ t, s.pushing (.external t) = none

theorem stopInv_init : StopInv (.init : State F n T) where
  toAttended := attended_init
  pushing _ h := absurd rfl h
  external h := absurd rfl h

/-- After `stop` has joined the workers nobody is inside `push`. -/
theorem StopInv.not_pushing {s : State F n T} (h : StopInv s) (hs : s.stop = .stopped)
    (t : Thread n T) : s.pushing t = none := by
  cases t with
  | external t => exact h.external (by simp [hs]) t
  | worker w =>
    by_contra hp
    have hmay := h.pushing w hp
    simp [h.joined w (by simp [hs, Joined]), WorkerPc.mayPush] at hmay

theorem StopInv.quiescent {s : State F n T} (h : StopInv s) (hs : s.stop = .stopped) :
    Quiescent s := by
  have hex : ∀ w, s.worker w = .exited := fun w => h.joined w (by simp [hs, Joined])
  exact ⟨h.not_pushing hs, fun w => by simp [hex w, WorkerPc.inHandleEvent], h.alarms_eq_nil hex⟩

/-- A worker moves to a control point that may push if the worker is in a push. -/
theorem StopInv.move {s : State F n T} (h : StopInv s) {w : Fin n} {p : WorkerPc F}
    (hp : s.pushing (.worker w) ≠ none → p.mayPush)
    (ha : Attended { s with worker := Function.update s.worker w p }) :
    StopInv { s with worker := Function.update s.worker w p } where
  toAttended := ha
  external := h.external
  pushing v hv := by
    by_cases hvw : v = w
    · subst v
      simpa using hp hv
    · simpa [hvw] using h.pushing v hv

theorem StopInv.stop {s : State F n T} (h : StopInv s) (ha : Attended (stopNext s))
    (hx : s.stop = .running → ∀ t, s.pushing (.external t) = none) : StopInv (stopNext s) where
  toAttended := ha
  pushing := by simpa using h.pushing
  external _ t := by
    rw [(stopNext_frame s).2.1]
    by_cases hr : s.stop = .running
    · exact hx hr t
    · exact h.external hr t

theorem StopInv.handleEvent {s : State F n T} (h : StopInv s) {w : Fin n}
    (he : (s.worker w).inHandleEvent) (hp : s.pushing (.worker w) = none) :
    StopInv (handleEventNext s w) := by
  have ha := h.toAttended.handleEvent he
  refine ⟨ha, fun v hv => ?_, by simpa using h.external⟩
  have hv : s.pushing (.worker v) ≠ none := by simpa using hv
  have hvw : v ≠ w := by
    intro hvw
    exact hv (hvw ▸ hp)
  rw [handleEventNext_worker_of_ne s hvw]
  exact h.pushing v hv

/-- Whether `stop` closes a queue under a push about to arm it is decided by the state
before its `Shutdown`. -/
theorem noFatalSet_stop {s : State F n T} (hn : 0 < n) (h : StopInv s) (hf : NoFatalSet s)
    (hne : s.stop ≠ .stopped) : NoFatalSet (stopNext s) ↔ OpenQueue s .stop := by
  have hcqs := h.cqs hne
  have hclosed : ∀ t k, s.pushing t = some (.set k) →
      ((stopNext s).shutdown (k % n) = false ↔ s.stop ≠ .shutdownCq (k % n)) := by
    intro t k hk
    rw [← Bool.not_eq_true, stopNext_shutdown]
    simp [hf.2 t k hk, hcqs, Nat.mod_lt k hn]
  rw [openQueue_stop]
  unfold NoFatalSet
  simp only [stopNext_frame, hf.1, true_and]
  constructor
  · intro hall k hk t j hj hjk
    exact (hclosed t j hj).mp (hall t j hj) (hjk ▸ hk)
  · intro hopen t k hk
    exact (hclosed t k hk).mpr fun hs => hopen (k % n) hs t k hk rfl

variable [DecidableEq T]

theorem StopInv.beginPush {s : State F n T} (h : StopInv s) {t : Thread n T} {fn : Option F}
    {k : Nat} (henv : ExternalBefore s (.beginPush t fn k))
    (hmay : ∀ w, t = .worker w → (s.worker w).mayPush) :
    StopInv { s with pushing := Function.update s.pushing t (some (.emplace fn k)) } where
  toAttended := ⟨h.sized, h.shutdown, h.alarm, h.exited, h.joined⟩
  pushing w hw := by
    by_cases hwt : Thread.worker w = t
    · exact hmay w hwt.symm
    · exact h.pushing w (by simpa [hwt] using hw)
  external hs u := by
    by_cases hut : Thread.external u = t
    · subst t
      exact absurd henv hs
    · simpa [hut] using h.external hs u

theorem StopInv.push {s : State F n T} (h : StopInv s) {t : Thread n T}
    (he : s.pushing t ≠ none) : StopInv (pushNext s t) := by
  refine ⟨h.toAttended.push t, fun w hw => ?_, fun hs u => ?_⟩
  · rw [(pushNext_frame s t).1]
    by_cases hwt : Thread.worker w = t
    · exact h.pushing w (hwt ▸ he)
    · exact h.pushing w (by rwa [pushNext_pushing_of_ne s hwt] at hw)
  · have hu := h.external (by simpa using hs) u
    have hut : Thread.external u ≠ t := by
      intro hut
      exact he (hut ▸ hu)
    rwa [pushNext_pushing_of_ne s hut]

/-- Whether a statement of `push` makes or commits to a fatal `Alarm::Set` is decided when
it wins the flag. -/
theorem noFatalSet_push {s : State F n T} (hn : 0 < n) (h : StopInv s) (hf : NoFatalSet s)
    {t : Thread n T} (he : s.pushing t ≠ none) :
    NoFatalSet (pushNext s t) ↔ OpenQueue s (.push t) := by
  have hcqs := h.cqs fun hs => he (h.not_pushing hs t)
  have hmine : NoFatalSet (pushNext s t) ↔ (pushNext s t).fault = none ∧
      ∀ k, (pushNext s t).pushing t = some (.set k) → s.shutdown (k % n) = false := by
    unfold NoFatalSet
    rw [(pushNext_frame s t).2.2.2]
    refine and_congr_right fun _ => ⟨fun hall => hall t, fun hall u k hk => ?_⟩
    by_cases hut : u = t
    · exact hall k (hut ▸ hk)
    · exact hf.2 u k (by rwa [pushNext_pushing_of_ne s hut] at hk)
  rw [hmine, openQueue_push]
  cases hp : s.pushing t with
  | none => exact absurd hp he
  | some pc =>
    cases pc with
    | emplace fn k => simp [pushNext, hp, hf.1]
    | exchange k => cases hneed : s.dispatchNeedAlarm <;> simp [pushNext, hp, hf.1, hneed]
    | set k => simp [pushNext, hp, hf.1, hf.2 t k hp, hcqs, hn.ne']

variable [DecidableEq F]

theorem stopInv_step {s s' : State F n T} {a : Action F n T} (h : StopInv s)
    (henv : ExternalBefore s a) (hs : step s a = some s') : StopInv s' := by
  have ha := attended_step h.toAttended hs
  obtain ⟨⟨-, he⟩, rfl⟩ := stepOf_eq_some.mp hs
  have hmay : ∀ w, s.worker w = .next → s.pushing (.worker w) = none := by
    intro w hw
    by_contra hp
    simpa [hw, WorkerPc.mayPush] using h.pushing w hp
  cases a with
  | beginPush t fn k =>
    refine h.beginPush henv fun w hw => ?_
    subst t
    exact he.2
  | push t => exact h.push he
  | online w => exact h.move (absurd he.2) ha
  | nextAlarm w =>
    refine ⟨ha, fun v hv => ?_, h.external⟩
    by_cases hvw : v = w
    · exact absurd (hmay w he.1) (hvw ▸ hv)
    · simpa [next, hvw] using h.pushing v hv
  | nextEvent w => exact h.move (fun _ => by simp [WorkerPc.mayPush]) ha
  | endEvent w => exact h.move (absurd he.2) ha
  | handleEvent w => exact h.handleEvent he.1 he.2
  | exit w => exact h.move (absurd (hmay w he.1)) ha
  | stop => exact h.stop ha henv

theorem noFatalSet_step {s s' : State F n T} {a : Action F n T} (hn : 0 < n) (h : StopInv s)
    (hf : NoFatalSet s) (hs : step s a = some s') : NoFatalSet s' ↔ OpenQueue s a := by
  obtain ⟨⟨-, he⟩, rfl⟩ := stepOf_eq_some.mp hs
  cases a with
  | beginPush t fn k =>
    refine iff_of_true ⟨hf.1, fun u j hj => ?_⟩ trivial
    by_cases hut : u = t
    · subst u
      simp [next] at hj
    · exact hf.2 u j (by simpa [next, hut] using hj)
  | push t => exact noFatalSet_push hn h hf he
  | handleEvent w => exact iff_of_true (by simpa [NoFatalSet, next] using hf) trivial
  | stop => exact noFatalSet_stop hn h hf he.1
  | _ => exact iff_of_true hf trivial

/-- No fatal `Alarm::Set`, and when `stop` has returned the functions run are exactly the
non-empty ones pushed, each as often as pushed. -/
def StopSafe (s : State F n T) : Prop :=
  NoFatalSet s ∧ (s.stop = .stopped → s.ran.Perm s.pushed.reduceOption)

/-- `stop` is safe on a schedule exactly when no push commits to a queue that is, or is
about to be, shut down. -/
theorem stop_safe_iff (hn : 0 < n) {as : List (Action F n T)}
    (henv : Guarded step ExternalBefore (.init : State F n T) as) :
    Always step StopSafe (.init : State F n T) as ↔
      Guarded step OpenQueue (.init : State F n T) as := by
  have hinv : Always step StopInv (.init : State F n T) as :=
    always_of_step stopInv_init (fun s a s' h => stopInv_step h) henv
  have hdone := always_of_run (fun _ (s : State F n T) => ran_of_quiescent) as
  have hset : Always step NoFatalSet (.init : State F n T) as ↔
      Guarded step OpenQueue (.init : State F n T) as := by
    exact always_iff_guarded stopInv_init ⟨rfl, fun t k h => by simp [State.init] at h⟩
      (fun s a s' h _ => stopInv_step h) (fun s a s' h hf _ => noFatalSet_step hn h hf) henv
  constructor
  · intro h
    exact hset.mp (h.mono fun s hs => hs.1)
  · intro h
    refine ((hset.mpr h).and (hinv.and hdone)).mono ?_
    intro s hs
    obtain ⟨hf, hi, hran⟩ := hs
    exact ⟨hf, fun hstop => (hran (hi.quiescent hstop)).2⟩

/-- A push on worker 0 from the handler of another tag, after `stop` has shut queue 0 down. -/
def pushAfterShutdown : List (Action Nat 1 Empty) :=
  [.online 0, .nextEvent 0, .stop, .stop, .stop, .beginPush (.worker 0) (some 7) 0,
    .push (.worker 0), .push (.worker 0), .push (.worker 0)]

theorem pushAfterShutdown_fatal : Guarded step ExternalBefore .init pushAfterShutdown ∧
    ∃ s, run step .init pushAfterShutdown = some s ∧ s.fault = some (.setAfterShutdown 0) ∧
      ¬StopSafe s := by
  refine ⟨by decide, _, rfl, rfl, fun h => ?_⟩
  exact absurd h.1.1 (by decide)

/-- A push from outside, `stop`, and a nested push from the callback. -/
def pushThenStop : List (Action Nat 1 Unit) :=
  [.online 0, .beginPush (.external ()) (some 7) 0, .push (.external ()), .push (.external ()),
    .push (.external ()), .stop, .stop, .stop, .nextAlarm 0, .handleEvent 0,
    .beginPush (.worker 0) (some 8) 0, .push (.worker 0), .push (.worker 0), .handleEvent 0,
    .handleEvent 0, .handleEvent 0, .handleEvent 0, .handleEvent 0, .handleEvent 0, .exit 0,
    .stop, .stop, .stop, .stop]

theorem pushThenStop_safe : ∃ s, run step .init pushThenStop = some s ∧ s.stop = .stopped ∧
    s.ran = [7, 8] ∧ s.ran.Perm s.pushed.reduceOption := by
  have henv : Guarded step ExternalBefore .init pushThenStop := by decide
  have hopen : Guarded step OpenQueue .init pushThenStop := by decide
  have hr : run step .init pushThenStop = some _ := rfl
  exact ⟨_, hr, rfl, rfl, (((stop_safe_iff Nat.one_pos henv).mpr hopen).last hr).2 rfl⟩

end AsyncppGrpc.Server
