import AsyncppGrpc.ClientCqWakeup

/-! `~client_cq` against the dispatcher. `handle_event` clears `m_alarm_set` before it
drains, so a task that pushes while the queue is shut down arms the alarm again. -/
namespace AsyncppGrpc.ClientCq
open Run
variable {F T : Type*}

/-- The other threads push only before the destructor, and are out of `push` when it
begins. -/
def ExternalBefore (s : State F T) : Action F T → Prop
  | .beginPush (.external _) _ => s.dtor = .live
  | .destroy => s.dtor = .live → ∀ t, s.pushing (.external t) = none
  | _ => True

/-- A push finds the queue open or the alarm set, and the queue is not shut down under a push
that has won the flag. -/
def OpenQueue (s : State F T) : Action F T → Prop
  | .push t => s.pushing t = some .testAndSet → s.shutdown = true → s.alarmSet = true
  | .destroy => s.dtor = .live → ∀ t, s.pushing t ≠ some .set
  | _ => True

instance [Fintype T] (s : State F T) (a : Action F T) : Decidable (ExternalBefore s a) :=
  match a with
  | .beginPush (.external _) _ => inferInstanceAs (Decidable (s.dtor = .live))
  | .destroy =>
    inferInstanceAs (Decidable (s.dtor = .live → ∀ t, s.pushing (.external t) = none))
  | .beginPush .worker _ | .push _ | .nextAlarm | .nextEvent | .endEvent | .handleEvent
  | .exit => instDecidableTrue

instance [DecidableEq F] [Fintype T] (s : State F T) (a : Action F T) :
    Decidable (OpenQueue s a) :=
  match a with
  | .push t => inferInstanceAs
    (Decidable (s.pushing t = some .testAndSet → s.shutdown = true → s.alarmSet = true))
  | .destroy => inferInstanceAs (Decidable (s.dtor = .live → ∀ t, s.pushing t ≠ some .set))
  | .beginPush _ _ | .nextAlarm | .nextEvent | .endEvent | .handleEvent | .exit =>
    instDecidableTrue

/-- No `Alarm::Set` has been executed on the queue after its `Shutdown`, and no thread is
about to. -/
def NoFatalSet (s : State F T) : Prop :=
  s.fault = none ∧ ∀ t, s.pushing t = some .set → s.shutdown = false

structure DtorInv (s : State F T) : Prop where
  live : s.dtor = .live ↔ s.shutdown = false
  pushing : s.pushing .worker ≠ none → s.worker.mayPush
  external : s.dtor ≠ .live → ∀ t, s.pushing (.external t) = none
  exited : s.worker = .exited → s.shutdown = true ∧ s.alarms = 0
  joined : s.dtor = .joined → s.worker = .exited

theorem dtorInv_init : DtorInv (.init : State F T) where
  live := by simp [State.init]
  pushing h := absurd rfl h
  external h := absurd rfl h
  exited h := by simp [State.init] at h
  joined h := by simp [State.init] at h

/-- Past its loop the worker is in no push, and then nobody is. -/
theorem DtorInv.not_pushing {s : State F T} (h : DtorInv s) (hw : s.worker = .exited)
    (t : Thread T) : s.pushing t = none := by
  cases t with
  | external t =>
    refine h.external (fun hl => ?_) t
    simpa [h.live.mp hl] using (h.exited hw).1
  | worker =>
    by_contra hp
    have hmay := h.pushing hp
    simp [hw, WorkerPc.mayPush] at hmay

theorem DtorInv.quiescent {s : State F T} (h : DtorInv s) (hj : s.dtor = .joined) :
    Quiescent s := by
  have hw := h.joined hj
  exact ⟨h.not_pushing hw, by simp [hw, WorkerPc.inHandleEvent], (h.exited hw).2⟩

/-- A worker not past its loop moves to another control point, one that may push if the
worker is in a push. -/
theorem DtorInv.move {s : State F T} (h : DtorInv s) {p : WorkerPc F}
    (hp : s.pushing .worker ≠ none → p.mayPush) (hw : s.worker ≠ .exited)
    (hne : p ≠ .exited) : DtorInv { s with worker := p } :=
  { h with
    pushing := hp
    exited := fun he => absurd he hne
    joined := fun hj => absurd (h.joined hj) hw }

theorem DtorInv.exit {s : State F T} (h : DtorInv s) (hw : s.worker = .next)
    (hs : s.shutdown = true) (hal : s.alarms = 0) : DtorInv { s with worker := .exited } :=
  { h with
    pushing := by
      intro hp
      have hmay := h.pushing hp
      simp [hw, WorkerPc.mayPush] at hmay
    exited := fun _ => ⟨hs, hal⟩
    joined := fun _ => rfl }

theorem DtorInv.destroy {s : State F T} (h : DtorInv s)
    (hx : s.dtor = .live → ∀ t, s.pushing (.external t) = none)
    (hj : s.dtor = .join → s.worker = .exited) : DtorInv (destroyNext s) := by
  cases hd : s.dtor with
  | live =>
    simp only [destroyNext, hd]
    constructor
    · simp
    · exact h.pushing
    · exact fun _ => hx hd
    · exact fun hw => ⟨rfl, (h.exited hw).2⟩
    · simp
  | join =>
    simp only [destroyNext, hd]
    have hsh : s.shutdown = true := by simpa [hd] using h.live
    constructor
    · simp [hsh]
    · exact h.pushing
    · exact fun _ => h.external (by simp [hd])
    · exact h.exited
    · exact fun _ => hj hd
  | joined =>
    simp only [destroyNext, hd]
    exact h

theorem DtorInv.handleEvent {s : State F T} (h : DtorInv s) (he : s.worker.inHandleEvent)
    (hp : s.pushing .worker = none) : DtorInv (handleEventNext s) := by
  have hw : s.worker ≠ .exited := by
    intro hx
    simp [hx, WorkerPc.inHandleEvent] at he
  have hmove := h.move (absurd hp) hw (handleEventNext_not_exited s he)
  exact ⟨by simpa using hmove.live, by simpa using hmove.pushing, by simpa using hmove.external,
    by simpa using hmove.exited, by simpa using hmove.joined⟩

theorem noFatalSet_destroy {s : State F T} (h : DtorInv s) (hf : NoFatalSet s)
    (hne : s.dtor ≠ .joined) : NoFatalSet (destroyNext s) ↔ OpenQueue s .destroy := by
  cases hd : s.dtor with
  | live => simp [NoFatalSet, OpenQueue, destroyNext, hd, hf.1]
  | join =>
    have hsh : s.shutdown = true := by simpa [hd] using h.live
    have hset : ∀ t, s.pushing t ≠ some .set := by
      intro t ht
      simpa [hsh] using hf.2 t ht
    simp [NoFatalSet, OpenQueue, destroyNext, hd, hf.1, hset]
  | joined => exact absurd hd hne

variable [DecidableEq T]

theorem DtorInv.beginPush {s : State F T} (h : DtorInv s) {t : Thread T} {fn : Option F}
    (henv : ExternalBefore s (.beginPush t fn)) (hmay : t = .worker → s.worker.mayPush) :
    DtorInv { s with pushing := Function.update s.pushing t (some (.emplace fn)) } :=
  { h with
    pushing := by
      intro hw
      by_cases hwt : Thread.worker = t
      · exact hmay hwt.symm
      · exact h.pushing (by simpa [hwt] using hw)
    external := by
      intro hs u
      by_cases hut : Thread.external u = t
      · subst t
        exact absurd henv hs
      · simpa [hut] using h.external hs u }

theorem DtorInv.push {s : State F T} (h : DtorInv s) {t : Thread T} (he : s.pushing t ≠ none) :
    DtorInv (pushNext s t) := by
  have hw : s.worker ≠ .exited := fun hx => he (h.not_pushing hx t)
  constructor
  · simpa using h.live
  · intro hp
    rw [(pushNext_frame s t).1]
    by_cases hwt : Thread.worker = t
    · exact h.pushing (hwt ▸ he)
    · exact h.pushing (by rwa [pushNext_pushing_of_ne s hwt] at hp)
  · intro hs u
    have hu := h.external (by simpa using hs) u
    have hut : Thread.external u ≠ t := by
      intro hut
      exact he (hut ▸ hu)
    rwa [pushNext_pushing_of_ne s hut]
  · exact fun hx => absurd (by simpa using hx) hw
  · simpa using h.joined

/-- Whether a statement of `push` makes or commits to a fatal `Alarm::Set` is decided at its
`test_and_set`. -/
theorem noFatalSet_push {s : State F T} (hf : NoFatalSet s) {t : Thread T}
    (he : s.pushing t ≠ none) : NoFatalSet (pushNext s t) ↔ OpenQueue s (.push t) := by
  have hmine : NoFatalSet (pushNext s t) ↔ (pushNext s t).fault = none ∧
      ((pushNext s t).pushing t = some .set → s.shutdown = false) := by
    unfold NoFatalSet
    rw [(pushNext_frame s t).2.2]
    refine and_congr_right fun _ => ⟨fun hall => hall t, fun hall u hu => ?_⟩
    by_cases hut : u = t
    · exact hall (hut ▸ hu)
    · exact hf.2 u (by rwa [pushNext_pushing_of_ne s hut] at hu)
  rw [hmine]
  cases hp : s.pushing t with
  | none => exact absurd hp he
  | some pc =>
    cases pc with
    | emplace fn => simp [OpenQueue, pushNext, hp, hf.1]
    | testAndSet => cases hset : s.alarmSet <;> simp [OpenQueue, pushNext, hp, hf.1, hset]
    | set => simp [OpenQueue, pushNext, hp, hf.1, hf.2 t hp]

variable [DecidableEq F]

theorem dtorInv_step {s s' : State F T} {a : Action F T} (h : DtorInv s)
    (henv : ExternalBefore s a) (hs : step s a = some s') : DtorInv s' := by
  obtain ⟨⟨-, he⟩, rfl⟩ := stepOf_eq_some.mp hs
  cases a with
  | beginPush t fn =>
    refine h.beginPush henv fun hw => ?_
    subst t
    exact he.2
  | push t => exact h.push he
  | nextAlarm =>
    have hmove := h.move (p := .clear)
      (fun hp => by simpa [he.1, WorkerPc.mayPush] using h.pushing hp) (by simp [he.1]) (by simp)
    exact { hmove with
      exited := fun hx => by simp [next] at hx }
  | nextEvent =>
    have hw : s.worker = .next := he
    exact h.move (fun _ => by simp [WorkerPc.mayPush]) (by simp [hw]) (by simp)
  | endEvent => exact h.move (absurd he.2) (by simp [he.1]) (by simp)
  | handleEvent => exact h.handleEvent he.1 he.2
  | exit => exact h.exit he.1 he.2.1 he.2.2
  | destroy => exact h.destroy henv he.2

theorem noFatalSet_step {s s' : State F T} {a : Action F T} (h : DtorInv s) (hf : NoFatalSet s)
    (hs : step s a = some s') : NoFatalSet s' ↔ OpenQueue s a := by
  obtain ⟨⟨-, he⟩, rfl⟩ := stepOf_eq_some.mp hs
  cases a with
  | beginPush t fn =>
    refine iff_of_true ⟨hf.1, fun u hu => ?_⟩ trivial
    by_cases hut : u = t
    · subst u
      simp [next] at hu
    · exact hf.2 u (by simpa [next, hut] using hu)
  | push t => exact noFatalSet_push hf he
  | handleEvent => exact iff_of_true (by simpa [NoFatalSet, next] using hf) trivial
  | destroy => exact noFatalSet_destroy h hf he.1
  | _ => exact iff_of_true hf trivial

/-- No fatal `Alarm::Set`, and when the destructor's `join` has returned the tasks run are
exactly the non-empty ones pushed, each as often as pushed. -/
def DtorSafe (s : State F T) : Prop :=
  NoFatalSet s ∧ (s.dtor = .joined → s.ran.Perm s.pushed.reduceOption)

/-- The destructor is safe on a schedule exactly when no push wins the flag of a queue that
is shut down, or is shut down before the push has set the alarm. -/
theorem destroy_safe_iff {as : List (Action F T)}
    (henv : Guarded step ExternalBefore (.init : State F T) as) :
    Always step DtorSafe (.init : State F T) as ↔
      Guarded step OpenQueue (.init : State F T) as := by
  have hinv : Always step DtorInv (.init : State F T) as :=
    always_of_step dtorInv_init (fun s a s' => dtorInv_step) henv
  have hdone := always_of_run (fun _ (s : State F T) => ran_of_quiescent) as
  have hset : Always step NoFatalSet (.init : State F T) as ↔
      Guarded step OpenQueue (.init : State F T) as := by
    exact always_iff_guarded dtorInv_init ⟨rfl, fun t h => by simp [State.init] at h⟩
      (fun s a s' h _ => dtorInv_step h) (fun s a s' h hf _ => noFatalSet_step h hf) henv
  constructor
  · intro h
    exact hset.mp (h.mono fun s hs => hs.1)
  · intro h
    refine ((hset.mpr h).and (hinv.and hdone)).mono ?_
    intro s hs
    obtain ⟨hf, hi, hran⟩ := hs
    exact ⟨hf, fun hj => (hran (hi.quiescent hj)).2⟩

/-- A task pushed before the destructor, run after `Shutdown`, pushes another. -/
def nestedAfterShutdown : List (Action Nat Unit) :=
  [.beginPush (.external ()) (some 7), .push (.external ()), .push (.external ()),
    .push (.external ()), .destroy, .nextAlarm, .handleEvent, .handleEvent,
    .beginPush .worker (some 8), .push .worker, .push .worker, .push .worker]

theorem nestedAfterShutdown_fatal : Guarded step ExternalBefore .init nestedAfterShutdown ∧
    ∃ s, run step .init nestedAfterShutdown = some s ∧ s.fault = some .setAfterShutdown ∧
      ¬DtorSafe s := by
  refine ⟨by decide, _, rfl, rfl, fun h => ?_⟩
  exact absurd h.1.1 (by decide)

/-- A task and the one it pushes are taken before `Shutdown`; the alarm the nested push set
is taken after. -/
def nestedThenDestroy : List (Action Nat Unit) := nestedPush.dropLast ++
  [.destroy, .handleEvent, .exit, .destroy]

theorem nestedThenDestroy_safe : ∃ s, run step .init nestedThenDestroy = some s ∧
    s.dtor = .joined ∧ s.ran = [7, 8] ∧ s.ran.Perm s.pushed.reduceOption := by
  have henv : Guarded step ExternalBefore .init nestedThenDestroy := by decide
  have hopen : Guarded step OpenQueue .init nestedThenDestroy := by decide
  have hr : run step .init nestedThenDestroy = some _ := rfl
  exact ⟨_, hr, rfl, rfl, (((destroy_safe_iff henv).mpr hopen).last hr).2 rfl⟩

end AsyncppGrpc.ClientCq
