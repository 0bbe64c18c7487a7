import AsyncppGrpc.ClientCq
import AsyncppGrpc.Library.WakeupFlag

/-! `client_cq::push` and `client_cq::handle_event` refine the wake-up protocol with one
worker: the token is free exactly while `m_alarm_set` is clear. -/
namespace AsyncppGrpc.ClientCq
open Run
variable {F T : Type*}

/-- Between `emplace` and `test_and_set`. -/
def announces : Option (PushPc F) → Bool
  | some .testAndSet => true
  | _ => false

/-- Between a successful `test_and_set` and `Alarm::Set`. -/
def claims : Option (PushPc F) → Bool
  | some .set => true
  | _ => false

/-- In `handle_event` before `clear`. -/
def holds : WorkerPc F → Bool
  | .clear => true
  | _ => false

/-- In `handle_event` after `clear`. -/
def drains : WorkerPc F → Bool
  | .pop | .call _ => true
  | _ => false

def runs : WorkerPc F → Option (Option F)
  | .call task => some (some task)
  | _ => none

/-- The client queue's state as a state of the protocol. -/
def view (s : State F T) : Wakeup.Flagged (Thread T) Unit (Option F) where
  queue := s.dispatched
  flag := !s.alarmSet
  announcing := announces ∘ s.pushing
  claiming := claims ∘ s.pushing
  signals := s.alarms
  holding := fun _ => holds s.worker
  draining := fun _ => drains s.worker
  running := fun _ => runs s.worker
  put := s.pushed
  taken := s.popped
  done := s.finished

theorem view_init : view (.init : State F T) = .init := rfl

theorem Quiescent.quiet {s : State F T} (h : Quiescent s) : (view s).Quiet := by
  obtain ⟨hp, hw, hal⟩ := h
  have hidle : holds s.worker = false ∧ drains s.worker = false := by
    cases hpc : s.worker <;> simp_all [WorkerPc.inHandleEvent, holds, drains]
  constructor
  · simp [view, hp, announces]
  · simp [view, hp, claims]
  · simp [view, hal]
  · simp [view, hidle]
  · simp [view, hidle]

theorem view_destroy (s : State F T) : view (destroyNext s) = view s := by
  unfold destroyNext
  split <;> rfl

/-- The only worker is the whole of `Unit`. -/
theorem update_worker {β : Type*} (f : Unit → β) (x : β) :
    Function.update f () x = fun _ => x :=
  Function.update_eq_const_of_subsingleton () x f

variable [DecidableEq T]

/-- The protocol actions one statement of `push` stands for. -/
def pushProtocol (s : State F T) (t : Thread T) :
    List (Wakeup.Action (Thread T) Unit (Option F)) :=
  match s.pushing t with
  | some (.emplace fn) => [.put t fn]
  | some .testAndSet => if s.alarmSet then [.skip t] else [.claim t]
  | some .set => if s.shutdown then [] else [.signal t]
  | none => []

/-- The protocol actions one statement of `handle_event` stands for. -/
def handleEventProtocol (s : State F T) : List (Wakeup.Action (Thread T) Unit (Option F)) :=
  match s.worker, s.dispatched with
  | .clear, _ => [.release ()]
  | .pop, [] => [.leave ()]
  | .pop, none :: _ => [.take (), .finish ()]
  | .pop, some _ :: _ => [.take ()]
  | .call _, _ => [.finish ()]
  | _, _ => []

def protocol (s : State F T) : Action F T → List (Wakeup.Action (Thread T) Unit (Option F))
  | .push t => pushProtocol s t
  | .nextAlarm => [.wake ()]
  | .handleEvent => handleEventProtocol s
  | _ => []

theorem view_push {s : State F T} {t : Thread T} (he : s.pushing t ≠ none) :
    run Wakeup.Flagged.step (view s) (pushProtocol s t) = some (view (pushNext s t)) := by
  cases hp : s.pushing t with
  | none => exact absurd hp he
  | some pc =>
    cases pc with
    | emplace fn =>
      have hview : view (pushNext s t) = (view s).next (.put t fn) := by
        simp [view, pushNext, hp, Wakeup.Flagged.next, Function.comp_update, announces, claims]
      rw [hview, pushProtocol, hp]
      exact run_single (by simp [Wakeup.Flagged.Enabled, view, hp, announces])
    | testAndSet =>
      cases hf : s.alarmSet with
      | false =>
        have hview : view (pushNext s t) = (view s).next (.claim t) := by
          simp [view, pushNext, hp, hf, Wakeup.Flagged.next, Function.comp_update, announces,
            claims]
        rw [hview, pushProtocol, hp, hf]
        exact run_single (by simp [Wakeup.Flagged.Enabled, view, hp, hf, announces])
      | true =>
        have hview : view (pushNext s t) = (view s).next (.skip t) := by
          simp [view, pushNext, hp, hf, Wakeup.Flagged.next, Function.comp_update, announces,
            claims]
        rw [hview, pushProtocol, hp, hf]
        exact run_single (by simp [Wakeup.Flagged.Enabled, view, hp, hf, announces])
    | set =>
      cases hs : s.shutdown with
      | true => simp [pushProtocol, pushNext, hp, hs, view]
      | false =>
        have hview : view (pushNext s t) = (view s).next (.signal t) := by
          simp [view, pushNext, hp, hs, Wakeup.Flagged.next, Function.comp_update, announces,
            claims]
        rw [hview, pushProtocol, hp, hs]
        exact run_single (by simp [Wakeup.Flagged.Enabled, view, hp, claims])

theorem view_handleEvent {s : State F T} (he : s.worker.inHandleEvent) :
    run Wakeup.Flagged.step (view s) (handleEventProtocol s) =
      some (view (handleEventNext s)) := by
  cases hw : s.worker with
  | clear =>
    have hview : view (handleEventNext s) = (view s).next (.release ()) := by
      simp [view, handleEventNext, hw, Wakeup.Flagged.next, update_worker, holds,
        drains, runs]
    simp only [hview, handleEventProtocol, hw]
    exact run_single (by simp [Wakeup.Flagged.Enabled, view, hw, holds, runs])
  | pop =>
    cases hq : s.dispatched with
    | nil =>
      have hview : view (handleEventNext s) = (view s).next (.leave ()) := by
        simp [view, handleEventNext, hw, hq, Wakeup.Flagged.next, update_worker, holds,
        drains, runs]
      simp only [hview, handleEventProtocol, hw, hq]
      exact run_single (by simp [Wakeup.Flagged.Enabled, view, hw, hq, drains, runs])
    | cons task q =>
      have htake : (view s).Enabled (.take ()) := by
        simp [Wakeup.Flagged.Enabled, view, hw, hq, drains, runs]
      cases task with
      | none =>
        have hview : view (handleEventNext s) =
            ((view s).next (.take ())).next (.finish ()) := by
          simp [view, handleEventNext, hw, hq, Wakeup.Flagged.next, runs]
        have hfin : ((view s).next (.take ())).Enabled (.finish ()) := by
          simp [Wakeup.Flagged.Enabled, Wakeup.Flagged.next, view, hq]
        simp only [hview, handleEventProtocol, hw, hq]
        rw [← List.singleton_append, run_append, Wakeup.Flagged.step, run_single htake]
        exact run_single hfin
      | some f =>
        have hview : view (handleEventNext s) = (view s).next (.take ()) := by
          simp [view, handleEventNext, hw, hq, Wakeup.Flagged.next, update_worker, holds,
        drains, runs]
        simp only [hview, handleEventProtocol, hw, hq]
        exact run_single htake
  | call f =>
    have hview : view (handleEventNext s) = (view s).next (.finish ()) := by
      simp [view, handleEventNext, hw, Wakeup.Flagged.next, update_worker, holds,
        drains, runs]
    simp only [hview, handleEventProtocol, hw]
    exact run_single (by simp [Wakeup.Flagged.Enabled, view, hw, runs])
  | _ => simp [hw, WorkerPc.inHandleEvent] at he

theorem view_beginPush {s : State F T} {t : Thread T} {fn : Option F}
    (hp : s.pushing t = none) :
    view { s with pushing := Function.update s.pushing t (some (.emplace fn)) } = view s := by
  simp [view, Function.comp_update, hp, announces, claims]

theorem view_nextAlarm {s : State F T} (hw : s.worker = .next) :
    view { s with alarms := s.alarms - 1, worker := .clear } = (view s).next (.wake ()) := by
  simp [view, Wakeup.Flagged.next, update_worker, hw, holds, drains, runs]

variable [DecidableEq F]

/-- Every statement of the client queue does what the protocol actions it stands for do. -/
theorem view_step {s s' : State F T} {a : Action F T} (hs : step s a = some s') :
    run Wakeup.Flagged.step (view s) (protocol s a) = some (view s') := by
  obtain ⟨⟨-, he⟩, rfl⟩ := stepOf_eq_some.mp hs
  cases a with
  | beginPush t fn =>
    have hp : s.pushing t = none := by
      cases t with
      | worker => exact he.1
      | external t => exact he
    simp [protocol, next, view_beginPush hp]
  | push t => exact view_push he
  | nextAlarm =>
    simp only [protocol, next, view_nextAlarm he.1]
    exact run_single ⟨he.2, by simp [view, he.1, drains]⟩
  | nextEvent =>
    have hw : s.worker = .next := he
    simp [protocol, next, view, hw, holds, drains, runs]
  | handleEvent => exact view_handleEvent he.1
  | destroy => simp [protocol, next, view_destroy]
  | _ => simp [protocol, next, view, he.1, holds, drains, runs]

/-- Every reachable state of the client queue is a reachable state of the protocol. -/
theorem exists_refines {s : State F T} {as : List (Action F T)}
    (hr : run step .init as = some s) : ∃ a, Wakeup.Inv a ∧ (view s).Refines a := by
  have hmatch : ∀ (s : State F T) v a s', view s = v → step s a = some s' →
      ∃ v', run Wakeup.Flagged.step v (protocol s a) = some v' ∧ view s' = v' := by
    intro s v a s' hv hs
    exact ⟨view s', hv ▸ view_step hs, rfl⟩
  obtain ⟨bs, v, hbs, hv⟩ := run_refines hmatch view_init hr
  exact Wakeup.Flagged.exists_refines (hv ▸ hbs)

/-- Once everything is quiet the tasks run are exactly the non-empty ones pushed. -/
theorem ran_of_quiescent {s : State F T} {as : List (Action F T)}
    (hr : run step .init as = some s) (hq : Quiescent s) :
    s.dispatched = [] ∧ s.ran.Perm s.pushed.reduceOption := by
  obtain ⟨a, hi, h⟩ := exists_refines hr
  obtain ⟨hempty, hdone⟩ := h.quiet hi hq.quiet
  exact ⟨hempty, hdone.filterMap id⟩

/-- No lost wake-up in the client queue, for any number of pushing threads and any
schedule. -/
theorem push_no_lost_wakeup {s : State F T} {as : List (Action F T)}
    (hr : run step .init as = some s) :
    (∀ t, s.pushing t = some .set → s.alarms = 0) ∧
    s.pushed = s.popped ++ s.dispatched ∧
    (Quiescent s → s.dispatched = [] ∧ s.ran.Perm s.pushed.reduceOption) := by
  obtain ⟨a, hi, h⟩ := exists_refines hr
  refine ⟨fun t ht => ?_, ?_, ran_of_quiescent hr⟩
  · exact h.signals_eq_zero (t := t) (by simp [view, ht, claims])
  · have hsplit := hi.split
    rwa [Wakeup.Split, h.put, h.taken, h.queue] at hsplit

/-- A push from outside whose task pushes another from the worker while the drain loop
runs. -/
def nestedPush : List (Action Nat Unit) :=
  [.beginPush (.external ()) (some 7), .push (.external ()), .push (.external ()),
    .push (.external ()), .nextAlarm, .handleEvent, .handleEvent, .beginPush .worker (some 8),
    .push .worker, .push .worker, .push .worker, .handleEvent, .handleEvent, .handleEvent,
    .handleEvent, .nextAlarm, .handleEvent, .handleEvent]

theorem nestedPush_no_lost_wakeup : ∃ s, run step .init nestedPush = some s ∧ s.ran = [7, 8] ∧
    s.dispatched = [] ∧ s.ran.Perm s.pushed.reduceOption := by
  have hr : run step .init nestedPush = some _ := rfl
  exact ⟨_, hr, rfl, (push_no_lost_wakeup hr).2.2 ⟨by decide, by decide, rfl⟩⟩

end AsyncppGrpc.ClientCq
