import AsyncppGrpc.Server
import AsyncppGrpc.Library.WakeupFlag
import Mathlib.Data.Fintype.Basic

/-! `server::push` and `server::handle_event` refine the wake-up protocol: the token is
free exactly while `m_dispatch_need_alarm` is true. -/
namespace AsyncppGrpc.Server
open Run Update
variable {F T : Type*} {n : Nat}

/-- Between `emplace` and `exchange(false)`. -/
def announces : Option (PushPc F) → Bool
  | some (.exchange _) => true
  | _ => false

/-- Between a successful `exchange(false)` and `Alarm::Set`. -/
def claims : Option (PushPc F) → Bool
  | some (.set _) => true
  | _ => false

/-- In `handle_event` before `store(true)`. -/
def holds : WorkerPc F → Bool
  | .pop .first | .call .first _ | .store => true
  | _ => false

/-- In `handle_event` after `store(true)`. -/
def drains : WorkerPc F → Bool
  | .pop .second | .call .second _ => true
  | _ => false

def runs : WorkerPc F → Option (Option F)
  | .call _ cb => some (some cb)
  | _ => none

/-- The dispatcher's state as a state of the protocol. -/
def view (s : State F n T) : Wakeup.Flagged (Thread n T) (Fin n) (Option F) where
  queue := s.dispatchQueue
  flag := s.dispatchNeedAlarm
  announcing := announces ∘ s.pushing
  claiming := claims ∘ s.pushing
  signals := s.alarms.length
  holding := holds ∘ s.worker
  draining := drains ∘ s.worker
  running := runs ∘ s.worker
  put := s.pushed
  taken := s.popped
  done := s.finished

theorem view_init : view (.init : State F n T) = .init := rfl

theorem Quiescent.quiet {s : State F n T} (h : Quiescent s) : (view s).Quiet := by
  obtain ⟨hp, hw, hal⟩ := h
  have hidle : ∀ w, holds (s.worker w) = false ∧ drains (s.worker w) = false := by
    intro w
    have hin := hw w
    cases hpc : s.worker w <;> simp_all [WorkerPc.inHandleEvent, holds, drains]
  constructor
  · simp [view, hp, announces]
  · simp [view, hp, claims]
  · simp [view, hal]
  · simp [view, hidle]
  · simp [view, hidle]

/-- Moving a worker between control points with the same views is invisible. -/
theorem view_move {s : State F n T} {w : Fin n} {p : WorkerPc F}
    (hh : holds p = holds (s.worker w)) (hd : drains p = drains (s.worker w))
    (hr : runs p = runs (s.worker w)) :
    view { s with worker := Function.update s.worker w p } = view s := by
  simp [view, view_update hh, view_update hd, view_update hr]

theorem view_stop (s : State F n T) : view (stopNext s) = view s := by
  unfold stopNext
  repeat' split
  all_goals rfl

variable [DecidableEq T]

/-- The protocol actions one statement of `push` stands for. -/
def pushProtocol (s : State F n T) (t : Thread n T) :
    List (Wakeup.Action (Thread n T) (Fin n) (Option F)) :=
  match s.pushing t with
  | some (.emplace fn _) => [.put t fn]
  | some (.exchange _) => if s.dispatchNeedAlarm then [.claim t] else [.skip t]
  | some (.set k) => if s.cqs = 0 ∨ s.shutdown (k % s.cqs) then [] else [.signal t]
  | none => []

/-- The protocol actions one statement of `handle_event` stands for; an empty function is
taken and finished at once. -/
def handleEventProtocol (s : State F n T) (w : Fin n) :
    List (Wakeup.Action (Thread n T) (Fin n) (Option F)) :=
  match s.worker w, s.dispatchQueue with
  | .pop .first, [] => []
  | .pop .second, [] => [.leave w]
  | .pop _, none :: _ => [.take w, .finish w]
  | .pop _, some _ :: _ => [.take w]
  | .call _ _, _ => [.finish w]
  | .store, _ => [.release w]
  | _, _ => []

def protocol (s : State F n T) : Action F n T →
    List (Wakeup.Action (Thread n T) (Fin n) (Option F))
  | .push t => pushProtocol s t
  | .nextAlarm w => [.wake w]
  | .handleEvent w => handleEventProtocol s w
  | _ => []

theorem view_push {s : State F n T} {t : Thread n T} (he : s.pushing t ≠ none) :
    run Wakeup.Flagged.step (view s) (pushProtocol s t) = some (view (pushNext s t)) := by
  cases hp : s.pushing t with
  | none => exact absurd hp he
  | some pc =>
    cases pc with
    | emplace fn k =>
      have hview : view (pushNext s t) = (view s).next (.put t fn) := by
        simp [view, pushNext, hp, Wakeup.Flagged.next, Function.comp_update, announces, claims]
      rw [hview, pushProtocol, hp]
      exact run_single (by simp [Wakeup.Flagged.Enabled, view, hp, announces])
    | exchange k =>
      cases hf : s.dispatchNeedAlarm with
      | true =>
        have hview : view (pushNext s t) = (view s).next (.claim t) := by
          simp [view, pushNext, hp, hf, Wakeup.Flagged.next, Function.comp_update, announces,
            claims]
        rw [hview, pushProtocol, hp, hf]
        exact run_single (by simp [Wakeup.Flagged.Enabled, view, hp, hf, announces])
      | false =>
        have hview : view (pushNext s t) = (view s).next (.skip t) := by
          simp [view, pushNext, hp, hf, Wakeup.Flagged.next, Function.comp_update, announces,
            claims]
        rw [hview, pushProtocol, hp, hf]
        exact run_single (by simp [Wakeup.Flagged.Enabled, view, hp, hf, announces])
    | set k =>
      by_cases hk : s.cqs = 0
      · simp [pushProtocol, pushNext, hp, hk, view]
      · cases hs : s.shutdown (k % s.cqs) with
        | true => simp [pushProtocol, pushNext, hp, hk, hs, view]
        | false =>
          have hview : view (pushNext s t) = (view s).next (.signal t) := by
            simp [view, pushNext, hp, hk, hs, Wakeup.Flagged.next, Function.comp_update, announces,
              claims]
          simp only [hview, pushProtocol, hp, hk, hs, Bool.false_eq_true, or_self, if_false]
          exact run_single (by simp [Wakeup.Flagged.Enabled, view, hp, claims])

theorem view_handleEvent {s : State F n T} {w : Fin n} (he : (s.worker w).inHandleEvent) :
    run Wakeup.Flagged.step (view s) (handleEventProtocol s w) =
      some (view (handleEventNext s w)) := by
  cases hw : s.worker w with
  | pop loop =>
    have hmine : holds (s.worker w) = true ∨ drains (s.worker w) = true := by
      cases loop <;> simp [hw, holds, drains]
    cases hq : s.dispatchQueue with
    | nil =>
      cases loop with
      | first =>
        have hnext : handleEventNext s w =
            { s with worker := Function.update s.worker w .store } := by
          simp only [handleEventNext, hw, hq]
        rw [hnext, view_move (by simp [hw, holds]) (by simp [hw, drains]) (by simp [hw, runs])]
        simp [handleEventProtocol, hw, hq]
      | second =>
        have hview : view (handleEventNext s w) = (view s).next (.leave w) := by
          simp [view, handleEventNext, hw, hq, Wakeup.Flagged.next, Function.comp_update, holds,
            drains, runs]
        simp only [hview, handleEventProtocol, hw, hq]
        exact run_single (by simp [Wakeup.Flagged.Enabled, view, hw, hq, drains, runs])
    | cons cb q =>
      have htake : (view s).Enabled (.take w) := by
        refine ⟨hmine, ?_, by simp [view, hq]⟩
        simp [view, hw, runs]
      cases cb with
      | none =>
        have hview : view (handleEventNext s w) =
            ((view s).next (.take w)).next (.finish w) := by
          simp [view, handleEventNext, hw, hq, Wakeup.Flagged.next, runs]
        have hfin : ((view s).next (.take w)).Enabled (.finish w) := by
          simp [Wakeup.Flagged.Enabled, Wakeup.Flagged.next, view, hq]
        simp only [hview, handleEventProtocol, hw, hq]
        rw [← List.singleton_append, run_append, Wakeup.Flagged.step, run_single htake]
        exact run_single hfin
      | some f =>
        have hview : view (handleEventNext s w) = (view s).next (.take w) := by
          cases loop <;> simp [view, handleEventNext, hw, hq, Wakeup.Flagged.next,
            Function.comp_update, holds, drains, runs]
        simp only [hview, handleEventProtocol, hw, hq]
        exact run_single htake
  | call loop f =>
    have hview : view (handleEventNext s w) = (view s).next (.finish w) := by
      cases loop <;> simp [view, handleEventNext, hw, Wakeup.Flagged.next, Function.comp_update,
        holds, drains, runs]
    simp only [hview, handleEventProtocol, hw]
    exact run_single (by simp [Wakeup.Flagged.Enabled, view, hw, runs])
  | store =>
    have hview : view (handleEventNext s w) = (view s).next (.release w) := by
      simp [view, handleEventNext, hw, Wakeup.Flagged.next, Function.comp_update, holds, drains,
        runs]
    simp only [hview, handleEventProtocol, hw]
    exact run_single (by simp [Wakeup.Flagged.Enabled, view, hw, holds, runs])
  | _ => simp [hw, WorkerPc.inHandleEvent] at he

theorem view_beginPush {s : State F n T} {t : Thread n T} {fn : Option F} {k : Nat}
    (hp : s.pushing t = none) :
    view { s with pushing := Function.update s.pushing t (some (.emplace fn k)) } = view s := by
  simp [view, Function.comp_update, hp, announces, claims]

theorem view_nextAlarm {s : State F n T} {w : Fin n} (hw : s.worker w = .next)
    (hal : w.val ∈ s.alarms) :
    view { s with alarms := s.alarms.erase w, worker := Function.update s.worker w (.pop .first) } =
      (view s).next (.wake w) := by
  simp [view, Wakeup.Flagged.next, Function.comp_update, List.length_erase_of_mem hal, hw, holds,
    drains, runs]

variable [DecidableEq F]

/-- Every statement of the dispatcher does what the protocol actions it stands for do. -/
theorem view_step {s s' : State F n T} {a : Action F n T} (hs : step s a = some s') :
    run Wakeup.Flagged.step (view s) (protocol s a) = some (view s') := by
  obtain ⟨⟨-, he⟩, rfl⟩ := stepOf_eq_some.mp hs
  cases a with
  | beginPush t fn k =>
    have hp : s.pushing t = none := by
      cases t with
      | worker w => exact he.1
      | external t => exact he
    simp [protocol, next, view_beginPush hp]
  | push t => exact view_push he
  | nextAlarm w =>
    simp only [protocol, next, view_nextAlarm he.1 he.2]
    refine run_single ⟨?_, by simp [view, he.1, drains]⟩
    simpa [view] using List.ne_nil_of_mem he.2
  | nextEvent w =>
    have hw : s.worker w = .next := he
    simp only [protocol, next, run_nil]
    rw [view_move (by simp [hw, holds]) (by simp [hw, drains]) (by simp [hw, runs])]
  | handleEvent w => exact view_handleEvent he.1
  | stop => simp [protocol, next, view_stop]
  | _ =>
    simp only [protocol, next, run_nil]
    rw [view_move (by simp [he.1, holds]) (by simp [he.1, drains]) (by simp [he.1, runs])]

/-- Every reachable state of the dispatcher is a reachable state of the protocol. -/
theorem exists_refines {s : State F n T} {as : List (Action F n T)}
    (hr : run step .init as = some s) : ∃ a, Wakeup.Inv a ∧ (view s).Refines a := by
  have hmatch : ∀ (s : State F n T) v a s', view s = v → step s a = some s' →
      ∃ v', run Wakeup.Flagged.step v (protocol s a) = some v' ∧ view s' = v' := by
    intro s v a s' hv hs
    exact ⟨view s', hv ▸ view_step hs, rfl⟩
  obtain ⟨bs, v, hbs, hv⟩ := run_refines hmatch view_init hr
  exact Wakeup.Flagged.exists_refines (hv ▸ hbs)

/-- Once everything is quiet the functions run are exactly the non-empty ones pushed. -/
theorem ran_of_quiescent {s : State F n T} {as : List (Action F n T)}
    (hr : run step .init as = some s) (hq : Quiescent s) :
    s.dispatchQueue = [] ∧ s.ran.Perm s.pushed.reduceOption := by
  obtain ⟨a, hi, h⟩ := exists_refines hr
  obtain ⟨hempty, hdone⟩ := h.quiet hi hq.quiet
  exact ⟨hempty, hdone.filterMap id⟩

/-- No lost wake-up in the server's dispatcher, for any number of workers and pushing
threads and any schedule. An alarm is set only when none is outstanding; every pushed
function is either still queued or popped once; once everything is quiet the queue is empty
and the functions run are exactly the non-empty ones pushed, each as often as pushed. -/
theorem dispatch_no_lost_wakeup {s : State F n T} {as : List (Action F n T)}
    (hr : run step .init as = some s) :
    (∀ t k, s.pushing t = some (.set k) → s.alarms = []) ∧
    s.pushed = s.popped ++ s.dispatchQueue ∧
    (Quiescent s → s.dispatchQueue = [] ∧ s.ran.Perm s.pushed.reduceOption) := by
  obtain ⟨a, hi, h⟩ := exists_refines hr
  refine ⟨fun t k ht => ?_, ?_, ran_of_quiescent hr⟩
  · have hzero := h.signals_eq_zero (t := t) (by simp [view, ht, claims])
    exact List.length_eq_zero_iff.mp hzero
  · have hsplit := hi.split
    rwa [Wakeup.Split, h.put, h.taken, h.queue] at hsplit

/-- One push to the second of two queues, and its `handle_event`. -/
def onePush : List (Action Nat 2 Unit) :=
  [.online 1, .beginPush (.external ()) (some 7) 1, .push (.external ()), .push (.external ()),
    .push (.external ()), .nextAlarm 1, .handleEvent 1, .handleEvent 1, .handleEvent 1,
    .handleEvent 1, .handleEvent 1]

theorem onePush_no_lost_wakeup : ∃ s, run step .init onePush = some s ∧ s.ran = [7] ∧
    s.dispatchQueue = [] ∧ s.ran.Perm s.pushed.reduceOption := by
  have hr : run step .init onePush = some _ := rfl
  refine ⟨_, hr, rfl, (dispatch_no_lost_wakeup hr).2.2 ⟨?_, by decide, rfl⟩⟩
  intro t
  cases t with
  | worker w => revert w; decide
  | external t => rfl

end AsyncppGrpc.Server
