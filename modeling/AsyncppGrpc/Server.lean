import AsyncppGrpc.Library.Run
import Mathlib.Data.Fintype.Sum
import Mathlib.Data.List.ReduceOption
import Mathlib.Tactic.DeriveFintype

/-! The dispatcher of `server`: `push`, `handle_event`, the worker loop and `stop`, one
atomic statement at a time. `n` is the thread count given to the constructor and `T` the
type of the threads that are not workers. An empty `std::function` is `none`. -/
namespace AsyncppGrpc.Server
open Run
variable {F T : Type*} {n : Nat}

inductive Thread (n : Nat) (T : Type*) where
  | worker (w : Fin n)
  | external (t : T)
  deriving DecidableEq, Fintype

/-- Where a thread is inside `push(fn, cq_idx)`; at `set` its `exchange(false)` has
returned true. -/
inductive PushPc (F : Type*) where
  | emplace (fn : Option F) (cqIdx : Nat)
  | exchange (cqIdx : Nat)
  | set (cqIdx : Nat)
  deriving DecidableEq

/-- The two drain loops of `handle_event`, before and after `store(true)`. -/
inductive Loop where
  | first
  | second
  deriving DecidableEq

/-- Where a worker is: running the initializers, blocked in `Next`, inside the handler of
another tag, at one of the statements of `handle_event`, or past its loop. -/
inductive WorkerPc (F : Type*) where
  | starting
  | next
  | event
  | pop (loop : Loop)
  | call (loop : Loop) (cb : F)
  | store
  | exited
  deriving DecidableEq

inductive StopPc where
  | running
  | shutdownServer
  | shutdownCq (k : Nat)
  | join (k : Nat)
  | clear
  | stopped
  deriving DecidableEq

/-- What aborts the process. -/
inductive Fault where
  | divideByZero
  | setAfterShutdown (k : Nat)
  deriving DecidableEq

/-- `cqs` is `m_cqs.size()`, `alarms` the queues on which the dispatch alarm is set and
its event not yet taken. The last three fields are histories: what was emplaced, what was
popped, and the popped functions whose callback has returned or that were empty. -/
structure State (F : Type*) (n : Nat) (T : Type*) where
  cqs : Nat
  shutdown : Nat → Bool
  dispatchQueue : List (Option F)
  dispatchNeedAlarm : Bool
  alarms : List Nat
  worker : Fin n → WorkerPc F
  pushing : Thread n T → Option (PushPc F)
  stop : StopPc
  fault : Option Fault
  pushed : List (Option F)
  popped : List (Option F)
  finished : List (Option F)

/-- The callbacks that have run to completion. -/
def State.ran (s : State F n T) : List F := s.finished.reduceOption

/-- The state in which the constructor returns. -/
def State.init : State F n T where
  cqs := n
  shutdown := fun _ => false
  dispatchQueue := []
  dispatchNeedAlarm := true
  alarms := []
  worker := fun _ => .starting
  pushing := fun _ => none
  stop := .running
  fault := none
  pushed := []
  popped := []
  finished := []

inductive Action (F : Type*) (n : Nat) (T : Type*) where
  | beginPush (t : Thread n T) (fn : Option F) (cqIdx : Nat)
  | push (t : Thread n T)
  | online (w : Fin n)
  | nextAlarm (w : Fin n)
  | nextEvent (w : Fin n)
  | endEvent (w : Fin n)
  | handleEvent (w : Fin n)
  | exit (w : Fin n)
  | stop

/-- Code that may call `push` runs on the worker: an initializer, another handler or a
callback. -/
def WorkerPc.mayPush : WorkerPc F → Bool
  | .starting | .event | .call _ _ => true
  | _ => false

def WorkerPc.inHandleEvent : WorkerPc F → Bool
  | .pop _ | .call _ _ | .store => true
  | _ => false

/-- The next statement of `handle_event` on worker `w`; at `call` the callback returns. -/
def handleEventNext (s : State F n T) (w : Fin n) : State F n T :=
  match s.worker w with
  | .pop loop => match s.dispatchQueue with
    | [] => { s with
        worker := Function.update s.worker w (match loop with
          | .first => .store
          | .second => .next) }
    | none :: q => { s with
        dispatchQueue := q
        popped := s.popped ++ [none]
        finished := s.finished ++ [none] }
    | some cb :: q => { s with
        dispatchQueue := q
        popped := s.popped ++ [some cb]
        worker := Function.update s.worker w (.call loop cb) }
  | .call loop cb => { s with
      finished := s.finished ++ [some cb]
      worker := Function.update s.worker w (.pop loop) }
  | .store => { s with
      dispatchNeedAlarm := true
      worker := Function.update s.worker w (.pop .second) }
  | _ => s

/-- The next statement of `stop`: the server's `Shutdown`, one `Shutdown` for each queue,
one `join` for each worker, and the clean-up. -/
def stopNext (s : State F n T) : State F n T :=
  match s.stop with
  | .running => { s with stop := .shutdownServer }
  | .shutdownServer => { s with stop := .shutdownCq 0 }
  | .shutdownCq k =>
    if k < s.cqs then { s with
      shutdown := Function.update s.shutdown k true
      stop := .shutdownCq (k + 1) }
    else { s with stop := .join 0 }
  | .join k => if k < n then { s with stop := .join (k + 1) } else { s with stop := .clear }
  | .clear => { s with cqs := 0, stop := .stopped }
  | .stopped => s

/-- No push and no `handle_event` is in progress and no alarm is outstanding. -/
def Quiescent (s : State F n T) : Prop :=
  (∀ t, s.pushing t = none) ∧ (∀ w, (s.worker w).inHandleEvent = false) ∧ s.alarms = []

section
variable (s : State F n T)

@[simp] theorem handleEventNext_frame (w : Fin n) :
    (handleEventNext s w).pushing = s.pushing ∧ (handleEventNext s w).stop = s.stop ∧
    (handleEventNext s w).cqs = s.cqs ∧ (handleEventNext s w).shutdown = s.shutdown ∧
    (handleEventNext s w).alarms = s.alarms ∧ (handleEventNext s w).fault = s.fault := by
  unfold handleEventNext
  repeat' split
  all_goals simp

theorem handleEventNext_worker_of_ne {w v : Fin n} (h : v ≠ w) :
    (handleEventNext s w).worker v = s.worker v := by
  unfold handleEventNext
  repeat' split
  all_goals simp [h]

theorem handleEventNext_worker (w : Fin n) : (handleEventNext s w).worker =
    Function.update s.worker w ((handleEventNext s w).worker w) := by
  funext v
  by_cases hvw : v = w
  · subst v
    simp
  · simp [hvw, handleEventNext_worker_of_ne s hvw]

/-- `handle_event` ends in the worker loop, never past it. -/
theorem handleEventNext_not_exited {w : Fin n} (h : (s.worker w).inHandleEvent) :
    (handleEventNext s w).worker w ≠ .exited := by
  cases hw : s.worker w with
  | pop loop =>
    cases hq : s.dispatchQueue with
    | nil => cases loop <;> simp [handleEventNext, hw, hq]
    | cons cb q => cases cb <;> simp [handleEventNext, hw, hq]
  | call loop cb => simp [handleEventNext, hw]
  | store => simp [handleEventNext, hw]
  | _ => simp [hw, WorkerPc.inHandleEvent] at h

@[simp] theorem stopNext_frame :
    (stopNext s).worker = s.worker ∧ (stopNext s).pushing = s.pushing ∧
    (stopNext s).alarms = s.alarms ∧ (stopNext s).fault = s.fault := by
  unfold stopNext
  repeat' split
  all_goals simp

theorem stopNext_shutdown (j : Nat) : (stopNext s).shutdown j = true ↔
    s.shutdown j = true ∨ s.stop = .shutdownCq j ∧ j < s.cqs := by
  cases hs : s.stop with
  | shutdownCq k =>
    by_cases hk : k < s.cqs
    · by_cases hj : j = k
      · simp [stopNext, hs, hk, hj]
      · simp [stopNext, hs, hk, hj, Ne.symm hj]
    · have hj : k = j → ¬j < s.cqs := fun he => he ▸ hk
      simp only [stopNext, hs, hk, if_false, StopPc.shutdownCq.injEq]
      exact ⟨.inl, fun h => h.elim id fun h => absurd h.2 (hj h.1)⟩
  | join k => by_cases hk : k < n <;> simp [stopNext, hs, hk]
  | _ => simp [stopNext, hs]
end

variable [DecidableEq T]

/-- The next statement of `push` on thread `t`. -/
def pushNext (s : State F n T) (t : Thread n T) : State F n T :=
  match s.pushing t with
  | none => s
  | some (.emplace fn cqIdx) => { s with
      dispatchQueue := s.dispatchQueue ++ [fn]
      pushed := s.pushed ++ [fn]
      pushing := Function.update s.pushing t (some (.exchange cqIdx)) }
  | some (.exchange cqIdx) => { s with
      dispatchNeedAlarm := false
      pushing := Function.update s.pushing t
        (if s.dispatchNeedAlarm then some (.set cqIdx) else none) }
  | some (.set cqIdx) =>
    if s.cqs = 0 then { s with fault := some .divideByZero }
    else if s.shutdown (cqIdx % s.cqs) then
      { s with fault := some (.setAfterShutdown (cqIdx % s.cqs)) }
    else { s with
      alarms := s.alarms ++ [cqIdx % s.cqs]
      pushing := Function.update s.pushing t none }

@[simp] theorem pushNext_frame (s : State F n T) (t : Thread n T) :
    (pushNext s t).worker = s.worker ∧ (pushNext s t).stop = s.stop ∧
    (pushNext s t).cqs = s.cqs ∧ (pushNext s t).shutdown = s.shutdown := by
  unfold pushNext
  repeat' split
  all_goals simp

theorem pushNext_pushing_of_ne (s : State F n T) {t u : Thread n T} (h : u ≠ t) :
    (pushNext s t).pushing u = s.pushing u := by
  unfold pushNext
  repeat' split
  all_goals simp [h]

/-- The only alarm `push` adds is on the open queue its index selects. -/
theorem mem_pushNext_alarms {s : State F n T} {t : Thread n T} {j : Nat}
    (h : j ∈ (pushNext s t).alarms) : j ∈ s.alarms ∨ ∃ k, s.pushing t = some (.set k) ∧
      s.cqs ≠ 0 ∧ s.shutdown (k % s.cqs) = false ∧ j = k % s.cqs := by
  cases hp : s.pushing t with
  | none => exact .inl (by simpa [pushNext, hp] using h)
  | some pc =>
    cases pc with
    | emplace fn k => exact .inl (by simpa [pushNext, hp] using h)
    | exchange k => exact .inl (by simpa [pushNext, hp] using h)
    | set k =>
      by_cases hk : s.cqs = 0
      · exact .inl (by simpa [pushNext, hp, hk] using h)
      · cases hs : s.shutdown (k % s.cqs) with
        | true => exact .inl (by simpa [pushNext, hp, hk, hs] using h)
        | false =>
          have hmem : j ∈ s.alarms ∨ j = k % s.cqs := by simpa [pushNext, hp, hk, hs] using h
          exact hmem.imp_right fun hj => ⟨k, rfl, hk, hs, hj⟩

variable [DecidableEq F]

/-- `Next` returns false only on a queue that is shut down and has no event left; `join`
waits for its worker. -/
def Enabled (s : State F n T) (a : Action F n T) : Prop :=
  s.fault = none ∧ match a with
  | .beginPush (.worker w) _ _ => s.pushing (.worker w) = none ∧ (s.worker w).mayPush
  | .beginPush (.external t) _ _ => s.pushing (.external t) = none
  | .push t => s.pushing t ≠ none
  | .online w => s.worker w = .starting ∧ s.pushing (.worker w) = none
  | .nextAlarm w => s.worker w = .next ∧ w.val ∈ s.alarms
  | .nextEvent w => s.worker w = .next
  | .endEvent w => s.worker w = .event ∧ s.pushing (.worker w) = none
  | .handleEvent w => (s.worker w).inHandleEvent ∧ s.pushing (.worker w) = none
  | .exit w => s.worker w = .next ∧ s.shutdown w ∧ w.val ∉ s.alarms
  | .stop => s.stop ≠ .stopped ∧ ∀ w : Fin n, s.stop = .join w → s.worker w = .exited

instance (s : State F n T) (a : Action F n T) : Decidable (Enabled s a) := by
  unfold Enabled
  split <;> infer_instance

def next (s : State F n T) : Action F n T → State F n T
  | .beginPush t fn cqIdx =>
    { s with pushing := Function.update s.pushing t (some (.emplace fn cqIdx)) }
  | .push t => pushNext s t
  | .online w => { s with worker := Function.update s.worker w .next }
  | .nextAlarm w => { s with
      alarms := s.alarms.erase w
      worker := Function.update s.worker w (.pop .first) }
  | .nextEvent w => { s with worker := Function.update s.worker w .event }
  | .endEvent w => { s with worker := Function.update s.worker w .next }
  | .handleEvent w => handleEventNext s w
  | .exit w => { s with worker := Function.update s.worker w .exited }
  | .stop => stopNext s

def step : State F n T → Action F n T → Option (State F n T) := stepOf Enabled next

end AsyncppGrpc.Server
