import AsyncppGrpc.Library.Run
import Mathlib.Data.Fintype.Sum
import Mathlib.Data.List.ReduceOption
import Mathlib.Tactic.DeriveFintype

/-! `client_cq`: `push`, `handle_event`, the worker loop and the destructor, one atomic
statement at a time. `T` is the type of the threads other than the worker. -/
namespace AsyncppGrpc.ClientCq
open Run
variable {F T : Type*}

inductive Thread (T : Type*) where
  | worker
  | external (t : T)
  deriving DecidableEq, Fintype

/-- Where a thread is inside `push`; at `set` its `test_and_set` has returned false. -/
inductive PushPc (F : Type*) where
  | emplace (fn : Option F)
  | testAndSet
  | set
  deriving DecidableEq

/-- Where the worker is: blocked in `Next`, inside the handler of another tag, at one of the
statements of `handle_event`, or past its loop. -/
inductive WorkerPc (F : Type*) where
  | next
  | event
  | clear
  | pop
  | call (task : F)
  | exited
  deriving DecidableEq

/-- The destructor before `Shutdown`, before `join` returns, and after. -/
inductive DtorPc where
  | live
  | join
  | joined
  deriving DecidableEq

inductive Fault where
  | setAfterShutdown
  deriving DecidableEq

/-- `alarms` counts the events of the alarm that are set and not yet taken. The last three
fields are histories, as for the server. -/
structure State (F T : Type*) where
  dispatched : List (Option F)
  alarmSet : Bool
  alarms : Nat
  shutdown : Bool
  worker : WorkerPc F
  pushing : Thread T → Option (PushPc F)
  dtor : DtorPc
  fault : Option Fault
  pushed : List (Option F)
  popped : List (Option F)
  finished : List (Option F)

/-- The callbacks that have run to completion. -/
def State.ran (s : State F T) : List F := s.finished.reduceOption

def State.init : State F T where
  dispatched := []
  alarmSet := false
  alarms := 0
  shutdown := false
  worker := .next
  pushing := fun _ => none
  dtor := .live
  fault := none
  pushed := []
  popped := []
  finished := []

inductive Action (F T : Type*) where
  | beginPush (t : Thread T) (fn : Option F)
  | push (t : Thread T)
  | nextAlarm
  | nextEvent
  | endEvent
  | handleEvent
  | exit
  | destroy

/-- Code that may call `push` runs on the worker. -/
def WorkerPc.mayPush : WorkerPc F → Bool
  | .event | .call _ => true
  | _ => false

def WorkerPc.inHandleEvent : WorkerPc F → Bool
  | .clear | .pop | .call _ => true
  | _ => false

/-- The next statement of `handle_event`; at `call` the task returns. -/
def handleEventNext (s : State F T) : State F T :=
  match s.worker with
  | .clear => { s with alarmSet := false, worker := .pop }
  | .pop => match s.dispatched with
    | [] => { s with worker := .next }
    | none :: q => { s with
        dispatched := q
        popped := s.popped ++ [none]
        finished := s.finished ++ [none] }
    | some task :: q => { s with
        dispatched := q
        popped := s.popped ++ [some task]
        worker := .call task }
  | .call task => { s with finished := s.finished ++ [some task], worker := .pop }
  | _ => s

/-- The next statement of the destructor: `Shutdown` and `join`. -/
def destroyNext (s : State F T) : State F T :=
  match s.dtor with
  | .live => { s with shutdown := true, dtor := .join }
  | .join => { s with dtor := .joined }
  | .joined => s

/-- No push and no `handle_event` is in progress and no alarm is outstanding. -/
def Quiescent (s : State F T) : Prop :=
  (∀ t, s.pushing t = none) ∧ s.worker.inHandleEvent = false ∧ s.alarms = 0

section
variable (s : State F T)

@[simp] theorem handleEventNext_frame :
    (handleEventNext s).pushing = s.pushing ∧ (handleEventNext s).dtor = s.dtor ∧
    (handleEventNext s).shutdown = s.shutdown ∧ (handleEventNext s).alarms = s.alarms ∧
    (handleEventNext s).fault = s.fault := by
  unfold handleEventNext
  repeat' split
  all_goals simp

/-- `handle_event` ends in the worker loop, never past it. -/
theorem handleEventNext_not_exited (h : s.worker.inHandleEvent) :
    (handleEventNext s).worker ≠ .exited := by
  cases hw : s.worker with
  | clear => simp [handleEventNext, hw]
  | pop =>
    cases hq : s.dispatched with
    | nil => simp [handleEventNext, hw, hq]
    | cons task q => cases task <;> simp [handleEventNext, hw, hq]
  | call task => simp [handleEventNext, hw]
  | _ => simp [hw, WorkerPc.inHandleEvent] at h

@[simp] theorem destroyNext_frame :
    (destroyNext s).worker = s.worker ∧ (destroyNext s).pushing = s.pushing ∧
    (destroyNext s).alarms = s.alarms ∧ (destroyNext s).fault = s.fault := by
  unfold destroyNext
  split <;> simp
end

variable [DecidableEq T]

/-- The next statement of `push` on thread `t`. -/
def pushNext (s : State F T) (t : Thread T) : State F T :=
  match s.pushing t with
  | none => s
  | some (.emplace fn) => { s with
      dispatched := s.dispatched ++ [fn]
      pushed := s.pushed ++ [fn]
      pushing := Function.update s.pushing t (some .testAndSet) }
  | some .testAndSet => { s with
      alarmSet := true
      pushing := Function.update s.pushing t (if s.alarmSet then none else some .set) }
  | some .set =>
    if s.shutdown then { s with fault := some .setAfterShutdown }
    else { s with
      alarms := s.alarms + 1
      pushing := Function.update s.pushing t none }

@[simp] theorem pushNext_frame (s : State F T) (t : Thread T) :
    (pushNext s t).worker = s.worker ∧ (pushNext s t).dtor = s.dtor ∧
    (pushNext s t).shutdown = s.shutdown := by
  unfold pushNext
  repeat' split
  all_goals simp

theorem pushNext_pushing_of_ne (s : State F T) {t u : Thread T} (h : u ≠ t) :
    (pushNext s t).pushing u = s.pushing u := by
  unfold pushNext
  repeat' split
  all_goals simp [h]

variable [DecidableEq F]

/-- `Next` returns false only once the queue is shut down and has no event left; `join`
waits for the worker. -/
def Enabled (s : State F T) (a : Action F T) : Prop :=
  s.fault = none ∧ match a with
  | .beginPush .worker _ => s.pushing .worker = none ∧ s.worker.mayPush
  | .beginPush (.external t) _ => s.pushing (.external t) = none
  | .push t => s.pushing t ≠ none
  | .nextAlarm => s.worker = .next ∧ s.alarms ≠ 0
  | .nextEvent => s.worker = .next
  | .endEvent => s.worker = .event ∧ s.pushing .worker = none
  | .handleEvent => s.worker.inHandleEvent ∧ s.pushing .worker = none
  | .exit => s.worker = .next ∧ s.shutdown ∧ s.alarms = 0
  | .destroy => s.dtor ≠ .joined ∧ (s.dtor = .join → s.worker = .exited)

instance (s : State F T) (a : Action F T) : Decidable (Enabled s a) := by
  unfold Enabled
  split <;> infer_instance

def next (s : State F T) : Action F T → State F T
  | .beginPush t fn => { s with pushing := Function.update s.pushing t (some (.emplace fn)) }
  | .push t => pushNext s t
  | .nextAlarm => { s with alarms := s.alarms - 1, worker := .clear }
  | .nextEvent => { s with worker := .event }
  | .endEvent => { s with worker := .next }
  | .handleEvent => handleEventNext s
  | .exit => { s with worker := .exited }
  | .destroy => destroyNext s

def step : State F T → Action F T → Option (State F T) := stepOf Enabled next

end AsyncppGrpc.ClientCq
