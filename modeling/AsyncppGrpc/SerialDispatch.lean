import AsyncppGrpc.ClientCq
import AsyncppGrpc.ServerAffinity
import AsyncppGrpc.Library.Serial

/-! The dispatchers as executors: `client_cq`, and a server whose pushes select one queue, run
the pushed callbacks one at a time in the order of their `emplace`. -/
namespace AsyncppGrpc
open Run
variable {F T : Type*}

namespace ClientCq

def WorkerPc.task : WorkerPc F → Option F
  | .call task => some task
  | _ => none

/-- The callback a statement emplaces, begins or ends; empty functions are not executed. -/
def executes (s : State F T) : Action F T → Option (Serial.Action F)
  | .push t => match s.pushing t with
    | some (.emplace (some fn)) => some (.put fn)
    | _ => none
  | .handleEvent => match s.worker, s.dispatched with
    | .pop, some task :: _ => some (.begin task)
    | .call task, _ => some (.finish task)
    | _, _ => none
  | _ => none

def serialView (s : State F T) : Serial.State F := ⟨s.dispatched.reduceOption, s.worker.task⟩

variable [DecidableEq F]

theorem serialView_handleEvent {s : State F T} (he : s.worker.inHandleEvent = true) :
    Becomes Serial.step (serialView s) (serialView (handleEventNext s))
      (executes s .handleEvent) := by
  cases hw : s.worker with
  | clear => simp [Becomes, executes, handleEventNext, hw, serialView, WorkerPc.task]
  | pop =>
    cases hq : s.dispatched with
    | nil => simp [Becomes, executes, handleEventNext, hw, hq, serialView, WorkerPc.task]
    | cons task q =>
      cases task with
      | none => simp [Becomes, executes, handleEventNext, hw, hq, serialView, WorkerPc.task]
      | some task =>
        simp only [Becomes, executes, hw, hq]
        refine stepOf_eq_some.mpr ⟨?_, ?_⟩
        · simp [Serial.Enabled, serialView, hw, hq, WorkerPc.task]
        · simp [Serial.next, serialView, handleEventNext, hw, hq, WorkerPc.task]
  | call task =>
    simp only [Becomes, executes, hw]
    refine stepOf_eq_some.mpr ⟨?_, ?_⟩
    · simp [Serial.Enabled, serialView, hw, WorkerPc.task]
    · simp [Serial.next, serialView, handleEventNext, hw, WorkerPc.task]
  | _ => simp [hw, WorkerPc.inHandleEvent] at he

variable [DecidableEq T]

theorem serialView_push (s : State F T) (t : Thread T) :
    Becomes Serial.step (serialView s) (serialView (pushNext s t)) (executes s (.push t)) := by
  cases hp : s.pushing t with
  | none => simp [Becomes, executes, pushNext, hp]
  | some pc =>
    cases pc with
    | emplace fn =>
      cases fn with
      | none => simp [Becomes, executes, pushNext, hp, serialView, List.reduceOption_append]
      | some fn =>
        simp only [Becomes, executes, hp]
        refine stepOf_eq_some.mpr ⟨trivial, ?_⟩
        simp [Serial.next, serialView, pushNext, hp, List.reduceOption_append]
    | testAndSet => simp [Becomes, executes, pushNext, hp, serialView]
    | set => cases hs : s.shutdown <;> simp [Becomes, executes, pushNext, hp, hs, serialView]

theorem serialView_step :
    Views step Serial.step (serialView : State F T → Serial.State F) executes := by
  intro s a s' hs
  obtain ⟨⟨-, he⟩, rfl⟩ := stepOf_eq_some.mp hs
  cases a with
  | beginPush t fn => rfl
  | push t => exact serialView_push s t
  | nextEvent =>
    have hw : s.worker = .next := he
    simp [Becomes, executes, next, serialView, hw, WorkerPc.task]
  | handleEvent => exact serialView_handleEvent he.1
  | destroy => cases hd : s.dtor <;> simp [Becomes, executes, next, destroyNext, hd, serialView]
  | _ => simp [Becomes, executes, next, serialView, he.1, WorkerPc.task]

theorem serial_run {s : State F T} {as : List (Action F T)} (hr : run step .init as = some s) :
    run Serial.step .init (labels step executes .init as) = some (serialView s) :=
  run_labels serialView_step hr

end ClientCq

namespace Server
variable {n : Nat}

def WorkerPc.callback : WorkerPc F → Option F
  | .call _ cb => some cb
  | _ => none

/-- The callback a statement emplaces, begins or ends; empty functions are not executed. -/
def executes (s : State F n T) : Action F n T → Option (Serial.Action F)
  | .push t => match s.pushing t with
    | some (.emplace (some fn) _) => some (.put fn)
    | _ => none
  | .handleEvent w => match s.worker w, s.dispatchQueue with
    | .pop _, some cb :: _ => some (.begin cb)
    | .call _ cb, _ => some (.finish cb)
    | _, _ => none
  | _ => none

/-- The queue and the worker of queue `k`, as the consumer. -/
structure Serves (k : Nat) (s : State F n T) (c : Serial.State F) : Prop where
  queue : c.queue = s.dispatchQueue.reduceOption
  running : ∀ w : Fin n, w.val = k → (s.worker w).callback = c.running

/-- The only worker that handles alarms is that of queue `k`. -/
def Handles (k : Nat) (s : State F n T) : Prop :=
  ∀ w : Fin n, (s.worker w).inHandleEvent = true → w.val = k

theorem serves_init (k : Nat) : Serves k (.init : State F n T) .init :=
  ⟨rfl, fun _ _ => rfl⟩

theorem Serves.move {k : Nat} {s : State F n T} {c : Serial.State F} (h : Serves k s c)
    {w : Fin n} {p : WorkerPc F} (hp : p.callback = (s.worker w).callback) :
    Serves k { s with worker := Function.update s.worker w p } c := by
  refine ⟨h.queue, fun v hv => ?_⟩
  by_cases hvw : v = w
  · subst v
    simpa [hp] using h.running w hv
  · simpa [hvw] using h.running v hv

/-- Worker `w` is the worker of queue `k` when its callback changes. -/
theorem Serves.handle {k : Nat} {s : State F n T} {w : Fin n} (hw : w.val = k)
    {q : List (Option F)} {r : Option F} {p : WorkerPc F} {popped finished : List (Option F)}
    (hp : p.callback = r) :
    Serves k { s with
      worker := Function.update s.worker w p
      dispatchQueue := q
      popped := popped
      finished := finished } ⟨q.reduceOption, r⟩ := by
  refine ⟨rfl, fun v hv => ?_⟩
  obtain rfl : v = w := Fin.ext (hv.trans hw.symm)
  simp [hp]

variable [DecidableEq F]

theorem serves_handleEvent {k : Nat} {s : State F n T} {c : Serial.State F} (h : Serves k s c)
    {w : Fin n} (hk : w.val = k) (he : (s.worker w).inHandleEvent = true) :
    ∃ c', Becomes Serial.step c c' (executes s (.handleEvent w)) ∧
      Serves k (handleEventNext s w) c' := by
  have hqueue := h.queue
  have hrun := h.running w hk
  cases hw : s.worker w with
  | pop loop =>
    cases hq : s.dispatchQueue with
    | nil =>
      refine ⟨c, by simp [Becomes, executes, hw, hq], ?_⟩
      simp only [handleEventNext, hw, hq]
      rw [← hq]
      refine h.move ?_
      cases loop <;> simp [hw, WorkerPc.callback]
    | cons cb q =>
      cases cb with
      | none =>
        refine ⟨c, by simp [Becomes, executes, hw, hq], ?_⟩
        simp only [handleEventNext, hw, hq]
        exact ⟨by simpa [hq] using hqueue, h.running⟩
      | some cb =>
        refine ⟨⟨q.reduceOption, some cb⟩, ?_, ?_⟩
        · simp only [Becomes, executes, hw, hq]
          refine stepOf_eq_some.mpr ⟨⟨?_, ?_⟩, ?_⟩
          · simpa [hw, WorkerPc.callback] using hrun.symm
          · simp [hqueue, hq]
          · simp [Serial.next, hqueue, hq]
        · simp only [handleEventNext, hw, hq]
          exact Serves.handle hk rfl
  | call loop cb =>
    refine ⟨⟨c.queue, none⟩, ?_, ?_⟩
    · simp only [Becomes, executes, hw]
      refine stepOf_eq_some.mpr ⟨?_, rfl⟩
      simpa [Serial.Enabled, hw, WorkerPc.callback] using hrun.symm
    · simp only [handleEventNext, hw, hqueue]
      exact Serves.handle hk rfl
  | store =>
    refine ⟨c, by simp [Becomes, executes, hw], ?_⟩
    simp only [handleEventNext, hw]
    have hmove := h.move (w := w) (p := .pop .second) (by simp [hw, WorkerPc.callback])
    exact ⟨hmove.queue, hmove.running⟩
  | _ => simp [hw, WorkerPc.inHandleEvent] at he

variable [DecidableEq T]

theorem serves_push {k : Nat} {s : State F n T} {c : Serial.State F} (h : Serves k s c)
    (t : Thread n T) : ∃ c', Becomes Serial.step c c' (executes s (.push t)) ∧
      Serves k (pushNext s t) c' := by
  have hrun : ∀ w : Fin n, w.val = k → ((pushNext s t).worker w).callback = c.running := by
    simpa using h.running
  cases hp : s.pushing t with
  | none => exact ⟨c, by simp [Becomes, executes, hp], by simpa [pushNext, hp] using h⟩
  | some pc =>
    cases pc with
    | emplace fn j =>
      cases fn with
      | none =>
        refine ⟨c, by simp [Becomes, executes, hp], ?_, hrun⟩
        simp [pushNext, hp, h.queue, List.reduceOption_append]
      | some fn =>
        refine ⟨Serial.next c (.put fn), ?_, ?_, hrun⟩
        · simp only [Becomes, executes, hp]
          exact stepOf_eq_some.mpr ⟨trivial, rfl⟩
        · simp [Serial.next, pushNext, hp, h.queue, List.reduceOption_append]
    | exchange j =>
      refine ⟨c, by simp [Becomes, executes, hp], ?_, hrun⟩
      simp [pushNext, hp, h.queue]
    | set j =>
      refine ⟨c, by simp [Becomes, executes, hp], ?_, hrun⟩
      rw [h.queue]
      simp only [pushNext, hp]
      repeat' split
      all_goals rfl

theorem serves_step {k : Nat} {s s' : State F n T} {c : Serial.State F} {a : Action F n T}
    (h : Serves k s c) (hk : Handles k s) (hs : step s a = some s') :
    ∃ c', Becomes Serial.step c c' (executes s a) ∧ Serves k s' c' := by
  obtain ⟨⟨-, he⟩, rfl⟩ := stepOf_eq_some.mp hs
  cases a with
  | beginPush t fn j => exact ⟨c, rfl, h.queue, h.running⟩
  | push t => exact serves_push h t
  | nextAlarm w =>
    have hmove := h.move (w := w) (p := .pop .first) (by simp [he.1, WorkerPc.callback])
    exact ⟨c, rfl, hmove.queue, hmove.running⟩
  | nextEvent w =>
    have hw : s.worker w = .next := he
    exact ⟨c, rfl, h.move (by simp [hw, WorkerPc.callback])⟩
  | handleEvent w => exact serves_handleEvent h (hk w he.1) he.1
  | stop =>
    refine ⟨c, rfl, ?_, by simpa [next] using h.running⟩
    rw [h.queue]
    simp only [next, stopNext]
    repeat' split
    all_goals rfl
  | _ => exact ⟨c, rfl, h.move (by simp [he.1, WorkerPc.callback])⟩

theorem serial_run {k : Nat} {s : State F n T} {as : List (Action F n T)}
    (hk : Guarded step (SameQueue k) (.init : State F n T) as)
    (hr : run step .init as = some s) :
    ∃ c, run Serial.step .init (labels step executes .init as) = some c ∧
      Serves (k % n) s c := by
  have hhandles : Always step (Handles (k % n)) (.init : State F n T) as :=
    always_of_guarded_run (fun bs t hbs hr w => handler_of_sameQueue hbs hr) hk
  exact exists_run_labels (serves_init _) (fun s c a s' => serves_step) hhandles.guarded hr

end Server

/-- Serial first-in-first-out execution, for any number of pushing threads, any nesting of
pushes in callbacks and any schedule: callbacks are begun in the order of their `emplace`,
each is finished before the next begins, and one pushed while another runs begins after that
one is finished. The callback that runs is the one the worker is inside. -/
theorem dispatch_serial_fifo [DecidableEq F] [DecidableEq T] :
    (∀ (as : List (ClientCq.Action F T)) s, run ClientCq.step .init as = some s →
      Serial.Fifo (labels ClientCq.step ClientCq.executes .init as) ∧
      Serial.running (labels ClientCq.step ClientCq.executes .init as) = s.worker.task) ∧
    ∀ (n k : Nat) (as : List (Server.Action F n T)) s,
      Guarded Server.step (Server.SameQueue k) .init as → run Server.step .init as = some s →
      Serial.Fifo (labels Server.step Server.executes .init as) ∧
      ∀ w loop cb, s.worker w = .call loop cb →
        Serial.running (labels Server.step Server.executes .init as) = some cb := by
  constructor
  · intro as s hr
    have hserial := ClientCq.serial_run hr
    exact ⟨Serial.fifo_run hserial, (Serial.served_run hserial).running.symm⟩
  · intro n k as s hk hr
    obtain ⟨c, hserial, hserves⟩ := Server.serial_run hk hr
    refine ⟨Serial.fifo_run hserial, fun w loop cb hw => ?_⟩
    have hwk := Server.handler_of_sameQueue hk hr (w := w)
      (by simp [hw, Server.WorkerPc.inHandleEvent])
    rw [← (Serial.served_run hserial).running, ← hserves.running w hwk, hw]
    rfl

/-- Callback 7 pushes 8 and 9 comes from outside while it runs. -/
def nestedPush (w : Fin 2) : List (Server.Action Nat 2 Unit) :=
  [.online w, .beginPush (.external ()) (some 7) 3, .push (.external ()), .push (.external ()),
    .push (.external ()), .nextAlarm w, .handleEvent w, .beginPush (.worker w) (some 8) 3,
    .push (.worker w), .beginPush (.external ()) (some 9) 1, .push (.external ()),
    .push (.worker w), .handleEvent w, .handleEvent w, .handleEvent w, .handleEvent w]

theorem nestedPush_serial_fifo : ∃ s, run Server.step .init (nestedPush 1) = some s ∧
    s.worker 1 = .call .first 9 ∧
    Serial.Fifo (labels Server.step Server.executes .init (nestedPush 1)) ∧
    Serial.running (labels Server.step Server.executes .init (nestedPush 1)) = some 9 := by
  have hk : Guarded Server.step (Server.SameQueue 1) .init (nestedPush 1) := by decide
  have hr : run Server.step .init (nestedPush 1) = some _ := rfl
  have h := (dispatch_serial_fifo (F := Nat) (T := Unit)).2 2 1 (nestedPush 1) _ hk hr
  exact ⟨_, hr, rfl, h.1, h.2 1 .first 9 rfl⟩

end AsyncppGrpc
