import AsyncppGrpc.ServerInitializers
import AsyncppGrpc.ServerProgress
import AsyncppGrpc.TaskAccounting
import AsyncppGrpc.Library.Hosting

/-! A server and its tasks. Each task waits for its tags on the queue of one worker, and
`Next` returns false to that worker only when nothing is outstanding on the queue. -/
namespace AsyncppGrpc.ServerTasks
open Run
variable {F T R Req Resp : Type*} {n : Nat}

/-- `tasks` are the frames created so far, each with the worker of its queue. -/
structure State (F : Type*) (n : Nat) (T R Req Resp : Type*) where
  server : Server.State F n T
  tasks : List (Fin n × Task.Frame R Req Resp)

def State.init : State F n T R Req Resp := ⟨.init, []⟩

/-- `addTask`: an initializer or a body creates a task on the queue of `w`; `deliver`: worker
`w` takes a tag of the `i`-th task from its queue; `task`: code of the `i`-th task runs, or its
client cancels an RPC. -/
inductive Action (F : Type*) (n : Nat) (T R Req Resp : Type*) where
  | server (a : Server.Action F n T)
  | addTask (w : Fin n) (method : RpcMethodType)
  | deliver (w : Fin n) (i : Nat) (a : Task.Action R Req Resp)
  | task (i : Nat) (a : Task.Action R Req Resp)

/-- The queue hands the event over. -/
def isEvent : Task.Action R Req Resp → Bool
  | .request _ | .complete _ _ | .done _ _ => true
  | _ => false

/-- The client acts, not the task. -/
def isCancel : Task.Action R Req Resp → Bool
  | .cancel _ => true
  | _ => false

/-- No event of the frame is outstanding. -/
def drained (f : Task.Frame R Req Resp) : Bool := f.pending.isEmpty && f.dones.isEmpty

/-- The frame's code runs, or is to run when a hook calls back. -/
def Outside (f : Task.Frame R Req Resp) : Prop := f.point = .body ∨ f.authenticating = true

/-- The worker a statement takes past its loop. -/
def leaves : Server.Action F n T → Option (Fin n)
  | .exit w => some w
  | _ => none

/-- Destroyed, and once. -/
def Gone (f : Task.Frame R Req Resp) : Prop := f.point = .destroyed ∧ f.destroys = 1

/-- The queue of a worker past its loop has no live task. -/
def LeavesNothing (s : State F n T R Req Resp) : Prop :=
  ∀ q ∈ s.tasks, s.server.worker q.1 = .exited → Gone q.2

/-- A worker leaves its loop with none of its tasks executing or authenticating. -/
def NoneOutside (s : State F n T R Req Resp) : Action F n T R Req Resp → Prop
  | .server a => ∀ w ∈ leaves a, ∀ q ∈ s.tasks, q.1 = w → ¬Outside q.2
  | _ => True

/-- Hooks call back and bodies run inside the handler that entered them, until they are
suspended in an operation of their context. -/
def InHandler (s : State F n T R Req Resp) : Action F n T R Req Resp → Prop
  | .server (.endEvent w) => ∀ q ∈ s.tasks, q.1 = w → ¬Outside q.2
  | .task i a => ∀ q ∈ s.tasks[i]?, s.server.worker q.1 = .event ∨ isCancel a = true
  | _ => True

/-- A task with nothing outstanding on its queue has ended, unless it is outside. -/
theorem gone_iff {f : Task.Frame R Req Resp} (h : Task.Accounted f) (hd : drained f = true) :
    Gone f ↔ ¬Outside f := by
  have hpend : f.pending = [] := by
    simp only [drained, Bool.and_eq_true, List.isEmpty_iff] at hd
    exact hd.1
  have hacc := h.outstanding
  unfold Gone Outside
  rw [hpend] at hacc
  generalize f.point = p at *
  generalize f.authenticating = authenticating at *
  generalize f.destroys = destroys at *
  cases hacc <;> simp

def label (_ : State F n T R Req Resp) : Action F n T R Req Resp →
    Option (Hosting.Action (Fin n) RpcMethodType (Task.Action R Req Resp))
  | .server a => (leaves a).map .leave
  | .addTask w method => some (.create w method)
  | .deliver _ i a | .task i a => some (.act i a)

/-- What the action is to the `i`-th task. -/
def actOn (i : Nat) : Action F n T R Req Resp → Option (Task.Action R Req Resp)
  | .deliver _ j a | .task j a => if j = i then some a else none
  | _ => none

theorem actOn_label (s : State F n T R Req Resp) (i : Nat) (a : Action F n T R Req Resp) :
    actOn i a = (label s a).bind (Hosting.actOn i) := by
  cases a with
  | server a => cases hl : leaves a <;> simp [actOn, label, hl, Hosting.actOn]
  | _ => rfl

section
variable [DecidableEq T] [DecidableEq F]

/-- A statement takes no other worker past its loop than it is said to. -/
theorem exited_iff {s : Server.State F n T} {a : Server.Action F n T} (he : Server.Enabled s a)
    (v : Fin n) : (Server.next s a).worker v = .exited ↔
      s.worker v = .exited ∨ leaves a = some v := by
  by_cases hv : s.worker v = .exited
  · have hne : a ≠ .online v := by
      intro ha
      subst a
      simp [Server.Enabled, hv] at he
    simp [Server.next_worker he hne (.inr hv), hv]
  · simp only [hv, false_or]
    cases a with
    | beginPush t fn k => simpa [Server.next, leaves] using hv
    | push t => simpa [Server.next, leaves] using hv
    | stop => simpa [Server.next, leaves] using hv
    | handleEvent w =>
      by_cases hvw : v = w
      · subst v
        simpa [Server.next, leaves] using Server.handleEventNext_not_exited s he.2.1
      · simpa [Server.next, leaves, Server.handleEventNext_worker_of_ne s hvw] using hv
    | exit w =>
      by_cases hvw : v = w
      · simp [Server.next, leaves, hvw]
      · simp [Server.next, leaves, hvw, hv, Ne.symm hvw]
    | online w => by_cases hvw : v = w <;> simp [Server.next, leaves, hvw, hv]
    | nextAlarm w => by_cases hvw : v = w <;> simp [Server.next, leaves, hvw, hv]
    | nextEvent w => by_cases hvw : v = w <;> simp [Server.next, leaves, hvw, hv]
    | endEvent w => by_cases hvw : v = w <;> simp [Server.next, leaves, hvw, hv]

end

/-- The tasks that hold an event of the queue of `w` up. -/
def outstanding (s : State F n T R Req Resp) (w : Fin n) : Nat :=
  s.tasks.countP fun q => q.1 = w && !drained q.2

theorem outstanding_eq_zero {s : State F n T R Req Resp} {w : Fin n} :
    outstanding s w = 0 ↔ ∀ q ∈ s.tasks, q.1 = w → drained q.2 = true := by
  simp [outstanding, List.countP_eq_zero]

/-- Statements and deliveries that bring in neither a push, nor a task, nor an event of anything
else. -/
def Free : Action F n T R Req Resp → Prop
  | .server a => Server.brings a = 0
  | .deliver _ _ _ => True
  | _ => False

/-- A handler is left by its end only. -/
theorem next_event [DecidableEq T] {s : Server.State F n T} {a : Server.Action F n T}
    (he : Server.Enabled s a) {w : Fin n} (ha : a ≠ .endEvent w) (hw : s.worker w = .event) :
    (Server.next s a).worker w = .event := by
  have hother : ∀ v, s.worker v ≠ .event → w ≠ v := by
    intro v hv heq
    exact hv (heq ▸ hw)
  obtain ⟨-, he⟩ := he
  cases a with
  | beginPush t fn k => exact hw
  | push t => simpa [Server.next] using hw
  | stop => simpa [Server.next] using hw
  | online v => simp [Server.next, hother v (by simp [he.1]), hw]
  | nextAlarm v => simp [Server.next, hother v (by simp [he.1]), hw]
  | nextEvent v =>
    have hv : s.worker v = .next := he
    simp [Server.next, hother v (by simp [hv]), hw]
  | endEvent v =>
    have hvw : w ≠ v := by
      intro heq
      exact ha (by rw [heq])
    simp [Server.next, hvw, hw]
  | handleEvent v =>
    have hv : s.worker v ≠ .event := by
      intro hv
      simp [hv, Server.WorkerPc.inHandleEvent] at he
    simp [Server.next, Server.handleEventNext_worker_of_ne s (hother v hv), hw]
  | exit v => simp [Server.next, hother v (by simp [he.1]), hw]

/-- Code of a task runs in the handler of its worker only. -/
def Inside (s : State F n T R Req Resp) : Prop :=
  ∀ q ∈ s.tasks, Outside q.2 → s.server.worker q.1 = .event

section
variable [DecidableEq F]

/-- The workers past their loop as departed hosts. -/
def view (s : State F n T R Req Resp) : Hosting.State (Fin n) (Task.Frame R Req Resp) where
  left w := decide (s.server.worker w = .exited)
  parties := s.tasks

theorem view_init : view (.init : State F n T R Req Resp) = .init := by
  simp [view, State.init, Hosting.State.init, Server.State.init]

theorem settled_view (s : State F n T R Req Resp) :
    Hosting.Settled Gone (view s) ↔ LeavesNothing s := by
  simp [Hosting.Settled, LeavesNothing, view]

theorem orderly_label (s : State F n T R Req Resp) (a : Action F n T R Req Resp) :
    (∀ b ∈ label s a, Hosting.Orderly (fun f => ¬Outside f) (fun _ _ => True) (view s) b) ↔
      NoneOutside s a := by
  cases a with
  | server a => cases hl : leaves a <;> simp [label, NoneOutside, hl, Hosting.Orderly, view]
  | _ => simp [label, NoneOutside, Hosting.Orderly]

variable [DecidableEq R] [DecidableEq Resp]

instance (f : Task.Frame R Req Resp) : Decidable (Outside f) :=
  inferInstanceAs (Decidable (f.point = .body ∨ f.authenticating = true))

instance (s : State F n T R Req Resp) (a : Action F n T R Req Resp) : Decidable (InHandler s a) :=
  match a with
  | .server (.endEvent w) =>
    inferInstanceAs (Decidable (∀ q ∈ s.tasks, q.1 = w → ¬Outside q.2))
  | .task i a => inferInstanceAs (Decidable
    (∀ q ∈ s.tasks[i]?, s.server.worker q.1 = .event ∨ isCancel a = true))
  | .server (.beginPush _ _ _) | .server (.push _) | .server (.online _) | .server (.nextAlarm _)
  | .server (.nextEvent _) | .server (.handleEvent _) | .server (.exit _) | .server .stop
  | .addTask _ _ | .deliver _ _ _ => instDecidableTrue

def Enabled (s : State F n T R Req Resp) : Action F n T R Req Resp → Prop
  | .server a => Server.Enabled s.server a ∧
      ∀ w ∈ leaves a, ∀ q ∈ s.tasks, q.1 = w → drained q.2 = true
  | .addTask w _ => s.server.fault = none ∧ s.server.worker w ≠ .exited
  | .deliver w i a => Server.Enabled s.server (.nextEvent w) ∧ isEvent a = true ∧
      ∃ q ∈ s.tasks[i]?, q.1 = w ∧ Task.Enabled q.2 a
  | .task i a => s.server.fault = none ∧ isEvent a = false ∧
      ∃ q ∈ s.tasks[i]?, Task.Enabled q.2 a

instance [DecidableEq T] (s : State F n T R Req Resp) (a : Action F n T R Req Resp) :
    Decidable (Enabled s a) :=
  match a with
  | .server a => inferInstanceAs (Decidable (Server.Enabled s.server a ∧
      ∀ w ∈ leaves a, ∀ q ∈ s.tasks, q.1 = w → drained q.2 = true))
  | .addTask w _ => inferInstanceAs (Decidable (s.server.fault = none ∧
      s.server.worker w ≠ .exited))
  | .deliver w i a => inferInstanceAs (Decidable (Server.Enabled s.server (.nextEvent w) ∧
      isEvent a = true ∧ ∃ q ∈ s.tasks[i]?, q.1 = w ∧ Task.Enabled q.2 a))
  | .task i a => inferInstanceAs (Decidable (s.server.fault = none ∧ isEvent a = false ∧
      ∃ q ∈ s.tasks[i]?, Task.Enabled q.2 a))

variable [Inhabited Req]

theorem gone_step {f f' : Task.Frame R Req Resp} {a : Task.Action R Req Resp}
    (h : Task.Accounted f) (hg : Gone f) (hs : Task.step f a = some f') : Gone f' := by
  obtain ⟨hpend, hauth, -⟩ := h.outstanding.of_destroyed hg.1
  obtain ⟨he, rfl⟩ := stepOf_eq_some.mp hs
  cases a with
  | request call => simp [Task.Enabled, hpend] at he
  | authenticate result => simp [Task.Enabled, hauth] at he
  | complete tag ok => simp [Task.Enabled, hpend] at he
  | done rpc ok => simpa [Gone, Task.next, Task.receiveDone, hg.1] using hg.2
  | cancel rpc => exact hg
  | await op => simp [Task.Enabled, hg.1] at he
  | respond response => simp [Task.Enabled, hg.1] at he
  | coReturn status => simp [Task.Enabled, hg.1] at he
  | throws status => simp [Task.Enabled, hg.1] at he

def taskNext (tasks : List (Fin n × Task.Frame R Req Resp)) (i : Nat)
    (a : Task.Action R Req Resp) : List (Fin n × Task.Frame R Req Resp) :=
  match tasks[i]? with
  | none => tasks
  | some q => tasks.set i (q.1, Task.next q.2 a)

theorem forall_mem_taskNext {P : Fin n × Task.Frame R Req Resp → Prop}
    {tasks : List (Fin n × Task.Frame R Req Resp)} {i : Nat} {a : Task.Action R Req Resp}
    {q : Fin n × Task.Frame R Req Resp} (hq : tasks[i]? = some q)
    (h : ∀ r ∈ tasks, P r) (hnew : P (q.1, Task.next q.2 a)) :
    ∀ r ∈ taskNext tasks i a, P r := by
  simp only [taskNext, hq]
  exact (Hosting.forall_mem_set hq).mpr ⟨hnew, fun j r _ hr => h r (List.mem_of_getElem? hr)⟩

/-- A task is what it was, or it is the one that steps. -/
theorem getElem?_taskNext {tasks : List (Fin n × Task.Frame R Req Resp)} {i k : Nat}
    {a : Task.Action R Req Resp} {q r : Fin n × Task.Frame R Req Resp} (hr : tasks[k]? = some r)
    (hq : (taskNext tasks k a)[i]? = some q) :
    tasks[i]? = some q ∨ i = k ∧ q = (r.1, Task.next r.2 a) := by
  simp only [taskNext, hr] at hq
  by_cases hik : i = k
  · subst i
    rw [List.getElem?_set_self (List.getElem?_eq_some_iff.mp hr).1] at hq
    exact .inr ⟨rfl, by simpa using hq.symm⟩
  · rw [List.getElem?_set_ne (Ne.symm hik)] at hq
    exact .inl hq

variable [Inhabited Resp]

theorem views_act {s : State F n T R Req Resp} {i : Nat} {a : Task.Action R Req Resp}
    {q : Fin n × Task.Frame R Req Resp} (hq : s.tasks[i]? = some q) (he : Task.Enabled q.2 a) :
    Hosting.hostStep Task.Frame.init Task.step drained (view s) (.act i a) =
      some { view s with parties := taskNext s.tasks i a } := by
  refine Hosting.hostStep_act.mpr ⟨q, _, hq, stepOf_eq_some.mpr ⟨he, rfl⟩, ?_⟩
  simp [taskNext, hq, view]

variable [DecidableEq T]

def next (s : State F n T R Req Resp) : Action F n T R Req Resp → State F n T R Req Resp
  | .server a => { s with server := Server.next s.server a }
  | .addTask w method => { s with tasks := s.tasks ++ [(w, .init method)] }
  | .deliver w i a =>
    { server := Server.next s.server (.nextEvent w), tasks := taskNext s.tasks i a }
  | .task i a => { s with tasks := taskNext s.tasks i a }

def step : State F n T R Req Resp → Action F n T R Req Resp → Option (State F n T R Req Resp) :=
  stepOf Enabled next

/-- Every step is one of the hosts and their machines, or none of theirs. -/
theorem views_step : Views (step (F := F) (n := n) (T := T))
    (Hosting.hostStep (.init : RpcMethodType → Task.Frame R Req Resp) Task.step drained) view
    label := by
  intro s a s' hs
  obtain ⟨he, rfl⟩ := stepOf_eq_some.mp hs
  cases a with
  | server a =>
    obtain ⟨he, hdrained⟩ := he
    cases hl : leaves a with
    | none =>
      simp only [label, hl, Option.map_none, Becomes]
      refine Hosting.State.ext (funext fun v => ?_) rfl
      simp [view, next, exited_iff he, hl]
    | some w =>
      simp only [label, hl, Option.map_some, Becomes]
      refine Hosting.hostStep_leave.mpr ⟨hdrained w hl, ?_⟩
      refine Hosting.State.ext (funext fun v => ?_) rfl
      by_cases hvw : v = w
      · simp [view, next, exited_iff he, hl, hvw]
      · simp [view, next, exited_iff he, hl, hvw, Ne.symm hvw]
  | addTask w method =>
    refine Hosting.hostStep_create.mpr ⟨by simpa [view] using he.2, rfl⟩
  | deliver w i a =>
    obtain ⟨hnext, -, q, hq, -, hf⟩ := he
    refine (views_act hq hf).trans ?_
    refine congrArg some (Hosting.State.ext (funext fun v => ?_) rfl)
    simp [view, next, exited_iff hnext, leaves]
  | task i a =>
    obtain ⟨-, -, q, hq, hf⟩ := he
    exact views_act hq hf

/-- Every task has taken a run of its own, which is its part of the schedule. -/
theorem task_run {as : List (Action F n T R Req Resp)} {s : State F n T R Req Resp}
    (hr : run step .init as = some s) {i : Nat} {q : Fin n × Task.Frame R Req Resp}
    (hq : s.tasks[i]? = some q) :
    ∃ m, run Task.step (.init m) (as.filterMap (actOn i)) = some q.2 := by
  have hrun := run_labels views_step hr
  rw [view_init] at hrun
  obtain ⟨m, hm⟩ := (Hosting.ran_of_run hrun).machine i q hq
  rw [filterMap_labels (fun s a => (actOn_label s i a).symm) hr] at hm
  exact ⟨m, hm⟩

/-- The library's exact guard, read through the view. -/
theorem settled_labels_iff (as : List (Action F n T R Req Resp)) :
    Always step (fun s => Hosting.Settled Gone (view s)) (.init : State F n T R Req Resp) as ↔
      Guarded step (fun s a => ∀ b ∈ label s a,
        Hosting.Orderly (fun f => ¬Outside f) (fun _ _ => True) (view s) b) .init as := by
  have h0 : ∀ m, Task.Accounted (.init m : Task.Frame R Req Resp) := Task.accounted_init
  have hI : ∀ f a f', Task.Accounted f → Task.step f a = some f' →
      Task.Accounted (f' : Task.Frame R Req Resp) := fun _ _ _ => Task.accounted_step
  have hkeeps : ∀ f a f', Task.Accounted f → Gone f → Task.step f a = some f' →
      (Gone (f' : Task.Frame R Req Resp) ↔ True) :=
    fun _ _ _ h hg hs => iff_true_intro (gone_step h hg hs)
  have hiff := Hosting.settled_iff h0 hI (fun _ => gone_iff) hkeeps
    (labels step label (.init : State F n T R Req Resp) as)
  have hinit : view (.init : State F n T R Req Resp) = .init := view_init
  rw [← hinit, always_labels views_step, guarded_labels views_step] at hiff
  exact hiff

theorem inside_step {s s' : State F n T R Req Resp} {a : Action F n T R Req Resp}
    (h : Inside s) (hin : InHandler s a) (hs : step s a = some s') : Inside s' := by
  obtain ⟨he, rfl⟩ := stepOf_eq_some.mp hs
  cases a with
  | server a =>
    intro q hq hout
    have hw := h q hq hout
    refine next_event he.1 ?_ hw
    intro ha
    subst a
    exact hin q hq rfl hout
  | addTask w method =>
    intro q hq hout
    rcases List.mem_append.mp hq with hold | hnew
    · exact h q hold hout
    · obtain rfl : q = (w, .init method) := by simpa using hnew
      simp [Outside, Task.Frame.init, Task.startGrpcCall] at hout
  | deliver w i a =>
    obtain ⟨hnext, -, q, hq, hw, hf⟩ := he
    have hkeep : ∀ r ∈ s.tasks, Outside r.2 →
        (Server.next s.server (.nextEvent w)).worker r.1 = .event :=
      fun r hr hout => next_event hnext (by simp) (h r hr hout)
    refine forall_mem_taskNext hq hkeep fun _ => ?_
    simp [next, Server.next, hw]
  | task i a =>
    obtain ⟨-, -, q, hq, hf⟩ := he
    refine forall_mem_taskNext hq h fun hout => ?_
    rcases hin q hq with hw | hc
    · exact hw
    · obtain ⟨rpc, rfl⟩ : ∃ rpc, a = .cancel rpc := by cases a <;> simp_all [isCancel]
      exact h q (List.mem_of_getElem? hq) hout

/-- A frame whose code runs did so before the step, or the step delivers its event. -/
theorem outside_origin {s s' : State F n T R Req Resp} {a : Action F n T R Req Resp}
    (hs : step s a = some s') {i : Nat} {q : Fin n × Task.Frame R Req Resp}
    (hq : s'.tasks[i]? = some q) (hout : Outside q.2) :
    (∃ r, s.tasks[i]? = some r ∧ r.1 = q.1 ∧ Outside r.2) ∨ ∃ b, a = .deliver q.1 i b := by
  obtain ⟨he, rfl⟩ := stepOf_eq_some.mp hs
  cases a with
  | server a => exact .inl ⟨q, hq, rfl, hout⟩
  | addTask w method =>
    refine .inl ⟨q, ?_, rfl, hout⟩
    simp only [next, List.getElem?_append] at hq
    split at hq
    · exact hq
    · obtain rfl : q = (w, .init method) := by simpa using List.mem_of_getElem? hq
      simp [Outside, Task.Frame.init, Task.startGrpcCall] at hout
  | deliver w k b =>
    obtain ⟨-, -, r, hr, hw, -⟩ := he
    rcases getElem?_taskNext hr hq with hold | ⟨rfl, rfl⟩
    · exact .inl ⟨q, hold, rfl, hout⟩
    · exact .inr ⟨b, by rw [← hw]⟩
  | task k b =>
    obtain ⟨-, hb, r, hr, hf⟩ := he
    rcases getElem?_taskNext hr hq with hold | ⟨rfl, rfl⟩
    · exact .inl ⟨q, hold, rfl, hout⟩
    · refine .inl ⟨r, hr, rfl, ?_⟩
      cases b with
      | request call => simp [isEvent] at hb
      | complete tag ok => simp [isEvent] at hb
      | done rpc ok => simp [isEvent] at hb
      | authenticate result => exact .inr hf
      | cancel rpc => exact hout
      | await op => exact .inl hf.1
      | respond response => exact .inl hf.1
      | coReturn status => exact .inl hf
      | throws status => exact .inl hf

/-- No two tasks of one queue execute. -/
def Exclusive (s : State F n T R Req Resp) : Prop :=
  ∀ (i j : Nat) (q r : Fin n × Task.Frame R Req Resp), s.tasks[i]? = some q →
    s.tasks[j]? = some r → Outside q.2 → Outside r.2 → q.1 = r.1 → i = j

theorem exclusive_step {s s' : State F n T R Req Resp} {a : Action F n T R Req Resp}
    (h : Inside s) (hx : Exclusive s) (hs : step s a = some s') : Exclusive s' := by
  -- an event is delivered to a worker none of whose tasks executes
  have hdeliver : ∀ w i b, a = .deliver w i b → ∀ r ∈ s.tasks, Outside r.2 → r.1 ≠ w := by
    intro w i b ha r hr hout hw
    subst a
    obtain ⟨⟨hnext, -⟩, -⟩ := stepOf_eq_some.mp hs
    have hevent := h r hr hout
    rw [hw] at hevent
    simp [show s.server.worker w = .next from hnext.2] at hevent
  intro i j q r hq hr hqout hrout hw
  rcases outside_origin hs hq hqout with ⟨q', hq', hqw, hqo⟩ | ⟨b, hb⟩
  · rcases outside_origin hs hr hrout with ⟨r', hr', hrw, hro⟩ | ⟨c, hc⟩
    · exact hx i j q' r' hq' hr' hqo hro (by rw [hqw, hrw, hw])
    · exact absurd (hqw.trans hw) (hdeliver r.1 j c hc q' (List.mem_of_getElem? hq') hqo)
  · rcases outside_origin hs hr hrout with ⟨r', hr', hrw, hro⟩ | ⟨c, hc⟩
    · exact absurd (hrw.trans hw.symm) (hdeliver q.1 i b hb r' (List.mem_of_getElem? hr') hro)
    · have heq : Action.deliver q.1 i b = .deliver r.1 j c := hb.symm.trans hc
      injection heq

/-- The server takes a step of its own, or none. -/
theorem server_step {s s' : State F n T R Req Resp} {a : Action F n T R Req Resp}
    (hs : step s a = some s') :
    s'.server = s.server ∨ ∃ b, Server.step s.server b = some s'.server := by
  obtain ⟨he, rfl⟩ := stepOf_eq_some.mp hs
  cases a with
  | server a => exact .inr ⟨a, stepOf_eq_some.mpr ⟨he.1, rfl⟩⟩
  | deliver w i a => exact .inr ⟨.nextEvent w, stepOf_eq_some.mpr ⟨he.1, rfl⟩⟩
  | _ => exact .inl rfl

/-- What holds of every run of the server holds of the server with its tasks. -/
theorem server_inv {P : Server.State F n T → Prop} (h0 : P .init)
    (hP : ∀ s a s', P s → Server.step s a = some s' → P s') {s : State F n T R Req Resp}
    {as : List (Action F n T R Req Resp)} (hr : run step .init as = some s) : P s.server := by
  refine inv_of_run (P := fun s : State F n T R Req Resp => P s.server) h0 ?_ hr
  intro s a s' h hs
  rcases server_step hs with heq | ⟨b, hb⟩
  · rwa [heq]
  · exact hP _ _ _ h hb

/-- The queues of departed workers hold no live task in every state of a run exactly if no
worker leaves its loop while one of its tasks executes elsewhere or waits for the callback of
`on_authenticate`. -/
theorem tasks_destroyed_iff (as : List (Action F n T R Req Resp)) :
    Always step LeavesNothing (.init : State F n T R Req Resp) as ↔
      Guarded step NoneOutside (.init : State F n T R Req Resp) as := by
  simpa only [settled_view, orderly_label] using settled_labels_iff as

/-- When a worker leaves its loop none of its tasks is outside if every handler runs its course. -/
theorem noneOutside_of_inside {s s' : State F n T R Req Resp} {a : Action F n T R Req Resp}
    (h : Inside s) (hs : step s a = some s') : NoneOutside s a := by
  obtain ⟨he, rfl⟩ := stepOf_eq_some.mp hs
  cases a with
  | server a =>
    intro w hw q hq hqw hout
    obtain rfl : a = .exit w := by cases a <;> simp_all [leaves]
    have hevent := h q hq hout
    rw [hqw] at hevent
    simp [he.1.2.1] at hevent
  | _ => trivial

theorem gone_of_stopped {as : List (Action F n T R Req Resp)} {s : State F n T R Req Resp}
    (hin : Guarded step InHandler (.init : State F n T R Req Resp) as)
    (hr : run step .init as = some s) (hs : s.server.stop = .stopped) :
    ∀ q ∈ s.tasks, Gone q.2 := by
  have hinside : Always step Inside (.init : State F n T R Req Resp) as := by
    refine always_of_step ?_ (fun _ _ _ => inside_step) hin
    simp [Inside, State.init]
  have hnone : Guarded step NoneOutside (.init : State F n T R Req Resp) as :=
    hinside.guarded.imp fun _ _ _ => noneOutside_of_inside
  have hattended : Server.Attended s.server :=
    server_inv Server.attended_init (fun _ _ _ => Server.attended_step) hr
  have hiff := settled_labels_iff as
  simp only [settled_view, orderly_label] at hiff
  intro q hq
  refine (hiff.mpr hnone).last hr q hq (hattended.joined q.1 ?_)
  rw [hs]
  trivial

/-- When `stop` has returned no task is left: however `stop`, the dispatcher, the events of any
number of tasks and the creation of tasks interleave, every task has been destroyed once if hooks
and bodies run inside the handlers. -/
theorem stop_destroys_tasks {as : List (Action F n T R Req Resp)} {s : State F n T R Req Resp}
    (hin : Guarded step InHandler (.init : State F n T R Req Resp) as)
    (hr : run step .init as = some s) (hs : s.server.stop = .stopped) :
    ∀ q ∈ s.tasks, q.2.point = .destroyed ∧ q.2.destroys = 1 :=
  gone_of_stopped hin hr hs

/-- If hooks and bodies run inside the handlers, the queue of a worker serialises its tasks: no
two of them execute at a time, and none while a callback of the dispatcher runs on the worker. -/
theorem tasks_exclusive {as : List (Action F n T R Req Resp)} {s : State F n T R Req Resp}
    (hin : Guarded step InHandler (.init : State F n T R Req Resp) as)
    (hr : run step .init as = some s) :
    Exclusive s ∧
      ∀ q ∈ s.tasks, Outside q.2 → ∀ loop cb, s.server.worker q.1 ≠ .call loop cb := by
  have hboth : Inside s ∧ Exclusive s := by
    refine inv_of_step (P := fun s : State F n T R Req Resp => Inside s ∧ Exclusive s) ?_ ?_ hin hr
    · simp [Inside, Exclusive, State.init]
    · exact fun s a s' h hok hs => ⟨inside_step h.1 hok hs, exclusive_step h.1 h.2 hs⟩
  refine ⟨hboth.2, fun q hq hout loop cb hcall => ?_⟩
  have hevent := hboth.1 q hq hout
  simp [hcall] at hevent

/-- One worker serves an RPC and is stopped; the call request of a second task fails. -/
def serveThenStop (w : Fin 1) : List (Action Nat 1 Unit Nat Unit Unit) :=
  [.addTask w .unary, .addTask w .bidiStreaming, .server (.online w),
    .deliver w 0 (.request (some (0, ()))), .task 0 (.authenticate {}), .task 0 (.coReturn {}),
    .server (.endEvent w), .deliver w 0 (.done 0 true), .server (.endEvent w), .server .stop,
    .server .stop, .deliver w 1 (.request none), .server (.endEvent w), .server .stop,
    .server .stop, .deliver w 0 (.complete .final true), .server (.endEvent w),
    .server (.exit w), .server .stop, .server .stop, .server .stop]

theorem serveThenStop_destroys : ∃ s, run step .init (serveThenStop 0) = some s ∧
    s.tasks.length = 2 ∧ ∀ q ∈ s.tasks, q.2.point = .destroyed ∧ q.2.destroys = 1 := by
  have hin : Guarded step InHandler .init (serveThenStop 0) := by decide
  have hr : run step .init (serveThenStop 0) = some _ := rfl
  exact ⟨_, hr, rfl, stop_destroys_tasks hin hr rfl⟩

/-- The body of the first task executes. -/
theorem serveThenStop_exclusive : ∃ s, run step .init ((serveThenStop 0).take 5) = some s ∧
    (∃ q ∈ s.tasks, Outside q.2) ∧ Exclusive s := by
  have hin : Guarded step InHandler .init ((serveThenStop 0).take 5) := by decide
  have hr : run step .init ((serveThenStop 0).take 5) = some _ := rfl
  exact ⟨_, hr, by decide, (tasks_exclusive hin hr).1⟩

end
end AsyncppGrpc.ServerTasks
