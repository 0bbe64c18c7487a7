import AsyncppGrpc.StartupProgress
import AsyncppGrpc.TaskAnswers

/-! The whole life of a server: the workers run the initializers, which create the tasks that
the server serves until `stop` has returned. `I` is the type of the initializers, each the call
of a task coroutine of the given method. -/
namespace AsyncppGrpc.ServerLife
open Run
variable {I F T R Req Resp : Type*} {n : Nat}

/-- `born` are the workers of the tasks with the initializer that has created each, none for a
task created by a body. -/
structure State (I F : Type*) (n : Nat) (T R Req Resp : Type*) where
  startup : ServerStartup.State I F n T
  tasks : List (Fin n × Task.Frame R Req Resp)
  born : List (Fin n × Option I)

def State.init (cqinits : List I) : State I F n T R Req Resp := ⟨.init cqinits, [], []⟩

/-- `startup`: a statement of the start-up or of the dispatcher; `addTask`: a body creates a task
on the queue of `w`; `deliver` and `task` as for the tasks of a server. -/
inductive Action (F : Type*) (n : Nat) (T R Req Resp : Type*) where
  | startup (a : ServerStartup.Action F n T)
  | addTask (w : Fin n) (method : RpcMethodType)
  | deliver (w : Fin n) (i : Nat) (a : Task.Action R Req Resp)
  | task (i : Nat) (a : Task.Action R Req Resp)

/-- The server and its tasks. -/
def view (s : State I F n T R Req Resp) : ServerTasks.State F n T R Req Resp :=
  ⟨s.startup.server, s.tasks⟩

/-- The initializer a worker enters next. -/
def invoked (s : ServerStartup.State I F n T) (w : Fin n) : Option I :=
  match s.worker w with
  | .iterate it last => if it = last then none else s.cqInitializers[it]?
  | _ => none

/-- The worker's next statement is its first `Next`. -/
def comesOnline (s : ServerStartup.State I F n T) (w : Fin n) : Bool :=
  match s.worker w with
  | .compare old => old + 1 ≠ s.server.cqs
  | .clear => true
  | _ => false

/-- The task that a statement creates. -/
def created (s : ServerStartup.State I F n T) : ServerStartup.Action F n T → Option (Fin n × I)
  | .worker w => (invoked s w).map fun e => (w, e)
  | _ => none

/-- The statement of the dispatcher. -/
def dispatched : ServerStartup.Action F n T → Option (Server.Action F n T)
  | .server a => some a
  | _ => none

/-- The initializers of the tasks on the queue of `w`, in the order of their creation. -/
def initialsOn (s : State I F n T R Req Resp) (w : Fin n) : List I :=
  s.born.filterMap fun q => if q.1 = w then q.2 else none

/-- What the action is to the `i`-th task. -/
def actOn (i : Nat) : Action F n T R Req Resp → Option (Task.Action R Req Resp)
  | .deliver _ j a | .task j a => if j = i then some a else none
  | _ => none

section
/-- A worker that comes online invokes nothing. -/
theorem invoked_of_comesOnline {s : ServerStartup.State I F n T} {w : Fin n}
    (h : comesOnline s w = true) : invoked s w = none := by
  unfold comesOnline at h
  unfold invoked
  split at h <;> simp_all

variable [DecidableEq T]

/-- What a worker's statement is to the dispatcher. -/
theorem server_workerNext (s : ServerStartup.State I F n T) (w : Fin n) :
    (ServerStartup.workerNext s w).server =
      if comesOnline s w then Server.next s.server (.online w) else s.server := by
  cases hw : s.worker w with
  | iterate it last =>
    by_cases hend : it = last
    · simp [ServerStartup.workerNext, comesOnline, hw, hend]
    · cases he : s.cqInitializers[it]? <;>
        simp [ServerStartup.workerNext, ServerStartup.callInitializer, comesOnline, hw, hend, he]
  | start =>
    by_cases hq : w.val < s.server.cqs <;> simp [ServerStartup.workerNext, comesOnline, hw, hq]
  | call it last =>
    cases he : s.cqInitializers[it]? <;> simp [ServerStartup.workerNext, comesOnline, hw, he]
  | compare old =>
    by_cases hlast : old + 1 = s.server.cqs <;>
      simp [ServerStartup.workerNext, ServerStartup.goOnline, comesOnline, hw, hlast]
  | _ => simp [ServerStartup.workerNext, ServerStartup.goOnline, comesOnline, hw]

theorem callsOn_workerNext (s : ServerStartup.State I F n T) (w v : Fin n) :
    ServerStartup.callsOn (ServerStartup.workerNext s w) v =
      ServerStartup.callsOn s v ++ if v = w then (invoked s w).toList else [] := by
  cases hw : s.worker w with
  | iterate it last =>
    by_cases hend : it = last
    · simp [ServerStartup.workerNext, invoked, hw, hend, ServerStartup.callsOn]
    · cases he : s.cqInitializers[it]? with
      | none => simp [ServerStartup.workerNext, invoked, hw, hend, he, ServerStartup.callsOn]
      | some e =>
        simp only [ServerStartup.workerNext, invoked, hw, hend, he, if_false,
          ServerStartup.callsOn_callInitializer]
        by_cases hvw : v = w <;> simp [hvw, ServerStartup.callsOn]
  | start =>
    by_cases hq : w.val < s.server.cqs <;>
      simp [ServerStartup.workerNext, invoked, hw, hq, ServerStartup.callsOn]
  | call it last =>
    cases he : s.cqInitializers[it]? <;>
      simp [ServerStartup.workerNext, invoked, hw, he, ServerStartup.callsOn]
  | compare old =>
    by_cases hlast : old + 1 = s.server.cqs <;>
      simp [ServerStartup.workerNext, ServerStartup.goOnline, invoked, hw, hlast,
        ServerStartup.callsOn]
  | _ =>
    simp [ServerStartup.workerNext, ServerStartup.goOnline, invoked, hw, ServerStartup.callsOn]

end

/-- What a step is to the start-up. -/
def startupLabel (_ : State I F n T R Req Resp) :
    Action F n T R Req Resp → Option (ServerStartup.Action F n T)
  | .startup a => some a
  | .deliver w _ _ => some (.server (.nextEvent w))
  | _ => none

section
variable (method : I → RpcMethodType)

/-- What a step is to the server and its tasks. -/
def label (s : State I F n T R Req Resp) :
    Action F n T R Req Resp → Option (ServerTasks.Action F n T R Req Resp)
  | .startup .launch => none
  | .startup (.worker w) =>
    if comesOnline s.startup w then some (.server (.online w))
    else (invoked s.startup w).map fun e => .addTask w (method e)
  | .startup (.server a) => some (.server a)
  | .addTask w m => some (.addTask w m)
  | .deliver w i a => some (.deliver w i a)
  | .task i a => some (.task i a)

theorem actOn_label (i : Nat) (s : State I F n T R Req Resp) (a : Action F n T R Req Resp) :
    (label method s a).bind (ServerTasks.actOn i) = actOn i a := by
  cases a with
  | startup a =>
    cases a with
    | launch => rfl
    | worker w =>
      by_cases hon : comesOnline s.startup w = true
      · simp [label, hon, ServerTasks.actOn, actOn]
      · cases hinv : invoked s.startup w <;> simp [label, hon, hinv, ServerTasks.actOn, actOn]
    | server a => rfl
  | _ => rfl

variable [DecidableEq F] [DecidableEq T] [DecidableEq R] [DecidableEq Resp]

/-- Hooks and bodies run inside the handler that entered them. -/
def InHandler (s : State I F n T R Req Resp) (a : Action F n T R Req Resp) : Prop :=
  ∀ b ∈ label method s a, ServerTasks.InHandler (view s) b

instance (s : State I F n T R Req Resp) (a : Action F n T R Req Resp) :
    Decidable (InHandler method s a) :=
  inferInstanceAs (Decidable (∀ b ∈ label method s a, ServerTasks.InHandler (view s) b))

end

section
variable [DecidableEq F] [DecidableEq T] [DecidableEq R] [DecidableEq Resp]

def Enabled (s : State I F n T R Req Resp) : Action F n T R Req Resp → Prop
  | .startup a => ServerStartup.Enabled s.startup a ∧
      ∀ b ∈ dispatched a, ServerTasks.Enabled (view s) (.server b)
  | .addTask w m => s.startup.fault = none ∧ ServerTasks.Enabled (view s) (.addTask w m)
  | .deliver w i a => s.startup.fault = none ∧ ServerTasks.Enabled (view s) (.deliver w i a)
  | .task i a => s.startup.fault = none ∧ ServerTasks.Enabled (view s) (.task i a)

instance (s : State I F n T R Req Resp) (a : Action F n T R Req Resp) :
    Decidable (Enabled s a) :=
  match a with
  | .startup a => inferInstanceAs (Decidable (ServerStartup.Enabled s.startup a ∧
      ∀ b ∈ dispatched a, ServerTasks.Enabled (view s) (.server b)))
  | .addTask w m => inferInstanceAs (Decidable
      (s.startup.fault = none ∧ ServerTasks.Enabled (view s) (.addTask w m)))
  | .deliver w i a => inferInstanceAs (Decidable
      (s.startup.fault = none ∧ ServerTasks.Enabled (view s) (.deliver w i a)))
  | .task i a => inferInstanceAs (Decidable
      (s.startup.fault = none ∧ ServerTasks.Enabled (view s) (.task i a)))

variable [Inhabited Req] [Inhabited Resp] (method : I → RpcMethodType)

def next (s : State I F n T R Req Resp) : Action F n T R Req Resp → State I F n T R Req Resp
  | .startup a => match created s.startup a with
    | none => { s with startup := ServerStartup.next s.startup a }
    | some (w, e) => {
        startup := ServerStartup.next s.startup a
        tasks := s.tasks ++ [(w, .init (method e))]
        born := s.born ++ [(w, some e)] }
  | .addTask w m => { s with tasks := s.tasks ++ [(w, .init m)], born := s.born ++ [(w, none)] }
  | .deliver w i a => { s with
      startup := ServerStartup.next s.startup (.server (.nextEvent w))
      tasks := ServerTasks.taskNext s.tasks i a }
  | .task i a => { s with tasks := ServerTasks.taskNext s.tasks i a }

def step : State I F n T R Req Resp → Action F n T R Req Resp →
    Option (State I F n T R Req Resp) := stepOf Enabled (next method)

variable {method} {cqinits : List I} {s s' : State I F n T R Req Resp}

/-- The start-up goes its own way. -/
theorem views_startup : Views (step method) ServerStartup.step State.startup
    (startupLabel : State I F n T R Req Resp → _ → _) := by
  intro s a s' hs
  obtain ⟨he, rfl⟩ := stepOf_eq_some.mp hs
  cases a with
  | startup a =>
    refine stepOf_eq_some.mpr ⟨he.1, ?_⟩
    cases hc : created s.startup a <;> simp [next, hc]
  | addTask w m => rfl
  | deliver w i a => exact stepOf_eq_some.mpr ⟨⟨he.1, trivial, he.2.1⟩, rfl⟩
  | task i a => rfl

/-- The task has got where it is from its creation, by its initializer or by a body. -/
def Made (method : I → RpcMethodType) (b : Fin n × Option I)
    (q : Fin n × Task.Frame R Req Resp) : Prop :=
  b.1 = q.1 ∧ ∀ e ∈ b.2, ∃ cs, run Task.step (.init (method e)) cs = some q.2

def AllMade (method : I → RpcMethodType) (born : List (Fin n × Option I))
    (tasks : List (Fin n × Task.Frame R Req Resp)) : Prop :=
  ∀ (i : Nat) (b : Fin n × Option I) (q : Fin n × Task.Frame R Req Resp),
    born[i]? = some b → tasks[i]? = some q → Made method b q

/-- The tasks of the start-up are those of its initializers. -/
structure Inv (method : I → RpcMethodType) (cqinits : List I)
    (s : State I F n T R Req Resp) : Prop where
  startup : ServerStartup.Inv cqinits s.startup
  initials : ∀ w, initialsOn s w = ServerStartup.callsOn s.startup w
  born : s.born.length = s.tasks.length
  made : AllMade method s.born s.tasks

theorem inv_init (cqinits : List I) :
    Inv method cqinits (.init cqinits : State I F n T R Req Resp) :=
  ⟨ServerStartup.inv_init cqinits, fun _ => rfl, rfl, by simp [AllMade, State.init]⟩

theorem startup_step {a : Action F n T R Req Resp} (h : ServerStartup.Inv cqinits s.startup)
    (hs : step method s a = some s') : ServerStartup.Inv cqinits s'.startup := by
  have hbecomes := views_startup s a s' hs
  cases hl : startupLabel s a with
  | none =>
    rw [hl, Becomes] at hbecomes
    rw [hbecomes]
    exact h
  | some b =>
    rw [hl, Becomes] at hbecomes
    exact ServerStartup.inv_step h hbecomes

theorem initials_step {a : Action F n T R Req Resp}
    (h : ∀ w, initialsOn s w = ServerStartup.callsOn s.startup w)
    (hs : step method s a = some s') (v : Fin n) :
    initialsOn s' v = ServerStartup.callsOn s'.startup v := by
  obtain ⟨-, rfl⟩ := stepOf_eq_some.mp hs
  have hborn := h v
  cases a with
  | startup a =>
    cases a with
    | launch =>
      rw [show (next method s (.startup .launch)).startup = ServerStartup.launchNext s.startup
        from rfl]
      unfold ServerStartup.launchNext
      split <;> exact hborn
    | worker w =>
      have hcalls := callsOn_workerNext s.startup w v
      rw [← hborn] at hcalls
      cases he : invoked s.startup w with
      | none => simpa [next, created, he, initialsOn, ServerStartup.next] using hcalls.symm
      | some e =>
        by_cases hvw : v = w
        · simpa [next, created, he, initialsOn, ServerStartup.next, hvw] using hcalls.symm
        · simpa [next, created, he, initialsOn, ServerStartup.next, hvw, Ne.symm hvw]
            using hcalls.symm
    | server b => exact hborn
  | addTask w m => simpa [next, initialsOn] using hborn
  | deliver w i a => exact hborn
  | task i a => exact hborn

omit [DecidableEq F] [DecidableEq T] [Inhabited Resp] in
theorem length_taskNext (tasks : List (Fin n × Task.Frame R Req Resp)) (i : Nat)
    (a : Task.Action R Req Resp) :
    (ServerTasks.taskNext tasks i a).length = tasks.length := by
  unfold ServerTasks.taskNext
  split <;> simp

/-- A task is created. -/
theorem AllMade.append {born : List (Fin n × Option I)}
    {tasks : List (Fin n × Task.Frame R Req Resp)} (h : AllMade method born tasks)
    (hlen : born.length = tasks.length) (w : Fin n) (e : Option I) (m : RpcMethodType)
    (hm : ∀ x ∈ e, m = method x) :
    AllMade method (born ++ [(w, e)]) (tasks ++ [(w, .init m)]) := by
  intro i b q hb hq
  rcases Nat.lt_or_ge i tasks.length with hi | hi
  · rw [List.getElem?_append_left (hlen ▸ hi)] at hb
    rw [List.getElem?_append_left hi] at hq
    exact h i b q hb hq
  · rw [List.getElem?_append_right (hlen ▸ hi)] at hb
    rw [List.getElem?_append_right hi] at hq
    obtain rfl : b = (w, e) := List.mem_singleton.mp (List.mem_of_getElem? hb)
    obtain rfl : q = (w, .init m) := List.mem_singleton.mp (List.mem_of_getElem? hq)
    exact ⟨rfl, fun x hx => ⟨[], by rw [hm x hx]; rfl⟩⟩

/-- A task steps. -/
theorem AllMade.taskNext {born : List (Fin n × Option I)}
    {tasks : List (Fin n × Task.Frame R Req Resp)} (h : AllMade method born tasks) {k : Nat}
    {a : Task.Action R Req Resp} {r : Fin n × Task.Frame R Req Resp} (hr : tasks[k]? = some r)
    (he : Task.Enabled r.2 a) : AllMade method born (ServerTasks.taskNext tasks k a) := by
  intro i b q hb hq
  rcases ServerTasks.getElem?_taskNext hr hq with hold | ⟨rfl, rfl⟩
  · exact h i b q hb hold
  · obtain ⟨hw, hruns⟩ := h i b r hb hr
    refine ⟨hw, fun e he' => ?_⟩
    obtain ⟨cs, hcs⟩ := hruns e he'
    exact ⟨cs ++ [a], run_concat.mpr ⟨r.2, hcs, he, rfl⟩⟩

theorem inv_step {a : Action F n T R Req Resp} (h : Inv method cqinits s)
    (hs : step method s a = some s') : Inv method cqinits s' := by
  have hstartup := startup_step h.startup hs
  have hinitials := initials_step h.initials hs
  obtain ⟨he, rfl⟩ := stepOf_eq_some.mp hs
  cases a with
  | startup a =>
    cases hc : created s.startup a with
    | none =>
      simp only [next, hc] at hstartup hinitials ⊢
      exact ⟨hstartup, hinitials, h.born, h.made⟩
    | some c =>
      simp only [next, hc] at hstartup hinitials ⊢
      exact ⟨hstartup, hinitials, by simp [h.born],
        h.made.append h.born c.1 (some c.2) _ (by simp)⟩
  | addTask w m =>
    exact ⟨hstartup, hinitials, by simp [next, h.born],
      h.made.append h.born w none m (by simp)⟩
  | deliver w i a =>
    obtain ⟨-, -, -, q, hq, -, hf⟩ := he
    exact ⟨hstartup, hinitials, h.born.trans (length_taskNext _ _ _).symm,
      h.made.taskNext hq hf⟩
  | task i a =>
    obtain ⟨-, -, -, q, hq, hf⟩ := he
    exact ⟨hstartup, hinitials, h.born.trans (length_taskNext _ _ _).symm,
      h.made.taskNext hq hf⟩

/-- The server and its tasks go their own way. -/
theorem becomes_step {a : Action F n T R Req Resp} (h : Inv method cqinits s)
    (hs : step method s a = some s') :
    Becomes ServerTasks.step (view s) (view s') (label method s a) := by
  obtain ⟨he, rfl⟩ := stepOf_eq_some.mp hs
  cases a with
  | startup a =>
    cases a with
    | launch =>
      simp only [label, Becomes, next, created, ServerStartup.next, ServerStartup.launchNext, view]
      split <;> rfl
    | worker w =>
      obtain ⟨⟨-, hstarting⟩, -⟩ := he
      have hw := h.startup.starting w hstarting.2.1
      have hserver := server_workerNext s.startup w
      by_cases hon : comesOnline s.startup w = true
      · have hnone := invoked_of_comesOnline hon
        rw [if_pos hon] at hserver
        simp only [label, hon, if_true, Becomes]
        refine stepOf_eq_some.mpr ⟨⟨⟨hstarting.2.2.2, hw, hstarting.2.2.1⟩, ?_⟩, ?_⟩
        · simp [ServerTasks.leaves]
        · simp [view, next, created, hnone, ServerStartup.next, ServerTasks.next, hserver]
      · rw [if_neg hon] at hserver
        cases hinv : invoked s.startup w with
        | none =>
          simp [label, hon, hinv, Becomes, view, next, created, ServerStartup.next, hserver]
        | some e =>
          simp only [label, hon, hinv, Option.map_some, Becomes]
          refine stepOf_eq_some.mpr ⟨⟨hstarting.2.2.2, by simp [view, hw]⟩, ?_⟩
          simp [view, next, created, hinv, ServerStartup.next, ServerTasks.next, hserver]
    | server a => exact stepOf_eq_some.mpr ⟨he.2 a rfl, rfl⟩
  | addTask w m => exact stepOf_eq_some.mpr ⟨he.2, rfl⟩
  | deliver w i a => exact stepOf_eq_some.mpr ⟨he.2, rfl⟩
  | task i a => exact stepOf_eq_some.mpr ⟨he.2, rfl⟩

/-- From the constructor to the return of `stop`, under any schedule: every worker has run every
initializer once and in order on its queue, and every task, theirs and those the bodies have
created, has been destroyed once and has issued a Finish for each RPC it was handed, once each
and in their order. -/
theorem served_until_stopped {as : List (Action F n T R Req Resp)}
    (hin : Guarded (step method) (InHandler method) (.init cqinits) as)
    (hr : run (step method) (.init cqinits) as = some s)
    (hs : s.startup.server.stop = .stopped) :
    (∀ w, initialsOn s w = cqinits) ∧ s.born.length = s.tasks.length ∧
    ∀ (i : Nat) (b : Fin n × Option I) (q : Fin n × Task.Frame R Req Resp),
      s.born[i]? = some b → s.tasks[i]? = some q →
      b.1 = q.1 ∧ q.2.point = .destroyed ∧ q.2.destroys = 1 ∧
      ∃ m, (∀ e ∈ b.2, m = method e) ∧
        run Task.step (.init m) (as.filterMap (actOn i)) = some q.2 ∧
        ((as.filterMap (actOn i)).filterMap Task.arrival).Nodup ∧
        (labels Task.step Task.answer (.init m) (as.filterMap (actOn i))).map Prod.fst =
          (as.filterMap (actOn i)).filterMap Task.arrival := by
  have hI : ∀ (s : State I F n T R Req Resp) a s', Inv method cqinits s →
      step method s a = some s' →
      Inv method cqinits s' := fun _ _ _ => inv_step
  have hview : ∀ (s : State I F n T R Req Resp) a s', Inv method cqinits s →
      step method s a = some s' →
      Becomes ServerTasks.step (view s) (view s') (label method s a) := fun _ _ _ => becomes_step
  have hinv : Inv method cqinits s := inv_of_run (inv_init cqinits) hI hr
  have hrun := run_labels_of_inv hI hview (inv_init cqinits) hr
  have hhandler := (guarded_labels_of_inv hI hview (inv_init cqinits) as).mpr hin
  refine ⟨fun w => ?_, hinv.born, fun i b q hb hq => ?_⟩
  · rw [hinv.initials w]
    exact hinv.startup.callsOn_of_stopped hs w
  · have hgone := ServerTasks.gone_of_stopped hhandler hrun hs q (List.mem_of_getElem? hq)
    obtain ⟨m, hm⟩ := ServerTasks.task_run hrun hq
    rw [filterMap_labels (actOn_label method i) hr] at hm
    obtain ⟨hw, hmade⟩ := hinv.made i b q hb hq
    refine ⟨hw, hgone.1, hgone.2, m, fun e he => ?_, hm, Task.answered_of_destroyed hm hgone.1⟩
    obtain ⟨cs, hcs⟩ := hmade e he
    rw [← (Task.traced_run hm).method, ← (Task.traced_run hcs).method]

/-- The worker runs the one initializer and serves an RPC, whose body creates a second task. -/
def startServeStop (w : Fin 1) : List (Action Nat 1 Unit Nat Unit Unit) :=
  [.startup .launch, .startup (.worker w), .startup (.worker w), .startup (.worker w),
    .startup (.worker w), .startup (.worker w), .startup (.worker w), .startup (.worker w),
    .deliver w 0 (.request (some (0, ()))), .task 0 (.authenticate {}), .addTask w .unary,
    .task 0 (.coReturn {}), .startup (.server (.endEvent w)), .startup (.server .stop),
    .startup (.server .stop), .deliver w 1 (.request none), .startup (.server (.endEvent w)),
    .startup (.server .stop), .startup (.server .stop), .deliver w 0 (.done 0 true),
    .startup (.server (.endEvent w)), .deliver w 0 (.complete .final true),
    .startup (.server (.endEvent w)), .startup (.server (.exit w)), .startup (.server .stop),
    .startup (.server .stop), .startup (.server .stop)]

theorem startServeStop_served : ∃ s,
    run (step fun _ => .unary) (.init ["task"]) (startServeStop 0) = some s ∧
    s.tasks.length = 2 ∧ initialsOn s 0 = ["task"] := by
  have hin : Guarded (step fun _ => .unary) (InHandler fun _ => .unary) (.init ["task"])
    (startServeStop 0) := by decide
  have hr : run (step fun _ => .unary) (.init ["task"]) (startServeStop 0) = some _ := rfl
  exact ⟨_, hr, rfl, (served_until_stopped hin hr rfl).1 0⟩

end
end AsyncppGrpc.ServerLife
