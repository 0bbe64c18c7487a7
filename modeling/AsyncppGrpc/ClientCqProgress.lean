import AsyncppGrpc.ClientCqShutdown
import AsyncppGrpc.Library.Outstanding

/-! `~client_cq` returns: what has been pushed and started is used up, and until the worker
has been joined there is a next statement or an event to take. -/
namespace AsyncppGrpc.ClientCq
open Run
variable {F T : Type*}

/-- The statements left of a `push` that has begun, with those of the `handle_event` it may
cause. -/
def pushWork : Option (PushPc F) → Nat
  | none => 0
  | some (.emplace _) => 8
  | some .testAndSet => 5
  | some .set => 4

/-- The statements left until the worker is past its loop, as if its queues were empty. -/
def workerWork : WorkerPc F → Nat
  | .exited => 0
  | .next => 1
  | .event | .pop => 2
  | .clear | .call _ => 3

def dtorWork : DtorPc → Nat
  | .live => 2
  | .join => 1
  | .joined => 0

def faultWork : Option Fault → Nat
  | none => 1
  | some _ => 0

/-- What a step brings in: a push with the dispatch it may cause, or the event of another
tag. -/
def brings : Action F T → Nat
  | .beginPush _ _ => 9
  | .nextEvent => 2
  | _ => 0

def begins : Action F T → Bool
  | .beginPush _ _ => true
  | _ => false

/-- The only queue, if the step takes an event other than the alarm's. -/
def takes : Action F T → Option Unit
  | .nextEvent => some ()
  | _ => none

/-- `Next` returns false when nothing is outstanding on the queue. -/
def Permits (o : Unit → Nat) : Action F T → Prop
  | .exit => o () = 0
  | _ => True

instance (o : Unit → Nat) (a : Action F T) : Decidable (Permits o a) :=
  match a with
  | .exit => inferInstanceAs (Decidable (o () = 0))
  | .beginPush _ _ | .push _ | .nextAlarm | .nextEvent | .endEvent | .handleEvent | .destroy =>
    instDecidableTrue

/-- The queue is shut down once the destructor is past its first statement. -/
def Closed (s : State F T) : Prop := s.dtor ≠ .live → s.shutdown = true

/-- The destructor has joined the worker, or the process has been aborted. -/
def Ended (s : State F T) : Prop := s.dtor = .joined ∨ s.fault ≠ none

/-- The step begins no push; what it needs is there, and nothing it waits for is. -/
structure Goes (o : Unit → Nat) (s : State F T) (a : Action F T) : Prop where
  free : begins a = false
  enabled : Enabled s a
  event : ∀ k ∈ takes a, 0 < o k
  permitted : Permits o a

/-- The worker of a queue that is shut down has a statement left until it is past its loop, or
an event to take. -/
theorem worker_goes {s : State F T} (hf : s.fault = none) (hsh : s.shutdown = true)
    (hw : s.worker ≠ .exited) (o : Unit → Nat) : ∃ a, Goes o s a := by
  by_cases hp : s.pushing .worker = none
  · cases hpc : s.worker with
    | event => exact ⟨.endEvent, rfl, ⟨hf, hpc, hp⟩, by simp [takes], trivial⟩
    | next =>
      by_cases hal : s.alarms = 0
      · by_cases hev : 0 < o ()
        · exact ⟨.nextEvent, rfl, ⟨hf, hpc⟩, fun _ _ => hev, trivial⟩
        · exact ⟨.exit, rfl, ⟨hf, hpc, hsh, hal⟩, by simp [takes], Nat.eq_zero_of_not_pos hev⟩
      · exact ⟨.nextAlarm, rfl, ⟨hf, hpc, hal⟩, by simp [takes], trivial⟩
    | exited => exact absurd hpc hw
    | _ =>
      have hin : s.worker.inHandleEvent := by simp [hpc, WorkerPc.inHandleEvent]
      exact ⟨.handleEvent, rfl, ⟨hf, hin, hp⟩, by simp [takes], trivial⟩
  · exact ⟨.push .worker, rfl, ⟨hf, hp⟩, by simp [takes], trivial⟩

/-- As long as the destructor has not joined the worker, it or the worker has a next statement
or an event to take. -/
theorem dtor_goes {s : State F T} (h : Closed s) (hf : s.fault = none) (hs : s.dtor ≠ .joined)
    (o : Unit → Nat) : ∃ a, Goes o s a := by
  by_cases hj : s.dtor = .join → s.worker = .exited
  · exact ⟨.destroy, rfl, ⟨hf, hs, hj⟩, by simp [takes], trivial⟩
  · obtain ⟨hjoin, hw⟩ := Classical.not_imp.mp hj
    exact worker_goes hf (h (by simp [hjoin])) hw o

/-- When the worker is joined only a new push can go on. -/
theorem DtorInv.stuck {s : State F T} (h : DtorInv s) (hs : s.dtor = .joined) {a : Action F T}
    (hfree : begins a = false) : ¬Enabled s a := by
  have hw := h.joined hs
  intro he
  cases a with
  | beginPush t fn => simp [begins] at hfree
  | push t => exact he.2 (h.not_pushing hw t)
  | destroy => exact he.2.1 hs
  | _ => simp [Enabled, hw, WorkerPc.inHandleEvent] at he

section
variable [DecidableEq F] [DecidableEq T]

theorem closed_step {s s' : State F T} {a : Action F T} (h : Closed s)
    (hs : step s a = some s') : Closed s' := by
  obtain ⟨⟨-, he⟩, rfl⟩ := stepOf_eq_some.mp hs
  cases a with
  | push t => simpa [Closed, next] using h
  | handleEvent => simpa [Closed, next] using h
  | destroy =>
    cases hd : s.dtor with
    | live => simp [Closed, next, destroyNext, hd]
    | join => simpa [Closed, next, destroyNext, hd] using h
    | joined => exact absurd hd he.1
  | _ => exact h

end

variable [Fintype T]

/-- The statements the queue can still execute on what it has. -/
def work (s : State F T) : Nat :=
  dtorWork s.dtor + faultWork s.fault + 2 * s.dispatched.length + 3 * s.alarms +
    workerWork s.worker + ∑ t, pushWork (s.pushing t)

theorem work_handleEvent {s : State F T} (he : s.worker.inHandleEvent) :
    work (handleEventNext s) + 1 ≤ work s := by
  cases hw : s.worker with
  | clear => simp only [handleEventNext, hw, work, workerWork]; omega
  | pop =>
    cases hq : s.dispatched with
    | nil => simp only [handleEventNext, hw, hq, work, workerWork]; omega
    | cons task q =>
      cases task <;> simp only [handleEventNext, hw, hq, work, workerWork, List.length_cons] <;>
        omega
  | call task => simp only [handleEventNext, hw, work, workerWork]; omega
  | _ => simp [hw, WorkerPc.inHandleEvent] at he

variable [DecidableEq T]

theorem work_pushing (s : State F T) (t : Thread T) (pc : Option (PushPc F)) :
    work { s with pushing := Function.update s.pushing t pc } + pushWork (s.pushing t) =
      work s + pushWork pc := by
  have hsum := Update.sum_update pushWork s.pushing t pc
  simp only [work]
  omega

theorem work_push {s : State F T} (hf : s.fault = none) {t : Thread T}
    (he : s.pushing t ≠ none) : work (pushNext s t) + 1 ≤ work s := by
  have hmove := work_pushing s t
  cases hp : s.pushing t with
  | none => exact absurd hp he
  | some pc =>
    rw [hp] at hmove
    cases pc with
    | emplace fn =>
      have hend : _ + 8 = _ + 5 := hmove (some .testAndSet)
      simp only [pushNext, hp, work, List.length_append, List.length_singleton] at hend ⊢
      omega
    | testAndSet =>
      have hend := hmove (if s.alarmSet then none else some .set)
      simp only [pushNext, hp, work] at hend ⊢
      cases hset : s.alarmSet with
      | true =>
        simp only [hset, if_true] at hend ⊢
        change _ + 5 = _ + 0 at hend
        omega
      | false =>
        simp only [hset, Bool.false_eq_true, if_false] at hend ⊢
        change _ + 5 = _ + 4 at hend
        omega
    | set =>
      cases hsh : s.shutdown with
      | true =>
        simp only [pushNext, hp, hsh, work, hf, faultWork, if_true]
        omega
      | false =>
        have hend : _ + 4 = _ + 0 := hmove none
        simp only [pushNext, hp, hsh, work, Bool.false_eq_true, if_false] at hend ⊢
        omega

variable [DecidableEq F]

theorem work_step : Progress.Pays (step (F := F) (T := T)) work brings := by
  intro s a s' hs
  obtain ⟨⟨hf, he⟩, rfl⟩ := stepOf_eq_some.mp hs
  cases a with
  | beginPush t fn =>
    have hbegin := work_pushing s t (some (.emplace fn))
    change _ = _ + 8 at hbegin
    simp only [next, brings]
    omega
  | push t => exact work_push hf he
  | nextAlarm =>
    simp only [next, brings, work, he.1, workerWork]
    have hpos := he.2
    omega
  | nextEvent =>
    have hw : s.worker = .next := he
    simp only [next, brings, work, hw, workerWork]
    omega
  | endEvent =>
    simp only [next, brings, work, he.1, workerWork]
    omega
  | handleEvent => exact work_handleEvent he.1
  | exit =>
    simp only [next, brings, work, he.1, workerWork]
    omega
  | destroy =>
    cases hd : s.dtor with
    | joined => exact absurd hd he.1
    | _ =>
      simp only [next, destroyNext, hd, brings, work, dtorWork]
      omega

/-- A queue with what is outstanding on it for other tags. -/
abbrev Loaded (F T : Type*) := Outstanding.State Unit (State F T)

def loadedStep : Loaded F T → Outstanding.Action Unit (Action F T) → Option (Loaded F T) :=
  Outstanding.step takes (fun s => Permits s.outstanding) step

/-- A push pays for its dispatch, and the start of an operation for its event. -/
def charge : Outstanding.Action Unit (Action F T) → Nat := Outstanding.charge takes 2 brings

def load (s : Loaded F T) : Nat := Outstanding.load work 2 s

omit [Fintype T] [DecidableEq T] [DecidableEq F] in
theorem charge_act {a : Action F T} : charge (.act a) = 0 ↔ begins a = false := by
  cases a <;> simp [charge, Outstanding.charge, takes, brings, begins]

theorem load_step : Progress.Pays (loadedStep (F := F) (T := T)) load charge := by
  refine Outstanding.pays work_step fun a ha => ?_
  cases a <;> simp_all [takes, brings]

omit [Fintype T] in
theorem Goes.exists_step {s : Loaded F T} {a : Action F T}
    (h : Goes s.outstanding s.machine a) : ∃ b t, charge b = 0 ∧ loadedStep s b = some t := by
  have hready : Outstanding.Ready takes (fun u : Loaded F T => Permits u.outstanding) s a :=
    ⟨h.event, h.permitted⟩
  obtain ⟨t, ht⟩ := Outstanding.exists_step next h.enabled hready
  exact ⟨.act a, t, charge_act.mpr h.free, ht⟩

omit [Fintype T] in
theorem DtorInv.loadedStep_eq_none {s : Loaded F T} (h : DtorInv s.machine)
    (hs : s.machine.dtor = .joined) {b : Outstanding.Action Unit (Action F T)}
    (hfree : charge b = 0) : loadedStep s b = none := by
  refine Option.eq_none_iff_forall_ne_some.mpr fun t ht => ?_
  cases b with
  | start k => simp [charge, Outstanding.charge] at hfree
  | act a =>
    obtain ⟨-, m, hm, -⟩ := Outstanding.step_act.mp ht
    exact h.stuck hs (charge_act.mp hfree) (stepOf_eq_some.mp hm).1

/-- Neither a deadlock nor a livelock, with any operations of other tags outstanding on the
queue. A run has at most 4 steps, and 9 for each push that begins and 3 for each operation that
is started. As long as the destructor is not past its `join` there is a next step that begins no
push and starts no operation, and such steps alone get it there, unless one of them is fatal. If
the other threads are out of `push` when it begins, none of them is left exactly when it is past
its `join` and what has been pushed has run. -/
theorem destroy_returns {as : List (Outstanding.Action Unit (Action F T))} {s : Loaded F T}
    (hr : run loadedStep (.init .init) as = some s) :
    as.length + load s ≤ 4 + Progress.brought charge as ∧
    (¬Ended s.machine → ∃ a t, charge a = 0 ∧ loadedStep s a = some t) ∧
    (∃ bs t, (∀ a ∈ bs, charge a = 0) ∧ run loadedStep s bs = some t ∧ Ended t.machine) ∧
    (Guarded loadedStep (Outstanding.OnMachine ExternalBefore) (.init .init) as →
      s.machine.fault = none → ((∀ a, charge a = 0 → loadedStep s a = none) ↔
        s.machine.dtor = .joined ∧ s.machine.ran.Perm s.machine.pushed.reduceOption)) := by
  have hmachine := Outstanding.machine_run hr
  have hclosed : Closed s.machine := by
    apply inv_of_run _ (fun _ _ _ => closed_step) hmachine
    exact fun h => absurd rfl h
  have hgo : ∀ u : Loaded F T, Closed u.machine → ¬Ended u.machine →
      ∃ a t, charge a = 0 ∧ loadedStep u a = some t := by
    intro u h hne
    obtain ⟨hs, hf⟩ := not_or.mp hne
    obtain ⟨a, ha⟩ := dtor_goes h (not_not.mp hf) hs u.outstanding
    exact ha.exists_step
  refine ⟨?_, hgo s hclosed, ?_, fun henv hf => ?_⟩
  · have hinit : load (.init .init : Loaded F T) = 4 := by
      simp [load, Outstanding.load, Outstanding.State.init, work, State.init, dtorWork, faultWork,
        workerWork, pushWork]
    rw [← hinit]
    exact load_step.length_le hr
  · refine load_step.exists_done (P := fun u => Closed u.machine) ?_ hgo hclosed
    exact fun u a v => Outstanding.inv_machine (fun _ _ _ => closed_step)
  · have hinv : DtorInv s.machine :=
      inv_of_step dtorInv_init (fun _ _ _ => dtorInv_step)
        ((Outstanding.guarded_machine _ as).mpr henv) hmachine
    constructor
    · intro hstuck
      have hs : s.machine.dtor = .joined := by
        by_contra hs
        obtain ⟨a, t, hfree, ht⟩ := hgo s hclosed (by simp [Ended, hs, hf])
        simp [hstuck a hfree] at ht
      exact ⟨hs, (ran_of_quiescent hmachine (hinv.quiescent hs)).2⟩
    · exact fun hs a hfree => hinv.loadedStep_eq_none hs.1 hfree

/-- A push, and an operation that is still outstanding when the destructor begins. -/
def workThenDestroy : List (Outstanding.Action Unit (Action Nat Unit)) :=
  [.act (.beginPush (.external ()) (some 7)), .act (.push (.external ())),
    .act (.push (.external ())), .act (.push (.external ())), .start (), .act .destroy,
    .act .nextAlarm, .act .handleEvent, .act .handleEvent, .act .handleEvent, .act .handleEvent,
    .act .nextEvent, .act .endEvent, .act .exit, .act .destroy]

theorem workThenDestroy_returns : ∃ s, run loadedStep (.init .init) workThenDestroy = some s ∧
    workThenDestroy.length + load s ≤ 16 ∧ s.machine.ran = [7] ∧
    ∀ a, charge a = 0 → loadedStep s a = none := by
  have henv : Guarded loadedStep (Outstanding.OnMachine ExternalBefore) (.init .init)
      workThenDestroy := by decide
  have hr : run loadedStep (.init .init) workThenDestroy = some _ := rfl
  obtain ⟨hlen, -, -, hstuck⟩ := destroy_returns hr
  exact ⟨_, hr, hlen, rfl, (hstuck henv rfl).mpr ⟨rfl, by decide⟩⟩

end AsyncppGrpc.ClientCq
