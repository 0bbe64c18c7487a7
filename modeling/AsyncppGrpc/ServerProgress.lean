import AsyncppGrpc.ServerStop
import AsyncppGrpc.Library.Outstanding

/-! `server::stop` returns. Neither the dispatcher nor `stop` can go on for ever on what has
been pushed and started, and as long as `stop` has not returned there is a next statement or an
event to take. -/
namespace AsyncppGrpc.Server
open Run
variable {F T : Type*} {n : Nat}

/-- The statements left of a `push` that has begun, with those of the `handle_event` it may
cause. -/
def pushWork : Option (PushPc F) → Nat
  | none => 0
  | some (.emplace _ _) => 9
  | some (.exchange _) => 6
  | some (.set _) => 5

/-- The statements left until the worker is past its loop, as if its queues were empty. -/
def workerWork : WorkerPc F → Nat
  | .exited => 0
  | .next => 1
  | .starting | .event | .pop .second => 2
  | .store | .call .second _ => 3
  | .pop .first => 4
  | .call .first _ => 5

/-- The statements left of `stop`. -/
def stopWork (n cqs : Nat) : StopPc → Nat
  | .running => cqs + n + 5
  | .shutdownServer => cqs + n + 4
  | .shutdownCq k => cqs - k + n + 3
  | .join k => n - k + 2
  | .clear => 1
  | .stopped => 0

/-- What a step brings in: a push with the dispatch it may cause, or the event of another
tag. -/
def brings : Action F n T → Nat
  | .beginPush _ _ _ => 10
  | .nextEvent _ => 2
  | _ => 0

def begins : Action F n T → Bool
  | .beginPush _ _ _ => true
  | _ => false

/-- The queue whose event a step takes, the alarm's apart. -/
def takes : Action F n T → Option (Fin n)
  | .nextEvent w => some w
  | _ => none

/-- `Next` returns false when nothing is outstanding on its queue, and `m_server->Shutdown()`
returns when it `mayReturn`; `o` is what is outstanding on the queues. -/
def Permits (mayReturn : Prop) (o : Fin n → Nat) (s : State F n T) : Action F n T → Prop
  | .exit w => o w = 0
  | .stop => s.stop = .shutdownServer → mayReturn
  | _ => True

instance (mayReturn : Prop) [Decidable mayReturn] (o : Fin n → Nat) (s : State F n T)
    (a : Action F n T) : Decidable (Permits mayReturn o s a) :=
  match a with
  | .exit w => inferInstanceAs (Decidable (o w = 0))
  | .stop => inferInstanceAs (Decidable (s.stop = .shutdownServer → mayReturn))
  | .beginPush _ _ _ | .push _ | .online _ | .nextAlarm _ | .nextEvent _ | .endEvent _
  | .handleEvent _ => instDecidableTrue

theorem stopWork_stopNext {s : State F n T} (hs : s.stop ≠ .stopped) :
    stopWork n (stopNext s).cqs (stopNext s).stop + 1 ≤ stopWork n s.cqs s.stop := by
  cases hpc : s.stop with
  | stopped => exact absurd hpc hs
  | shutdownCq k =>
    by_cases hk : k < s.cqs
    · simp only [stopNext, hpc, hk, if_true, stopWork]
      omega
    · simp only [stopNext, hpc, hk, if_false, stopWork]
      omega
  | join k =>
    by_cases hk : k < n
    · simp only [stopNext, hpc, hk, if_true, stopWork]
      omega
    · simp only [stopNext, hpc, hk, if_false, stopWork]
      omega
  | _ => simp [stopNext, hpc, stopWork]

/-- `stop` has returned, or the process has been aborted. -/
def Ended (s : State F n T) : Prop := s.stop = .stopped ∨ s.fault ≠ none

/-- The step begins no push; what it needs is there, and nothing it waits for is. -/
structure Goes (mayReturn : Prop) (o : Fin n → Nat) (s : State F n T) (a : Action F n T) :
    Prop where
  free : begins a = false
  enabled : Enabled s a
  event : ∀ w ∈ takes a, 0 < o w
  permitted : Permits mayReturn o s a

/-- A worker with an event outstanding, or whose queue is shut down, has a statement left until
it is past its loop. -/
theorem worker_goes {s : State F n T} (hf : s.fault = none) {w : Fin n} {o : Fin n → Nat}
    (ho : s.shutdown w = true ∨ 0 < o w) (hw : s.worker w ≠ .exited) (mayReturn : Prop) :
    ∃ a, Goes mayReturn o s a := by
  by_cases hp : s.pushing (.worker w) = none
  · cases hpc : s.worker w with
    | starting => exact ⟨.online w, rfl, ⟨hf, hpc, hp⟩, by simp [takes], trivial⟩
    | event => exact ⟨.endEvent w, rfl, ⟨hf, hpc, hp⟩, by simp [takes], trivial⟩
    | next =>
      by_cases hal : w.val ∈ s.alarms
      · exact ⟨.nextAlarm w, rfl, ⟨hf, hpc, hal⟩, by simp [takes], trivial⟩
      · by_cases hev : 0 < o w
        · exact ⟨.nextEvent w, rfl, ⟨hf, hpc⟩, by simpa [takes] using hev, trivial⟩
        · have hsh := ho.resolve_right hev
          exact ⟨.exit w, rfl, ⟨hf, hpc, hsh, hal⟩, by simp [takes], Nat.eq_zero_of_not_pos hev⟩
    | exited => exact absurd hpc hw
    | _ =>
      have hin : (s.worker w).inHandleEvent := by simp [hpc, WorkerPc.inHandleEvent]
      exact ⟨.handleEvent w, rfl, ⟨hf, hin, hp⟩, by simp [takes], trivial⟩
  · exact ⟨.push (.worker w), rfl, ⟨hf, hp⟩, by simp [takes], trivial⟩

/-- As long as `stop` has not returned, it has a next statement, or a worker that it waits for
has one: the worker it joins, or while `m_server->Shutdown()` does not return one with an event
outstanding. -/
theorem stop_goes {s : State F n T} (h : Attended s) (hf : s.fault = none)
    (hs : s.stop ≠ .stopped) {mayReturn : Prop} {o : Fin n → Nat}
    (hreturn : (∀ w, o w = 0) → mayReturn) : ∃ a, Goes mayReturn o s a := by
  by_cases hj : ∀ w : Fin n, s.stop = .join w → s.worker w = .exited
  · by_cases hret : s.stop = .shutdownServer → mayReturn
    · exact ⟨.stop, rfl, ⟨hf, hs, hj⟩, by simp [takes], hret⟩
    · obtain ⟨hstop, hnot⟩ := Classical.not_imp.mp hret
      obtain ⟨w, hw⟩ := not_forall.mp fun hall => hnot (hreturn hall)
      refine worker_goes hf (.inr (Nat.pos_of_ne_zero hw)) (fun hex => ?_) mayReturn
      have hpast := (h.shutdown w w.isLt).mp (h.exited w hex)
      simp [hstop, Past] at hpast
  · simp only [not_forall] at hj
    obtain ⟨w, hstop, hw⟩ := hj
    have hsh := (h.shutdown w w.isLt).mpr (by simp [hstop, Past])
    exact worker_goes hf (.inl hsh) hw mayReturn

/-- When `stop` has returned only a new push can go on. -/
theorem StopInv.stuck {s : State F n T} (h : StopInv s) (hs : s.stop = .stopped)
    {a : Action F n T} (hfree : begins a = false) : ¬Enabled s a := by
  have hpush := h.not_pushing hs
  have hex : ∀ w, s.worker w = .exited := fun w => h.joined w (by simp [hs, Joined])
  intro he
  cases a with
  | beginPush t fn k => simp [begins] at hfree
  | push t => exact he.2 (hpush t)
  | stop => exact he.2.1 hs
  | _ => simp [Enabled, hex, WorkerPc.inHandleEvent] at he

/-- Nothing happens after a fault. -/
def faultWork : Option Fault → Nat
  | none => 1
  | some _ => 0

theorem stopNext_dispatchQueue (s : State F n T) :
    (stopNext s).dispatchQueue = s.dispatchQueue := by
  unfold stopNext
  repeat' split
  all_goals rfl

variable [Fintype T]

/-- The statements the server can still execute on what it has. -/
def work (s : State F n T) : Nat :=
  stopWork n s.cqs s.stop + faultWork s.fault + 2 * s.dispatchQueue.length +
    4 * s.alarms.length + ∑ w, workerWork (s.worker w) + ∑ t, pushWork (s.pushing t)

theorem work_init : work (.init : State F n T) = 4 * n + 6 := by
  simp [work, State.init, stopWork, faultWork, workerWork, pushWork]
  omega

/-- A worker moves, and leaves everything else alone. -/
theorem work_move (s : State F n T) (w : Fin n) (p : WorkerPc F) :
    work { s with worker := Function.update s.worker w p } + workerWork (s.worker w) =
      work s + workerWork p := by
  have hsum := Update.sum_update workerWork s.worker w p
  simp only [work]
  omega

theorem work_handleEvent {s : State F n T} {w : Fin n} (he : (s.worker w).inHandleEvent) :
    work (handleEventNext s w) + 1 ≤ work s := by
  have hmove := work_move s w
  cases hw : s.worker w with
  | pop loop =>
    simp only [hw] at hmove
    cases hq : s.dispatchQueue with
    | nil =>
      simp only [handleEventNext, hw, hq]
      cases loop with
      | first =>
        have hstore : _ + 4 = _ + 3 := hmove .store
        simp only [work, hq] at hstore ⊢
        omega
      | second =>
        have hnext : _ + 2 = _ + 1 := hmove .next
        simp only [work, hq] at hnext ⊢
        omega
    | cons cb q =>
      cases cb with
      | none =>
        simp only [handleEventNext, hw, hq, work, List.length_cons]
        omega
      | some cb =>
        have hcall := hmove (.call loop cb)
        simp only [handleEventNext, hw, hq, work, List.length_cons] at hcall ⊢
        cases loop with
        | first =>
          change _ + 4 = _ + 5 at hcall
          omega
        | second =>
          change _ + 2 = _ + 3 at hcall
          omega
  | call loop cb =>
    have hpop := hmove (.pop loop)
    simp only [handleEventNext, hw, work] at hpop ⊢
    cases loop with
    | first =>
      change _ + 5 = _ + 4 at hpop
      omega
    | second =>
      change _ + 3 = _ + 2 at hpop
      omega
  | store =>
    have hpop := hmove (.pop .second)
    simp only [handleEventNext, hw, work] at hpop ⊢
    change _ + 3 = _ + 2 at hpop
    omega
  | _ => simp [hw, WorkerPc.inHandleEvent] at he

variable [DecidableEq T]

theorem work_pushing (s : State F n T) (t : Thread n T) (pc : Option (PushPc F)) :
    work { s with pushing := Function.update s.pushing t pc } + pushWork (s.pushing t) =
      work s + pushWork pc := by
  have hsum := Update.sum_update pushWork s.pushing t pc
  simp only [work]
  omega

theorem work_push {s : State F n T} (hf : s.fault = none) {t : Thread n T}
    (he : s.pushing t ≠ none) : work (pushNext s t) + 1 ≤ work s := by
  have hmove := work_pushing s t
  cases hp : s.pushing t with
  | none => exact absurd hp he
  | some pc =>
    rw [hp] at hmove
    cases pc with
    | emplace fn k =>
      have hexchange : _ + 9 = _ + 6 := hmove (some (.exchange k))
      simp only [pushNext, hp, work, List.length_append, List.length_singleton] at hexchange ⊢
      omega
    | exchange k =>
      have hend := hmove (if s.dispatchNeedAlarm then some (.set k) else none)
      simp only [pushNext, hp, work] at hend ⊢
      cases hneed : s.dispatchNeedAlarm with
      | true =>
        simp only [hneed, if_true] at hend ⊢
        change _ + 6 = _ + 5 at hend
        omega
      | false =>
        simp only [hneed, Bool.false_eq_true, if_false] at hend ⊢
        change _ + 6 = _ + 0 at hend
        omega
    | set k =>
      by_cases hk : s.cqs = 0
      · simp only [pushNext, hp, hk, work, hf, faultWork, if_true]
        omega
      · cases hs : s.shutdown (k % s.cqs) with
        | true =>
          simp only [pushNext, hp, hk, hs, work, hf, faultWork, if_false, if_true]
          omega
        | false =>
          have hend : _ + 5 = _ + 0 := hmove none
          simp only [pushNext, hp, hk, hs, work, if_false, List.length_append,
            List.length_singleton, Bool.false_eq_true] at hend ⊢
          omega

variable [DecidableEq F]

theorem work_step : Progress.Pays (step (F := F) (n := n) (T := T)) work brings := by
  intro s a s' hs
  obtain ⟨⟨hf, he⟩, rfl⟩ := stepOf_eq_some.mp hs
  cases a with
  | beginPush t fn k =>
    have hbegin := work_pushing s t (some (.emplace fn k))
    change _ = _ + 9 at hbegin
    simp only [next, brings]
    omega
  | push t => exact work_push hf he
  | online w =>
    have hmove := work_move s w .next
    rw [he.1] at hmove
    change _ + 2 = _ + 1 at hmove
    simp only [next, brings]
    omega
  | nextAlarm w =>
    have hmove := work_move s w (.pop .first)
    have hlen := List.length_erase_add_one he.2
    rw [he.1] at hmove
    change _ + 1 = _ + 4 at hmove
    simp only [next, brings, work] at hmove ⊢
    omega
  | nextEvent w =>
    have hmove := work_move s w .event
    rw [show s.worker w = .next from he] at hmove
    change _ + 1 = _ + 2 at hmove
    simp only [next, brings]
    omega
  | endEvent w =>
    have hmove := work_move s w .next
    rw [he.1] at hmove
    change _ + 2 = _ + 1 at hmove
    simp only [next, brings]
    omega
  | handleEvent w => exact work_handleEvent he.1
  | exit w =>
    have hmove := work_move s w .exited
    rw [he.1] at hmove
    change _ + 1 = _ + 0 at hmove
    simp only [next, brings]
    omega
  | stop =>
    have hstop := stopWork_stopNext he.1
    simp only [next, brings, work, stopNext_frame, stopNext_dispatchQueue]
    omega

section
/-- A server with what its environment has outstanding on the queues. -/
abbrev Loaded (F : Type*) (n : Nat) (T : Type*) := Outstanding.State (Fin n) (State F n T)

variable (returns : Loaded F n T → Bool)

/-- The steps of the server when `m_server->Shutdown()` returns as `returns` says. -/
def loadedStep : Loaded F n T → Outstanding.Action (Fin n) (Action F n T) →
    Option (Loaded F n T) :=
  Outstanding.step takes (fun s => Permits (returns s = true) s.outstanding s.machine) step

/-- A push pays for its dispatch, and the start of an operation for its event. -/
def charge : Outstanding.Action (Fin n) (Action F n T) → Nat := Outstanding.charge takes 2 brings

def load (s : Loaded F n T) : Nat := Outstanding.load work 2 s

omit [Fintype T] [DecidableEq T] [DecidableEq F] in
theorem charge_act {a : Action F n T} : charge (.act a) = 0 ↔ begins a = false := by
  cases a <;> simp [charge, Outstanding.charge, takes, brings, begins]

theorem load_step : Progress.Pays (loadedStep returns) load charge := by
  refine Outstanding.pays work_step fun a ha => ?_
  cases a <;> simp_all [takes, brings]

variable {returns}

omit [Fintype T] in
theorem Goes.exists_step {s : Loaded F n T} {a : Action F n T}
    (h : Goes (returns s = true) s.outstanding s.machine a) :
    ∃ b t, charge b = 0 ∧ loadedStep returns s b = some t := by
  have hready : Outstanding.Ready takes
      (fun u : Loaded F n T => Permits (returns u = true) u.outstanding u.machine) s a :=
    ⟨h.event, h.permitted⟩
  obtain ⟨t, ht⟩ := Outstanding.exists_step next h.enabled hready
  exact ⟨.act a, t, charge_act.mpr h.free, ht⟩

omit [Fintype T] in
theorem StopInv.loadedStep_eq_none {s : Loaded F n T} (h : StopInv s.machine)
    (hs : s.machine.stop = .stopped) {b : Outstanding.Action (Fin n) (Action F n T)}
    (hfree : charge b = 0) : loadedStep returns s b = none := by
  refine Option.eq_none_iff_forall_ne_some.mpr fun t ht => ?_
  cases b with
  | start k => simp [charge, Outstanding.charge] at hfree
  | act a =>
    obtain ⟨-, m, hm, -⟩ := Outstanding.step_act.mp ht
    exact h.stuck hs (charge_act.mp hfree) (stepOf_eq_some.mp hm).1

/-- Neither a deadlock nor a livelock, with any operations of the environment outstanding on the
queues and `m_server->Shutdown()` returning as soon or as late as it may, at the latest when none
is. A run has at most `4 * n + 6` steps, and 10 for each push that begins and 3 for each
operation that is started. As long as `stop` has not returned there is a next step that begins no
push and starts no operation, and such steps alone bring `stop` to its return, unless one of them
is fatal. If the threads outside are out of `push` when `stop` begins, none of them is left
exactly when `stop` has returned and what has been pushed has run. -/
theorem stop_returns (hreturns : ∀ s : Loaded F n T, (∀ w, s.outstanding w = 0) → returns s = true)
    {as : List (Outstanding.Action (Fin n) (Action F n T))} {s : Loaded F n T}
    (hr : run (loadedStep returns) (.init .init) as = some s) :
    as.length + load s ≤ 4 * n + 6 + Progress.brought charge as ∧
    (¬Ended s.machine → ∃ a t, charge a = 0 ∧ loadedStep returns s a = some t) ∧
    (∃ bs t, (∀ a ∈ bs, charge a = 0) ∧ run (loadedStep returns) s bs = some t ∧
      Ended t.machine) ∧
    (Guarded (loadedStep returns) (Outstanding.OnMachine ExternalBefore) (.init .init) as →
      s.machine.fault = none → ((∀ a, charge a = 0 → loadedStep returns s a = none) ↔
        s.machine.stop = .stopped ∧ s.machine.ran.Perm s.machine.pushed.reduceOption)) := by
  have hmachine := Outstanding.machine_run hr
  have hattended := attended_run hmachine
  have hgo : ∀ u : Loaded F n T, Attended u.machine → ¬Ended u.machine →
      ∃ a t, charge a = 0 ∧ loadedStep returns u a = some t := by
    intro u h hne
    obtain ⟨hs, hf⟩ := not_or.mp hne
    obtain ⟨a, ha⟩ := stop_goes h (not_not.mp hf) hs (hreturns u)
    exact ha.exists_step
  refine ⟨?_, hgo s hattended, ?_, fun henv hf => ?_⟩
  · have hinit : load (.init .init : Loaded F n T) = 4 * n + 6 := by
      simp [load, Outstanding.load, Outstanding.State.init, work_init]
    rw [← hinit]
    exact (load_step returns).length_le hr
  · refine (load_step returns).exists_done (P := fun u => Attended u.machine) ?_ hgo hattended
    exact fun u a v => Outstanding.inv_machine (fun _ _ _ => attended_step)
  · have hinv : StopInv s.machine :=
      inv_of_step stopInv_init (fun _ _ _ => stopInv_step)
        ((Outstanding.guarded_machine _ as).mpr henv) hmachine
    constructor
    · intro hstuck
      have hs : s.machine.stop = .stopped := by
        by_contra hs
        obtain ⟨a, t, hfree, ht⟩ := hgo s hattended (by simp [Ended, hs, hf])
        simp [hstuck a hfree] at ht
      exact ⟨hs, (ran_of_quiescent hmachine (hinv.quiescent hs)).2⟩
    · exact fun hs a hfree => hinv.loadedStep_eq_none hs.1 hfree

/-- A push, an operation that is still outstanding when `stop` begins, and its event. -/
def workThenStop (w : Fin 1) : List (Outstanding.Action (Fin 1) (Action Nat 1 Unit)) :=
  [.act (.online w), .act (.beginPush (.external ()) (some 7) 0), .act (.push (.external ())),
    .act (.push (.external ())), .act (.push (.external ())), .start w, .act .stop,
    .act (.nextEvent w), .act (.endEvent w), .act .stop, .act .stop, .act (.nextAlarm w),
    .act (.handleEvent w), .act (.handleEvent w), .act (.handleEvent w), .act (.handleEvent w),
    .act (.handleEvent w), .act .stop, .act (.exit w), .act .stop, .act .stop, .act .stop]

/-- `m_server->Shutdown()` returns when nothing is outstanding. -/
def whenIdle (s : Loaded F n T) : Bool := decide (∀ w, s.outstanding w = 0)

theorem workThenStop_returns :
    ∃ s, run (loadedStep whenIdle) (.init .init) (workThenStop 0) = some s ∧
      (workThenStop 0).length + load s ≤ 23 ∧ s.machine.ran = [7] ∧
      ∀ a, charge a = 0 → loadedStep whenIdle s a = none := by
  have hreturns : ∀ s : Loaded Nat 1 Unit, (∀ w, s.outstanding w = 0) → whenIdle s = true :=
    fun s h => decide_eq_true h
  have henv : Guarded (loadedStep whenIdle) (Outstanding.OnMachine ExternalBefore) (.init .init)
      (workThenStop 0) := by decide
  have hr : run (loadedStep whenIdle) (.init .init) (workThenStop 0) = some _ := rfl
  obtain ⟨hlen, -, -, hstuck⟩ := stop_returns hreturns hr
  exact ⟨_, hr, hlen, rfl, (hstuck henv rfl).mpr ⟨rfl, by decide⟩⟩

end
end AsyncppGrpc.Server
