import AsyncppGrpc.ServerInitializers

/-! Initializers against `stop`, which shuts the queues down without looking at
`m_threads_online`. -/
namespace AsyncppGrpc.ServerStartup
open Run
variable {I F T : Type*} {n : Nat}

/-- No initializer has been invoked with a queue that was shut down. -/
def NoLateCall (s : State I F n T) : Prop := s.late = []

/-- Worker `w` has some of `len` initializers left to invoke. -/
def Remaining (len : Nat) (s : State I F n T) (w : Fin n) : Prop :=
  (s.worker w).begun len < len

/-- `stop` shuts a queue down once its worker has invoked the last of `len` initializers. -/
def InitializersFirst (len : Nat) (s : State I F n T) : Action F n T → Prop
  | .server .stop => ∀ w : Fin n, Server.closing s.server = some w.val → ¬Remaining len s w
  | _ => True

instance (len : Nat) (s : State I F n T) (w : Fin n) : Decidable (Remaining len s w) :=
  inferInstanceAs (Decidable ((s.worker w).begun len < len))

instance (len : Nat) (s : State I F n T) (a : Action F n T) :
    Decidable (InitializersFirst len s a) :=
  match a with
  | .server .stop => inferInstanceAs (Decidable
      (∀ w : Fin n, Server.closing s.server = some w.val → ¬Remaining len s w))
  | .launch | .worker _ | .server (.beginPush _ _ _) | .server (.push _) | .server (.online _)
  | .server (.nextAlarm _) | .server (.nextEvent _) | .server (.endEvent _)
  | .server (.handleEvent _) | .server (.exit _) => instDecidableTrue

/-- No late call has been made, and none is to come. -/
def Punctual (len : Nat) (s : State I F n T) : Prop :=
  NoLateCall s ∧ ∀ w : Fin n, s.server.shutdown w = true → ¬Remaining len s w

/-- What a statement of the start-up of `w` does to the calls. -/
structure WorkerStep (len : Nat) (w : Fin n) (s s' : State I F n T) : Prop where
  shutdown : s'.server.shutdown = s.server.shutdown
  others : ∀ v, v ≠ w → s'.worker v = s.worker v
  call : s'.late = s.late ∧ (s'.worker w).begun len = (s.worker w).begun len ∨
    Remaining len s w ∧ (s'.worker w).begun len = (s.worker w).begun len + 1 ∧
      (s'.late = s.late ↔ s.server.shutdown w = false)

variable [DecidableEq F] [DecidableEq T] {cqinits : List I} {s : State I F n T}

omit [DecidableEq F] in
theorem server_next_shutdown {s : Server.State F n T} {a : Server.Action F n T}
    (ha : a ≠ .stop) : (Server.next s a).shutdown = s.shutdown := by
  cases a <;> simp_all [Server.next]

theorem Inv.workerStep (h : Inv cqinits s) {w : Fin n} (he : Starting s w) :
    WorkerStep cqinits.length w s (workerNext s w) := by
  have hcqs := h.cqs he.2.1
  have hlist := h.list_of_before (w := w)
  have hrange := h.inRange w
  cases hw : s.worker w with
  | notLaunched => exact absurd hw he.1
  | online => exact absurd hw he.2.1
  | start =>
    constructor <;> simp +contextual [workerNext, hw, hcqs, WorkerPc.begun]
  | iterate it last =>
    obtain ⟨rfl, hle⟩ : last = cqinits.length ∧ it ≤ cqinits.length := by
      simpa [hw, WorkerPc.InRange] using hrange
    by_cases hend : it = cqinits.length
    · constructor <;> simp +contextual [workerNext, hw, hend, WorkerPc.begun]
    · have hlt : it < cqinits.length := by omega
      have hlist' := hlist (by simp [hw, WorkerPc.arrival])
      constructor
      · simp [workerNext, hw, hend, hlist', hlt, callInitializer]
      · simp +contextual [workerNext, hw, hend, hlist', hlt, callInitializer]
      · refine .inr ⟨by simpa [Remaining, hw, WorkerPc.begun] using hlt, ?_, ?_⟩
        · simp [workerNext, hw, hend, hlist', hlt, callInitializer, WorkerPc.begun]
        · cases hs : s.server.shutdown w <;>
            simp [workerNext, hw, hend, hlist', hlt, callInitializer, hs]
  | call it last =>
    obtain ⟨rfl, hlt⟩ : last = cqinits.length ∧ it < cqinits.length := by
      simpa [hw, WorkerPc.InRange] using hrange
    have hlist' := hlist (by simp [hw, WorkerPc.arrival])
    constructor <;> simp +contextual [workerNext, hw, hlist', hlt, WorkerPc.begun]
  | compare old =>
    by_cases hfull : old + 1 = n <;> constructor <;>
      simp +contextual [workerNext, hw, hcqs, hfull, ServerStartup.goOnline, Server.next,
        WorkerPc.begun]
  | _ => constructor <;>
      simp +contextual [workerNext, hw, ServerStartup.goOnline, Server.next, WorkerPc.begun]

theorem Inv.punctual_stop (h : Inv cqinits s) (hp : Punctual cqinits.length s) :
    Punctual cqinits.length { s with server := Server.stopNext s.server } ↔
      InitializersFirst cqinits.length s (.server .stop) := by
  constructor
  · intro hp' w hw hrem
    have hne : s.worker w ≠ .online := by
      intro ho
      simp [Remaining, ho, WorkerPc.begun] at hrem
    refine hp'.2 w ?_ hrem
    refine (Server.stopNext_shutdown _ _).mpr (.inr ⟨Server.mem_closing.mp hw, ?_⟩)
    rw [h.cqs hne]
    exact w.isLt
  · intro hg
    refine ⟨hp.1, fun w hw => ?_⟩
    rcases (Server.stopNext_shutdown _ _).mp hw with hold | ⟨hclose, -⟩
    · exact hp.2 w hold
    · exact hg w (Server.mem_closing.mpr hclose)

omit [DecidableEq F] [DecidableEq T] in
/-- A worker that invokes an initializer with an open queue only gets nearer to its end. -/
theorem WorkerStep.punctual {len : Nat} {w : Fin n} {s' : State I F n T}
    (h : WorkerStep len w s s') (hp : Punctual len s) : Punctual len s' := by
  have hbegun : ∀ v, (s.worker v).begun len ≤ (s'.worker v).begun len := by
    intro v
    by_cases hvw : v = w
    · subst v
      rcases h.call with ⟨-, hb⟩ | ⟨-, hb, -⟩ <;> omega
    · rw [h.others v hvw]
  refine ⟨?_, fun v hv hrem => ?_⟩
  · rcases h.call with ⟨hlate, -⟩ | ⟨hrem, -, hlate⟩
    · exact hlate.trans hp.1
    · have hopen : s.server.shutdown w = false := by
        by_contra hs
        exact hp.2 w (by simpa using hs) hrem
      exact (hlate.mpr hopen).trans hp.1
  · rw [h.shutdown] at hv
    exact hp.2 v hv (lt_of_le_of_lt (hbegun v) hrem)

omit [DecidableEq F] [DecidableEq T] in
/-- Backwards: a worker left with an initializer and a closed queue makes a late call. -/
theorem WorkerStep.punctual_of_next {len : Nat} {w : Fin n} {s' : State I F n T}
    (h : WorkerStep len w s s') (hl : NoLateCall s) (hp : Punctual len s') : Punctual len s := by
  refine ⟨hl, fun v hv hrem => ?_⟩
  rw [← h.shutdown] at hv
  have hdone := hp.2 v hv
  by_cases hvw : v = w
  · subst v
    rcases h.call with ⟨-, hb⟩ | ⟨-, -, hlate⟩
    · exact hdone (by rwa [Remaining, hb])
    · rw [h.shutdown, hlate.mp (hp.1.trans hl.symm)] at hv
      exact absurd hv (by simp)
  · exact hdone (by rwa [Remaining, h.others v hvw])

theorem Inv.begun_launch (h : Inv cqinits s) (hl : s.launched < n) (v : Fin n) :
    ((launchNext s).worker v).begun cqinits.length = (s.worker v).begun cqinits.length := by
  have hw := h.launched ⟨s.launched, hl⟩ (le_refl _)
  rw [launchNext, dif_pos hl]
  by_cases hvw : v = ⟨s.launched, hl⟩
  · simp [hvw, hw, WorkerPc.begun]
  · simp [hvw]

theorem punctual_step {s' : State I F n T} {a : Action F n T} (h : Inv cqinits s)
    (hp : Punctual cqinits.length s) (hs : step s a = some s') :
    Punctual cqinits.length s' ↔ InitializersFirst cqinits.length s a := by
  obtain ⟨⟨-, he⟩, rfl⟩ := stepOf_eq_some.mp hs
  cases a with
  | launch =>
    refine iff_of_true ?_ trivial
    have hb := h.begun_launch he
    have hsame : (launchNext s).late = s.late ∧ (launchNext s).server = s.server := by
      rw [launchNext, dif_pos he]
      exact ⟨rfl, rfl⟩
    simpa [Punctual, NoLateCall, Remaining, next, hb, hsame] using hp
  | worker w => exact iff_of_true ((h.workerStep he).punctual hp) trivial
  | server a =>
    by_cases ha : a = .stop
    · subst a
      exact h.punctual_stop hp
    · have hg : InitializersFirst cqinits.length s (.server a) := by
        cases a <;> simp_all [InitializersFirst]
      refine iff_of_true ?_ hg
      simpa [Punctual, NoLateCall, Remaining, next, server_next_shutdown ha] using hp

theorem punctual_of_step {s' : State I F n T} {a : Action F n T}
    (h : Inv cqinits s) (hl : NoLateCall s) (hs : step s a = some s')
    (hp : Punctual cqinits.length s') : Punctual cqinits.length s := by
  obtain ⟨⟨-, he⟩, rfl⟩ := stepOf_eq_some.mp hs
  cases a with
  | launch =>
    have hb := h.begun_launch he
    have hsame : (launchNext s).server = s.server := by rw [launchNext, dif_pos he]
    exact ⟨hl, by simpa [Remaining, next, hb, hsame] using hp.2⟩
  | worker w => exact (h.workerStep he).punctual_of_next hl hp
  | server a =>
    refine ⟨hl, fun w hw hrem => ?_⟩
    refine hp.2 w ?_ hrem
    by_cases ha : a = .stop
    · subst a
      exact (Server.stopNext_shutdown _ _).mpr (.inl hw)
    · simpa [next, server_next_shutdown ha] using hw

/-- No initializer is invoked with a queue that is shut down, in every run in which `stop`
shuts each queue down only after its worker has invoked its last initializer; and in a run at
whose end all workers have come online only then. -/
theorem no_late_call (cqinits : List I) (as : List (Action F n T)) :
    (Guarded step (InitializersFirst cqinits.length) (.init cqinits) as →
      Always step NoLateCall (.init cqinits) as) ∧
    ∀ s : State I F n T, run step (.init cqinits) as = some s →
      (∀ w, (s.worker w).cameOnline) → Always step NoLateCall (.init cqinits) as →
      Guarded step (InitializersFirst cqinits.length) (.init cqinits) as := by
  have h0 : Punctual cqinits.length (.init cqinits : State I F n T) :=
    ⟨rfl, by simp [State.init, Server.State.init]⟩
  have hinv : Always step (Inv cqinits) (.init cqinits : State I F n T) as :=
    always_of_inv (inv_init cqinits) (fun s a s' => inv_step) as
  have hexact : Always step (Punctual cqinits.length) (.init cqinits : State I F n T) as ↔
      Guarded step (InitializersFirst cqinits.length) (.init cqinits) as := by
    exact always_iff_guarded_of_inv (inv_init cqinits) h0 (fun s a s' => inv_step)
      (fun s a s' => punctual_step) as
  refine ⟨fun hg => (hexact.mpr hg).mono fun s hs => hs.1, fun s hr hall hlate => ?_⟩
  apply hexact.mp
  have hend : Punctual cqinits.length s := by
    refine ⟨hlate.last hr, fun w _ hrem => ?_⟩
    rw [Remaining, begun_of_cameOnline (hall w)] at hrem
    omega
  exact always_of_last (hinv.and hlate) (fun s a s' h => punctual_of_step h.1 h.2) hr hend

/-- `stop` right after the constructor: the queue is shut down before the worker has run. -/
def stopAtOnce (w : Fin 1) : List (Action Nat 1 Unit) :=
  [.launch, .server .stop, .server .stop, .server .stop, .worker w, .worker w]

theorem stopAtOnce_late : ∃ s, run step (.init ["task"]) (stopAtOnce 0) = some s ∧
    s.late = [("task", 0)] ∧ ¬NoLateCall s := by
  exact ⟨_, rfl, rfl, List.cons_ne_nil _ _⟩

theorem startTwo_punctual : ∃ s, run step (.init ["task"]) (startTwo 0 1) = some s ∧
    NoLateCall s ∧ Guarded step (InitializersFirst 1) (.init ["task"]) (startTwo 0 1) := by
  have hr : run step (.init ["task"]) (startTwo 0 1) = some _ := rfl
  have h := no_late_call ["task"] (startTwo 0 1)
  have hlate := h.1 (by decide)
  exact ⟨_, hr, hlate.last hr, h.2 _ hr (by decide) hlate⟩

end AsyncppGrpc.ServerStartup
