import AsyncppGrpc.ClientCqProgress
import AsyncppGrpc.CallMemory
import AsyncppGrpc.Library.Hosting

/-! A `client_cq` and the streaming calls on it. Its worker takes their completions, and `Next`
returns false only when no operation of a call is outstanding. -/
namespace AsyncppGrpc.ClientCalls
open Run
variable {F T : Type*}

/-- A streaming call of some kind. -/
structure AnyCall where
  method : RpcMethodType
  state : Call.State method

def AnyCall.construct (m : RpcMethodType) : AnyCall := ⟨m, .init⟩

def AnyCall.next (c : AnyCall) (a : Call.Action) : AnyCall := ⟨c.method, Call.next c.state a⟩

def AnyCall.step : AnyCall → Call.Action → Option AnyCall :=
  stepOf (fun c a => Call.Enabled c.state a) AnyCall.next

/-- `calls` are the calls constructed so far that are given this queue. -/
structure State (F T : Type*) where
  cq : ClientCq.State F T
  calls : List AnyCall

def State.init : State F T := ⟨.init, []⟩

/-- `deliver`: the worker takes a completion of the `i`-th call from the queue; `call`: a
coroutine uses or destroys it, or its stub method returns. -/
inductive Action (F T : Type*) where
  | cq (a : ClientCq.Action F T)
  | construct (m : RpcMethodType)
  | deliver (i : Nat) (tag : Call.Tag) (ok : Bool) (status : Status)
  | call (i : Nat) (a : Call.Action)

/-- The queue hands the event over. -/
def isEvent : Call.Action → Bool
  | .complete _ _ _ => true
  | _ => false

/-- The statement takes the worker past its loop. -/
def leaves : ClientCq.Action F T → Bool
  | .exit => true
  | _ => false

/-- Nothing has aborted the process. -/
def Alive (s : State F T) : Prop := s.cq.fault = none ∧ ∀ c ∈ s.calls, c.state.fault = none

/-- No coroutine is suspended in the call, and its state is not left to delete itself. -/
def Settled (c : AnyCall) : Prop := c.state.life ≠ .detached ∧ c.state.awaiting = none

/-- Whoever has used a call of the queue is done with it when the worker is past its loop. -/
def LeavesNothing (s : State F T) : Prop := s.cq.worker = .exited → ∀ c ∈ s.calls, Settled c

/-- The step starts no operation of the call. -/
def Unused (c : AnyCall) : Call.Action → Prop
  | .start _ => False
  | .await op => op.checked = true ∧ c.state.stream = false
  | .destroy => c.state.stream = false
  | .store | .storeStale | .complete _ _ _ => True

/-- Past the worker's loop no operation is started on the queue. -/
def QuietAfterwards (s : State F T) : Action F T → Prop
  | .call i a => s.cq.worker = .exited → ∀ c ∈ s.calls[i]?, Unused c a
  | _ => True

/-- What a call has outstanding on the queue is all that keeps the worker. -/
def drained (c : AnyCall) : Bool := c.state.fault.isNone && c.state.pending.isEmpty

theorem drained_iff {c : AnyCall} :
    drained c = true ↔ c.state.fault = none ∧ c.state.pending = [] := by
  simp [drained]

theorem heldInv_anyCall {c c' : AnyCall} {a : Call.Action} (h : Call.HeldInv c.state)
    (hs : c.step a = some c') : Call.HeldInv c'.state := by
  obtain ⟨he, rfl⟩ := stepOf_eq_some.mp hs
  exact Call.heldInv_step h (stepOf_eq_some.mpr ⟨he, rfl⟩)

/-- A call with nothing in flight has nobody waiting for it. -/
theorem settled_of_drained {c : AnyCall} (h : Call.HeldInv c.state) (hd : drained c = true) :
    Settled c := by
  obtain ⟨hf, hp⟩ := drained_iff.mp hd
  have hh := h hf
  refine ⟨fun hdet => (hh.detached hdet).2 hp, ?_⟩
  by_contra hne
  obtain ⟨a, ha⟩ := Option.ne_none_iff_exists'.mp hne
  obtain ⟨-, evt, op, hpend, -⟩ := hh.inFlight.suspended a ha
  simp [hp] at hpend

/-- A settled call stays so exactly if no operation of it is started. -/
theorem settled_step {c c' : AnyCall} {a : Call.Action} (h : Call.HeldInv c.state)
    (hset : Settled c) (hs : c.step a = some c') : Settled c' ↔ Unused c a := by
  obtain ⟨⟨hf, he⟩, rfl⟩ := stepOf_eq_some.mp hs
  obtain ⟨hlife, hawaiting⟩ := hset
  have hh := h hf
  cases a with
  | start nullCq => simp [Settled, Unused, AnyCall.next, Call.next, Call.start, Call.awaitSuspend]
  | await op =>
    by_cases hc : (op.checked && !c.state.stream) = true
    · have hthrow : Call.await c.state op = { c.state with threw := c.state.threw ++ [op] } := by
        rw [Call.await, if_pos hc]
      simp only [Settled, AnyCall.next, Call.next, hthrow]
      refine iff_of_true ⟨hlife, hawaiting⟩ ?_
      simpa [Unused] using hc
    · obtain ⟨op', evt, -, heq⟩ := Call.await_issues he.1 hc
      simp only [Settled, AnyCall.next, Call.next, heq]
      refine iff_of_false (by simp) ?_
      simpa [Unused] using hc
  | store =>
    refine iff_of_true ?_ trivial
    simp [Settled, AnyCall.next, Call.next, Call.store, hlife, hawaiting]
  | storeStale =>
    refine iff_of_true ?_ trivial
    simp [Settled, AnyCall.next, Call.next, Call.storeStale, hlife, hawaiting]
  | complete tag ok status =>
    have hmem : tag ∈ c.state.pending := he
    cases hl : c.state.life with
    | owned => simp [hh.inFlight.running hawaiting hl] at hmem
    | detached => exact absurd hl hlife
    | deleted => simp [hh.deleted hl] at hmem
  | destroy =>
    simp only [Settled, AnyCall.next, Call.next, Unused]
    by_cases hstream : c.state.stream = true
    · obtain ⟨op, evt, -, heq⟩ := Call.issueLast_eq
        { c.state with cancelled := true, life := .detached } .state
      rw [Call.destruct, if_pos hstream, heq]
      exact iff_of_false (by simp) (by simp [hstream])
    · rw [Call.destruct, if_neg hstream]
      exact iff_of_true ⟨by simp [Call.deleteThis], hawaiting⟩ (by simpa using hstream)

/-- The worker is past its loop afterwards if it was, or if that is the statement. -/
theorem exited_iff [DecidableEq T] {s : ClientCq.State F T} {a : ClientCq.Action F T}
    (he : ClientCq.Enabled s a) :
    (ClientCq.next s a).worker = .exited ↔ s.worker = .exited ∨ leaves a = true := by
  obtain ⟨-, he⟩ := he
  cases a with
  | beginPush t fn => simp [ClientCq.next, leaves]
  | push t => simp [ClientCq.next, leaves]
  | destroy => simp [ClientCq.next, leaves]
  | handleEvent =>
    refine iff_of_false (ClientCq.handleEventNext_not_exited s he.1) ?_
    intro hw
    simp_all [leaves, ClientCq.WorkerPc.inHandleEvent]
  | nextAlarm => simp [ClientCq.next, leaves, he.1]
  | nextEvent => simp [ClientCq.next, leaves, show s.worker = .next from he]
  | endEvent => simp [ClientCq.next, leaves, he.1]
  | exit => simp [ClientCq.next, leaves]

section
variable [DecidableEq F]

/-- The worker past its loop as the only, departed, host. -/
def view (s : State F T) : Hosting.State Unit AnyCall where
  left _ := decide (s.cq.worker = .exited)
  parties := s.calls.map (Prod.mk ())

def label (_ : State F T) : Action F T → Option (Hosting.Action Unit RpcMethodType Call.Action)
  | .cq a => if leaves a then some (.leave ()) else none
  | .construct m => some (.create () m)
  | .deliver i tag ok status => some (.act i (.complete tag ok status))
  | .call i a => some (.act i a)

theorem settled_view (s : State F T) : Hosting.Settled Settled (view s) ↔ LeavesNothing s := by
  simp only [Hosting.Settled, view, List.forall_mem_map, LeavesNothing, decide_eq_true_eq]
  exact ⟨fun h hw c hc => h c hc hw, fun h c hc hw => h hw c hc⟩

theorem orderly_label (s : State F T) (a : Action F T) :
    (∀ b ∈ label s a, Hosting.Orderly (fun _ => True) Unused (view s) b) ↔
      QuietAfterwards s a := by
  cases a with
  | cq a => cases hl : leaves a <;> simp [label, hl, Hosting.Orderly, QuietAfterwards]
  | construct m => simp [label, Hosting.Orderly, QuietAfterwards]
  | deliver i tag ok status => simp [label, Hosting.Orderly, QuietAfterwards, Unused]
  | call i a =>
    simp only [label, Option.mem_some_iff, forall_eq', Hosting.Orderly, QuietAfterwards, view,
      List.getElem?_map, decide_eq_true_eq]
    cases s.calls[i]? <;> simp

instance (s : State F T) : Decidable (Alive s) :=
  inferInstanceAs (Decidable (s.cq.fault = none ∧ ∀ c ∈ s.calls, c.state.fault = none))

def Enabled (s : State F T) (a : Action F T) : Prop :=
  Alive s ∧ match a with
  | .cq a => ClientCq.Enabled s.cq a ∧ (leaves a = true → ∀ c ∈ s.calls, c.state.pending = [])
  | .construct _ => s.cq.worker ≠ .exited
  | .deliver i tag ok status => ClientCq.Enabled s.cq .nextEvent ∧
      ∃ c ∈ s.calls[i]?, Call.Enabled c.state (.complete tag ok status)
  | .call i a => isEvent a = false ∧ ∃ c ∈ s.calls[i]?, Call.Enabled c.state a

instance [DecidableEq T] (s : State F T) (a : Action F T) : Decidable (Enabled s a) := by
  cases a <;> unfold Enabled <;> infer_instance

end

def callNext (calls : List AnyCall) (i : Nat) (a : Call.Action) : List AnyCall :=
  match calls[i]? with
  | none => calls
  | some c => calls.set i (c.next a)

section
variable [DecidableEq F]

theorem views_act {s : State F T} {i : Nat} {a : Call.Action} {c : AnyCall}
    (hc : s.calls[i]? = some c) (he : Call.Enabled c.state a) :
    Hosting.hostStep AnyCall.construct AnyCall.step drained (view s) (.act i a) =
      some { view s with parties := (callNext s.calls i a).map (Prod.mk ()) } := by
  refine Hosting.hostStep_act.mpr ⟨((), c), _, ?_, stepOf_eq_some.mpr ⟨he, rfl⟩, ?_⟩
  · simp [view, hc]
  · simp [callNext, hc, view]

variable [DecidableEq T]

def next (s : State F T) : Action F T → State F T
  | .cq a => { s with cq := ClientCq.next s.cq a }
  | .construct m => { s with calls := s.calls ++ [.construct m] }
  | .deliver i tag ok status =>
    { cq := ClientCq.next s.cq .nextEvent, calls := callNext s.calls i (.complete tag ok status) }
  | .call i a => { s with calls := callNext s.calls i a }

def step : State F T → Action F T → Option (State F T) := stepOf Enabled next

/-- Every step is one of the host and its machines, or none of theirs. -/
theorem views_step : Views (step (F := F) (T := T))
    (Hosting.hostStep AnyCall.construct AnyCall.step drained) view label := by
  intro s a s' hs
  obtain ⟨⟨halive, he⟩, rfl⟩ := stepOf_eq_some.mp hs
  cases a with
  | cq a =>
    obtain ⟨he, hdrained⟩ := he
    by_cases hl : leaves a = true
    · simp only [label, hl, if_true, Becomes]
      refine Hosting.hostStep_leave.mpr ⟨?_, ?_⟩
      · intro q hq _
        obtain ⟨c, hc, rfl⟩ := List.mem_map.mp hq
        exact drained_iff.mpr ⟨halive.2 c hc, hdrained hl c hc⟩
      · refine Hosting.State.ext (funext fun v => ?_) rfl
        simp [view, next, exited_iff he, hl]
    · simp only [label, hl, Bool.false_eq_true, if_false, Becomes]
      refine Hosting.State.ext (funext fun v => ?_) rfl
      simp [view, next, exited_iff he, hl]
  | construct m =>
    have hw : s.cq.worker ≠ .exited := he
    refine Hosting.hostStep_create.mpr ⟨by simpa [view] using hw, ?_⟩
    exact Hosting.State.ext rfl (by simp [view, next])
  | deliver i tag ok status =>
    obtain ⟨hnext, c, hc, hce⟩ := he
    refine (views_act hc hce).trans ?_
    refine congrArg some (Hosting.State.ext (funext fun v => ?_) rfl)
    simp [view, next, exited_iff hnext, leaves]
  | call i a =>
    obtain ⟨-, c, hc, hce⟩ := he
    exact views_act hc hce

/-- In every state of a run in which the worker is past its loop no coroutine is suspended in a
call of the queue and no abandoned state is left undeleted, exactly if no operation is started
on the queue from then on. -/
theorem calls_settled_iff (as : List (Action F T)) :
    Always step LeavesNothing (.init : State F T) as ↔
      Guarded step QuietAfterwards (.init : State F T) as := by
  have h0 : ∀ m, Call.HeldInv (AnyCall.construct m).state := fun _ _ => Call.held_init
  have hI : ∀ c a c', Call.HeldInv c.state → AnyCall.step c a = some c' →
      Call.HeldInv c'.state := fun _ _ _ => heldInv_anyCall
  have hready : ∀ c : AnyCall, Call.HeldInv c.state → drained c = true → (Settled c ↔ True) :=
    fun _ h hd => iff_true_intro (settled_of_drained h hd)
  have hiff := Hosting.settled_iff h0 hI hready (fun _ _ _ => settled_step)
    (labels step label (.init : State F T) as)
  have hinit : view (.init : State F T) = .init := by
    simp [view, State.init, Hosting.State.init, ClientCq.State.init]
  rw [← hinit, always_labels views_step, guarded_labels views_step] at hiff
  simp only [settled_view, orderly_label] at hiff
  exact hiff

/-- Statements and deliveries that bring in neither a push nor an event of anything else. -/
def Free : Action F T → Prop
  | .cq a => ClientCq.brings a = 0
  | .deliver _ _ _ _ => True
  | _ => False

/-- The calls with an operation outstanding on the queue. -/
def outstanding (s : State F T) (_ : Unit) : Nat :=
  s.calls.countP fun c => !c.state.pending.isEmpty

omit [DecidableEq F] [DecidableEq T] in
theorem outstanding_eq_zero {s : State F T} {k : Unit} :
    outstanding s k = 0 ↔ ∀ c ∈ s.calls, c.state.pending = [] := by
  simp [outstanding, List.countP_eq_zero]

/-- The destructor does not hang of its own: as long as it has not joined the worker, one of
the two has a statement left or the queue still has a completion of a call to deliver. -/
theorem destroy_waits_for_calls {as : List (Action F T)} {s : State F T}
    (hr : run step .init as = some s) (hs : s.cq.dtor ≠ .joined) (halive : Alive s) :
    ∃ a, Free a ∧ Enabled s a := by
  have hclosed : ClientCq.Closed s.cq := by
    refine inv_of_run (P := fun s : State F T => ClientCq.Closed s.cq) ?_ ?_ hr
    · exact fun h => absurd rfl h
    · intro s a s' h hs
      obtain ⟨⟨-, he⟩, rfl⟩ := stepOf_eq_some.mp hs
      cases a with
      | cq a => exact ClientCq.closed_step h (stepOf_eq_some.mpr ⟨he.1, rfl⟩)
      | deliver i tag ok status =>
        exact ClientCq.closed_step h (stepOf_eq_some.mpr ⟨he.1, rfl⟩)
      | _ => exact h
  obtain ⟨a, ha⟩ := ClientCq.dtor_goes hclosed halive.1 hs (outstanding s)
  have hcq : ClientCq.brings a = 0 → (leaves a = true → ∀ c ∈ s.calls, c.state.pending = []) →
      ∃ a, Free a ∧ Enabled s a :=
    fun hfree hleaves => ⟨.cq a, hfree, halive, ha.enabled, hleaves⟩
  cases a with
  | beginPush t fn => simpa [ClientCq.begins] using ha.free
  | nextEvent =>
    have hsome : ¬∀ c ∈ s.calls, c.state.pending = [] := by
      rw [← outstanding_eq_zero]
      exact Nat.ne_of_gt (ha.event () rfl)
    simp only [not_forall] at hsome
    obtain ⟨c, hc, hp⟩ := hsome
    obtain ⟨tag, htag⟩ := List.exists_mem_of_ne_nil _ hp
    obtain ⟨i, hi⟩ := List.mem_iff_getElem?.mp hc
    have hcall : Call.Enabled c.state (.complete tag true {}) := ⟨halive.2 c hc, htag⟩
    exact ⟨.deliver i tag true {}, trivial, halive, ha.enabled, c, hi, hcall⟩
  | exit => exact hcq rfl fun _ => outstanding_eq_zero.mp ha.permitted
  | _ => exact hcq rfl (by simp [leaves])

/-- The queue is shut down while `start` is in flight. -/
def startThenDestroy : List (Action Nat Unit) :=
  [.construct .clientStreaming, .call 0 (.start false), .call 0 .store, .cq .destroy]

theorem startThenDestroy_waits : ∃ s, run step .init startThenDestroy = some s ∧
    s.cq.dtor = .join ∧ ∃ a, Free a ∧ Enabled s a := by
  have hr : run step .init startThenDestroy = some _ := rfl
  exact ⟨_, hr, rfl, destroy_waits_for_calls hr (by decide) (by decide)⟩

end
end AsyncppGrpc.ClientCalls
