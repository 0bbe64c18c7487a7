import AsyncppGrpc.Library.StreamContract
import AsyncppGrpc.Rpc

/-! `streaming_call`: its `state`, the awaiters of its operations and the teardown, as seen
by one coroutine that uses the call and by the queue that delivers the completions. A
non-null pointer is `true`. -/
namespace AsyncppGrpc.Call
open Run

/-- The operations of a call, and the ones they issue on the stream; `start` is the stub
method. -/
inductive Op where
  | start
  | read
  | write
  | writeLast
  | writesDone
  | finish
  deriving DecidableEq

/-- The `requires` clauses. -/
def Op.offered (m : RpcMethodType) : Op → Bool
  | .read => m.isServerStreaming
  | .write | .writeLast | .writesDone => m.isClientStreaming
  | .start | .finish => true

/-- What an operation is to the stream. -/
def Op.role : Op → StreamContract.Role
  | .start => .start
  | .read => .read
  | .write => .write
  | .writeLast | .writesDone => .halfClose
  | .finish => .finish

/-- The operations that throw `No active call` without a stream. -/
def Op.checked : Op → Bool
  | .write | .writeLast | .writesDone => true
  | _ => false

inductive Receiver where
  | awaiter
  | state
  deriving DecidableEq

/-- `ptr_tag<evt>(receiver)` as handed to the stream operation `op`. -/
structure Tag where
  receiver : Receiver
  evt : Nat
  op : Op
  deriving DecidableEq

/-- The awaiter the coroutine is suspended in. -/
structure Awaiter where
  op : Op
  wasOk : Bool := false
  status : Status := {}
  deriving DecidableEq

/-- Who will delete the `state`: the call, the `state` itself, or it is deleted. -/
inductive Life where
  | owned
  | detached
  | deleted
  deriving DecidableEq

inductive Fault where
  | nullStream
  | streamInFlight
  | useAfterFree
  deriving DecidableEq

/-- The first six fields are those of `state`. `storing`: the last `start` has entered the stub
method and not yet assigned its result; `stale`: the earlier ones that have still to assign
theirs; `startResult`: what the last `start` resumed with. The fields from `log` to `resumed` are
histories, `awaited` and `resumed` since the last `start`. -/
structure State (m : RpcMethodType) where
  context : Bool
  cancelled : Bool
  stream : Bool
  needWritesDone : Bool
  defaultClientCq : Bool
  exitStatus : Status
  life : Life
  awaiting : Option Awaiter
  storing : Bool
  stale : Nat
  startResult : Option Bool
  pending : List Tag
  log : List (StreamContract.Event Op)
  awaited : List Op
  threw : List Op
  resumed : List Awaiter
  fault : Option Fault

variable {m : RpcMethodType}

def State.init : State m where
  context := true
  cancelled := false
  stream := false
  needWritesDone := false
  defaultClientCq := false
  exitStatus := {}
  life := .owned
  awaiting := none
  storing := false
  stale := 0
  startResult := none
  pending := []
  log := []
  awaited := []
  threw := []
  resumed := []
  fault := none

/-- `store` and `storeStale` are the assignments of the last `start` and of an earlier one.
`completed tag ok status`: `status` is what gRPC has stored if the operation is Finish. -/
inductive Action where
  | start (nullCq : Bool)
  | await (op : Op)
  | store
  | storeStale
  | complete (tag : Tag) (ok : Bool) (status : Status)
  | destroy

def issue (s : State m) (op : Op) (receiver : Receiver) (evt : Nat) : State m :=
  if s.stream then { s with
    pending := s.pending ++ [⟨receiver, evt, op⟩]
    log := s.log ++ [.issue op] }
  else { s with fault := some .nullStream }

/-- `stream.reset()`. -/
def resetStream (s : State m) : State m :=
  if s.stream && !s.pending.isEmpty then { s with fault := some .streamInFlight }
  else { s with stream := false }

def resume (s : State m) (a : Awaiter) : State m :=
  { s with awaiting := none, resumed := s.resumed ++ [a] }

/-- `delete this` of the `state`. -/
def deleteThis (s : State m) : State m :=
  { s with life := .deleted, context := false, defaultClientCq := false }

/-- The half-close if one is owed, else Finish. -/
def issueLast (s : State m) (receiver : Receiver) : State m :=
  if m.isClientStreaming && s.needWritesDone then issue s .writesDone receiver 0
  else issue s .finish receiver 1

/-- `state::destruct`, called by `~streaming_call` on the released `state`. -/
def destruct (s : State m) : State m :=
  if s.stream then issueLast { s with cancelled := true, life := .detached } .state
  else deleteThis s

/-- `state::handle_event`. -/
def stateHandleEvent (s : State m) (evt : Nat) : State m :=
  match evt with
  | 0 => issue s .finish .state 1
  | _ => deleteThis (resetStream s)

/-- The awaiter's `await_suspend`; `start` enters the stub method. -/
def awaitSuspend (s : State m) : Op → State m
  | .start => { s with
      storing := true
      stale := s.stale + s.storing.toNat
      pending := s.pending ++ [⟨.awaiter, 0, .start⟩]
      log := s.log ++ [.issue .start] }
  | .finish => issueLast s .awaiter
  | op => issue s op .awaiter 0

/-- `handle_event` of the awaiter `a`. -/
def awaiterHandleEvent (s : State m) (a : Awaiter) (evt : Nat) (ok : Bool) : State m :=
  match a.op with
  | .start =>
    let s : State m := { s with
      startResult := some ok
      needWritesDone := if m.isClientStreaming then ok else s.needWritesDone }
    resume (if ok then s else resetStream s) { a with wasOk := ok }
  | .read | .write => resume s { a with wasOk := ok }
  | .writeLast | .writesDone =>
    resume { s with needWritesDone := false } { a with wasOk := ok }
  | .finish =>
    let a := if ok then a
      else { a with status := { code := .unknown, message := "Event returned ok=false" } }
    match evt with
    | 0 => issue { s with awaiting := some a } .finish .awaiter 1
    | _ => resume (resetStream s) a

/-- `co_await call.start(…)`. -/
def start (s : State m) (nullCq : Bool) : State m :=
  awaitSuspend { s with
    defaultClientCq := s.defaultClientCq || nullCq
    startResult := none
    awaiting := some { op := .start }
    awaited := [.start]
    resumed := [] } .start

/-- `co_await` of another operation; `write`, `write_last` and `writes_done` check the
stream before they return an awaiter. -/
def await (s : State m) (op : Op) : State m :=
  if op.checked && !s.stream then { s with threw := s.threw ++ [op] }
  else awaitSuspend { s with
    awaiting := some { op := op }
    awaited := s.awaited ++ [op] } op

/-- The assignment to `m_state->stream`. It destroys the stream it replaces, which is the one
with the operation in flight, unless that is a `start` whose own stream is still to come. -/
def assign (s : State m) : State m :=
  if s.life = .deleted then { s with fault := some .useAfterFree }
  else if s.stream && s.pending.any (fun tag => tag.op ≠ .start || !s.storing) then
    { s with fault := some .streamInFlight }
  else { s with stream := true }

/-- The end of the `await_suspend` of the last `start`. -/
def store (s : State m) : State m := { assign s with storing := false }

def storeStale (s : State m) : State m := { assign s with stale := s.stale - 1 }

/-- The queue delivers a completion; Finish has stored the RPC's status by then. -/
def complete (s : State m) (tag : Tag) (ok : Bool) (status : Status) : State m :=
  let s : State m := { s with
    pending := s.pending.erase tag
    log := s.log ++ [.done tag.op ok] }
  match tag.receiver, s.awaiting with
  | .state, _ =>
    stateHandleEvent { s with
      exitStatus := if tag.op = .finish then status else s.exitStatus } tag.evt
  | .awaiter, some a =>
    awaiterHandleEvent s { a with
      status := if tag.op = .finish then status else a.status } tag.evt ok
  | .awaiter, none => { s with fault := some .useAfterFree }

/-- The coroutine uses the call while it is not suspended in one of its awaiters. -/
def Enabled (s : State m) (a : Action) : Prop :=
  s.fault = none ∧ match a with
  | .start _ | .destroy => s.life = .owned ∧ s.awaiting = none
  | .await op => op ≠ .start ∧ op.offered m ∧ s.life = .owned ∧ s.awaiting = none
  | .store => s.storing
  | .storeStale => s.stale ≠ 0
  | .complete tag _ _ => tag ∈ s.pending

instance (s : State m) (a : Action) : Decidable (Enabled s a) := by
  cases a <;> unfold Enabled <;> infer_instance

def next (s : State m) : Action → State m
  | .start nullCq => start s nullCq
  | .await op => await s op
  | .store => store s
  | .storeStale => storeStale s
  | .complete tag ok status => complete s tag ok status
  | .destroy => destruct s

def step : State m → Action → Option (State m) := stepOf Enabled next

theorem issue_of_stream {s : State m} {op : Op} {receiver : Receiver} {evt : Nat}
    (h : s.stream = true) : issue s op receiver evt = { s with
      pending := s.pending ++ [⟨receiver, evt, op⟩]
      log := s.log ++ [.issue op] } := by
  simp [issue, h]

@[simp] theorem issue_frame (s : State m) (op : Op) (receiver : Receiver) (evt : Nat) :
    (issue s op receiver evt).stream = s.stream ∧
    (issue s op receiver evt).storing = s.storing ∧
    (issue s op receiver evt).stale = s.stale ∧
    (issue s op receiver evt).startResult = s.startResult ∧
    (issue s op receiver evt).life = s.life ∧
    (issue s op receiver evt).awaiting = s.awaiting ∧
    (issue s op receiver evt).resumed = s.resumed := by
  unfold issue
  split <;> simp

@[simp] theorem issue_awaited (s : State m) (op : Op) (receiver : Receiver) (evt : Nat) :
    (issue s op receiver evt).awaited = s.awaited := by
  unfold issue
  split <;> rfl

/-- An operation is issued on a stream, or the process fails. -/
theorem issue_pending {s : State m} {op : Op} {receiver : Receiver} {evt : Nat}
    (h : (issue s op receiver evt).fault = none) :
    (issue s op receiver evt).pending = s.pending ++ [⟨receiver, evt, op⟩] := by
  unfold issue at *
  split at h <;> simp_all

theorem issueLast_eq (s : State m) (receiver : Receiver) :
    ∃ op evt, op ≠ .start ∧ issueLast s receiver = issue s op receiver evt := by
  unfold issueLast
  split
  · exact ⟨.writesDone, 0, by simp, rfl⟩
  · exact ⟨.finish, 1, by simp, rfl⟩

/-- Past the check for a stream an operation is issued once. -/
theorem await_issues {s : State m} {op : Op} (hs : op ≠ .start)
    (hc : ¬(op.checked && !s.stream) = true) : ∃ op' evt, op' ≠ .start ∧
      await s op = issue { s with
        awaiting := some { op := op }, awaited := s.awaited ++ [op] } op' .awaiter evt := by
  rw [await, if_neg hc]
  cases op with
  | start => exact absurd rfl hs
  | finish => exact issueLast_eq _ _
  | _ => exact ⟨_, 0, by simp, rfl⟩

/-- An awaited operation other than `start` is issued once or throws. -/
theorem await_eq (s : State m) {op : Op} (hs : op ≠ .start) :
    await s op = { s with threw := s.threw ++ [op] } ∨ ∃ op' evt, op' ≠ .start ∧
      await s op = issue { s with
        awaiting := some { op := op }, awaited := s.awaited ++ [op] } op' .awaiter evt := by
  by_cases hc : (op.checked && !s.stream) = true
  · exact .inl (by rw [await, if_pos hc])
  · exact .inr (await_issues hs hc)

@[simp] theorem assign_frame (s : State m) :
    (assign s).life = s.life ∧ (assign s).awaiting = s.awaiting ∧
    (assign s).storing = s.storing ∧ (assign s).stale = s.stale ∧
    (assign s).startResult = s.startResult ∧ (assign s).pending = s.pending ∧
    (assign s).log = s.log ∧ (assign s).awaited = s.awaited ∧ (assign s).resumed = s.resumed ∧
    (assign s).defaultClientCq = s.defaultClientCq := by
  unfold assign
  repeat' split
  all_goals simp

theorem assign_eq {s : State m} (h : (assign s).fault = none) :
    assign s = { s with stream := true } := by
  unfold assign at *
  split at h
  · simp at h
  · split at h
    · simp at h
    · rw [if_neg ‹_›, if_neg ‹_›]

theorem assign_fault {s : State m} (hf : s.fault = none) : (assign s).fault = none ↔
    s.life ≠ .deleted ∧
      (s.stream = true → ∀ tag ∈ s.pending, tag.op = .start ∧ s.storing = true) := by
  by_cases hd : s.life = .deleted
  · simp [assign, hd]
  · by_cases hany : (s.stream && s.pending.any fun tag => tag.op ≠ .start || !s.storing) = true
    · rw [assign, if_neg hd, if_pos hany]
      simp only [Bool.and_eq_true, List.any_eq_true, Bool.or_eq_true, decide_eq_true_eq] at hany
      obtain ⟨hstream, tag, hmem, hbad⟩ := hany
      refine iff_of_false (by simp) fun hall => ?_
      obtain ⟨hop, hstoring⟩ := hall.2 hstream tag hmem
      simp [hop, hstoring] at hbad
    · rw [assign, if_neg hd, if_neg hany]
      refine iff_of_true hf ⟨hd, fun hstream tag hmem => ?_⟩
      simp only [hstream, Bool.true_and, List.any_eq_true, not_exists, not_and] at hany
      simpa using hany tag hmem

theorem resetStream_of_idle {s : State m} (h : s.pending = []) :
    resetStream s = { s with stream := false } := by
  simp [resetStream, h]

/-- The handlers between `start` and `finish` differ in the half-close they record. -/
theorem awaiterHandleEvent_operation (s : State m) {a : Awaiter} (hs : a.op ≠ .start)
    (hf : a.op ≠ .finish) (evt : Nat) (ok : Bool) : awaiterHandleEvent s a evt ok =
      resume { s with
        needWritesDone := if a.op.role = .halfClose then false else s.needWritesDone }
        { a with wasOk := ok } := by
  cases hop : a.op <;> simp_all [awaiterHandleEvent, Op.role]

/-- The two phases of `finish`, for some status. -/
theorem awaiterHandleEvent_finish (s : State m) {a : Awaiter} (hf : a.op = .finish) (evt : Nat)
    (ok : Bool) : ∃ b : Awaiter, b.op = .finish ∧ awaiterHandleEvent s a evt ok =
      if evt = 0 then issue { s with awaiting := some b } .finish .awaiter 1
      else resume (resetStream s) b := by
  refine ⟨if ok then a
    else { a with status := { code := .unknown, message := "Event returned ok=false" } }, ?_, ?_⟩
  · cases ok <;> exact hf
  · cases evt <;> simp [awaiterHandleEvent, hf]

/-- The only pending completion takes its tag off the queue and calls its awaiter. -/
theorem complete_awaiter {s : State m} {a : Awaiter} {evt : Nat} {op : Op}
    (ha : s.awaiting = some a) (hp : s.pending = [⟨.awaiter, evt, op⟩]) (ok : Bool)
    (status : Status) : complete s ⟨.awaiter, evt, op⟩ ok status =
      awaiterHandleEvent { s with pending := [], log := s.log ++ [.done op ok] }
        { a with status := if op = .finish then status else a.status } evt ok := by
  simp [complete, ha, hp]

theorem complete_state {s : State m} {evt : Nat} {op : Op}
    (hp : s.pending = [⟨.state, evt, op⟩]) (ok : Bool) (status : Status) :
    complete s ⟨.state, evt, op⟩ ok status =
      stateHandleEvent { s with
        pending := []
        log := s.log ++ [.done op ok]
        exitStatus := if op = .finish then status else s.exitStatus } evt := by
  simp [complete, hp]

@[simp] theorem issue_defaultClientCq (s : State m) (op : Op) (receiver : Receiver) (evt : Nat) :
    (issue s op receiver evt).defaultClientCq = s.defaultClientCq := by
  unfold issue
  split <;> rfl

@[simp] theorem resetStream_frame (s : State m) :
    (resetStream s).defaultClientCq = s.defaultClientCq ∧
    (resetStream s).storing = s.storing ∧ (resetStream s).stale = s.stale ∧
    (resetStream s).startResult = s.startResult := by
  unfold resetStream
  split <;> simp

@[simp] theorem awaiterHandleEvent_frame (s : State m) (a : Awaiter) (evt : Nat) (ok : Bool) :
    (awaiterHandleEvent s a evt ok).defaultClientCq = s.defaultClientCq ∧
    (awaiterHandleEvent s a evt ok).storing = s.storing ∧
    (awaiterHandleEvent s a evt ok).stale = s.stale := by
  cases hop : a.op with
  | start => cases ok <;> simp [awaiterHandleEvent, hop, resume]
  | finish =>
    obtain ⟨b, -, heq⟩ := awaiterHandleEvent_finish s hop evt ok
    rw [heq]
    split <;> simp [resume]
  | _ => simp [awaiterHandleEvent, hop, resume]

@[simp] theorem stateHandleEvent_frame (s : State m) (evt : Nat) :
    (stateHandleEvent s evt).storing = s.storing ∧
    (stateHandleEvent s evt).stale = s.stale ∧
    (stateHandleEvent s evt).startResult = s.startResult := by
  cases evt <;> simp [stateHandleEvent, deleteThis]

@[simp] theorem complete_frame (s : State m) (tag : Tag) (ok : Bool) (status : Status) :
    (complete s tag ok status).storing = s.storing ∧
    (complete s tag ok status).stale = s.stale := by
  cases hr : tag.receiver <;> cases ha : s.awaiting <;> simp [complete, hr, ha]

@[simp] theorem issueLast_frame (s : State m) (receiver : Receiver) :
    (issueLast s receiver).defaultClientCq = s.defaultClientCq ∧
    (issueLast s receiver).storing = s.storing ∧ (issueLast s receiver).stale = s.stale ∧
    (issueLast s receiver).startResult = s.startResult ∧
    (issueLast s receiver).awaiting = s.awaiting := by
  unfold issueLast
  split <;> simp

@[simp] theorem destruct_frame (s : State m) :
    (destruct s).storing = s.storing ∧ (destruct s).stale = s.stale ∧
    (destruct s).startResult = s.startResult ∧ (destruct s).awaiting = s.awaiting := by
  unfold destruct
  split <;> simp [deleteThis]

@[simp] theorem await_defaultClientCq (s : State m) (op : Op) :
    (await s op).defaultClientCq = s.defaultClientCq := by
  unfold await
  split
  · rfl
  · cases op <;> simp [awaitSuspend]

@[simp] theorem store_defaultClientCq (s : State m) :
    (store s).defaultClientCq = s.defaultClientCq ∧
    (storeStale s).defaultClientCq = s.defaultClientCq := by
  simp [store, storeStale]

/-- Only `start` leaves an assignment behind. -/
theorem stale_step {s s' : State m} {a : Action} (hs : step s a = some s')
    (ha : ∀ nullCq, a ≠ .start nullCq) : s'.stale ≤ s.stale := by
  obtain ⟨⟨-, he⟩, rfl⟩ := stepOf_eq_some.mp hs
  cases a with
  | start nullCq => exact absurd rfl (ha nullCq)
  | await op => rcases await_eq s he.1 with heq | ⟨op', evt, -, heq⟩ <;> simp [next, heq]
  | storeStale => simp [next, storeStale]
  | _ => simp [next, store]

/-- Only `start` takes a reference to the default queue. -/
theorem start_of_acquires {s : State m} {a : Action} (hb : s.defaultClientCq = false)
    (ha : (next s a).defaultClientCq = true) : a = .start true := by
  cases a with
  | start nullCq => simpa [next, start, awaitSuspend, hb] using ha
  | complete tag ok status =>
    simp only [next, complete] at ha
    split at ha
    · cases htag : tag.evt <;> simp [stateHandleEvent, htag, deleteThis, hb] at ha
    · simp [hb] at ha
    · simp [hb] at ha
  | destroy =>
    by_cases hstream : s.stream = true
    · simp [next, destruct, hstream, hb] at ha
    · simp [next, destruct, hstream, deleteThis] at ha
  | _ => simp [next, hb] at ha

/-- Only a completion, or the destructor of a call without a stream, gives it back. -/
theorem releases_cases {s : State m} {a : Action} (hb : s.defaultClientCq = true)
    (ha : (next s a).defaultClientCq = false) :
    (∃ tag ok status, a = .complete tag ok status) ∨ a = .destroy ∧ s.stream = false := by
  cases a with
  | start nullCq => simp [next, start, awaitSuspend, hb] at ha
  | complete tag ok status => exact .inl ⟨tag, ok, status, rfl⟩
  | destroy =>
    refine .inr ⟨rfl, ?_⟩
    by_contra hstream
    rw [Bool.not_eq_false] at hstream
    simp [next, destruct, hstream, hb] at ha
  | _ => simp [next, hb] at ha

end AsyncppGrpc.Call
