import AsyncppGrpc.Library.Run
import AsyncppGrpc.Rpc
import Mathlib.Logic.Function.Basic

/-! One `task` frame: its promise with the `task_rpc_context`, the awaiters of the initial
suspend, of the operations and of the final suspend, and the tags gRPC holds into it. `R` is
the type of the RPCs that reach the task; hooks do not touch the context. -/
namespace AsyncppGrpc.Task
open Run

/-- A `grpc::ServerContext`: the RPC bound to it, and whether `AsyncNotifyWhenDone` was
called on it. -/
structure ServerContext (R : Type*) where
  rpc : Option R := none
  notify : Bool := false
  deriving DecidableEq

inductive StreamOp (Resp : Type*) where
  | sendInitialMetadata
  | read
  | write (msg : Resp)
  | finish (status : Status)
  | finishWithResponse (response : Resp) (status : Status)
  | finishWithError (status : Status)
  deriving DecidableEq

/-- A server stream: the RPC it serves and what was issued on it. -/
structure Stream (R Resp : Type*) where
  rpc : Option R := none
  issued : List (StreamOp Resp) := []
  deriving DecidableEq

/-- The members of `task_rpc_context` but for the queue and the hooks. -/
structure Context (R Req Resp : Type*) where
  isCancelled : Bool := false
  context : ServerContext R := {}
  status : Status := {}
  stream : Stream R Resp := {}
  request : Req
  response : Resp
  deriving DecidableEq

/-- The operations of the context. -/
inductive Op (Resp : Type*) where
  | sendInitialMetadata
  | read
  | write (msg : Resp)
  deriving DecidableEq

/-- The `requires` clauses. -/
def Op.offered {Resp : Type*} (m : RpcMethodType) : Op Resp → Bool
  | .sendInitialMetadata => true
  | .read => m.isClientStreaming
  | .write _ => m.isServerStreaming

inductive Hook (Resp : Type*) where
  | onAuthenticate
  | onStart
  | onFinish (status : Status) (response : Option Resp)
  | onSendInitialMetadataStart
  | onSendInitialMetadataDone (ok : Bool)
  | onReadStart
  | onReadDone (ok : Bool)
  | onWriteStart (msg : Resp)
  | onWriteDone (ok : Bool)
  | onUnhandledException
  deriving DecidableEq

/-- The operation tags into the frame: the call request and the rejecting Finish on the
initial awaiter, the current operation's awaiter and the final awaiter. -/
inductive Tag where
  | request
  | rejection
  | operation
  | final
  deriving DecidableEq

/-- Where the coroutine is suspended, unless it executes its body or is destroyed. -/
inductive Point (Resp : Type*) where
  | initial
  | body
  | operation (op : Op Resp)
  | final
  | destroyed
  deriving DecidableEq

/-- What a hook observer and gRPC see of a task, in order, and what its operations return to
the body. -/
inductive Event (Resp : Type*) where
  | hook (hook : Hook Resp)
  | issue (op : StreamOp Resp)
  | received (ok : Bool)
  deriving DecidableEq

/-- A handle is resumed or destroyed while the coroutine is not suspended at its awaiter, or
an awaiter gets an event after the destruction. -/
inductive Fault where
  | badResume
  | badDestroy
  | badEvent
  deriving DecidableEq

/-- `pending` are the operation tags gRPC holds, `authenticating` says that the callback of
`on_authenticate` is outstanding, and `dones` are the started RPCs whose done notification is
not delivered. `cancelled` are the RPCs their clients have cancelled. `lateDone`: the promise
has got an event after its destruction. -/
structure Frame (R Req Resp : Type*) where
  method : RpcMethodType
  ctx : Context R Req Resp
  point : Point Resp
  pending : List Tag
  authenticating : Bool
  dones : List R
  started : List R
  cancelled : R → Bool
  trace : List (Event Resp)
  destroys : Nat
  lateDone : Bool
  fault : Option Fault

/-- `request`: the call request completes, with an RPC and its message if it is ok;
`authenticate`: the hook calls back; `throws`: the body throws what the hook translates to
the given status. -/
inductive Action (R Req Resp : Type*) where
  | request (call : Option (R × Req))
  | authenticate (result : Status)
  | complete (tag : Tag) (ok : Bool)
  | done (rpc : R) (ok : Bool)
  | cancel (rpc : R)
  | await (op : Op Resp)
  | respond (response : Resp)
  | coReturn (status : Status)
  | throws (status : Status)

variable {R Req Resp : Type*}

/-- `IsCancelled` of the server context. -/
def isCancelled (s : Frame R Req Resp) : Bool :=
  match s.ctx.context.rpc with
  | none => false
  | some rpc => s.cancelled rpc

def callHook (s : Frame R Req Resp) (hook : Hook Resp) : Frame R Req Resp :=
  { s with trace := s.trace ++ [.hook hook] }

def issue (s : Frame R Req Resp) (op : StreamOp Resp) (tag : Tag) : Frame R Req Resp :=
  { s with
    ctx := { s.ctx with stream := { s.ctx.stream with issued := s.ctx.stream.issued ++ [op] } }
    pending := s.pending ++ [tag]
    trace := s.trace ++ [.issue op] }

/-- `start_grpc_call`. -/
def startGrpcCall [Inhabited Req] (s : Frame R Req Resp) : Frame R Req Resp :=
  { s with
    ctx := { s.ctx with
      context := { s.ctx.context with notify := true }
      request := if s.method.isClientStreaming then s.ctx.request else default }
    pending := s.pending ++ [.request] }

/-- A created task: its initial awaiter has requested the first call. -/
def Frame.init [Inhabited Req] [Inhabited Resp] (m : RpcMethodType) : Frame R Req Resp :=
  startGrpcCall {
    method := m
    ctx := { request := default, response := default }
    point := .initial
    pending := []
    authenticating := false
    dones := []
    started := []
    cancelled := fun _ => false
    trace := []
    destroys := 0
    lateDone := false
    fault := none }

def Op.startHook : Op Resp → Hook Resp
  | .sendInitialMetadata => .onSendInitialMetadataStart
  | .read => .onReadStart
  | .write msg => .onWriteStart msg

def Op.doneHook (ok : Bool) : Op Resp → Hook Resp
  | .sendInitialMetadata => .onSendInitialMetadataDone ok
  | .read => .onReadDone ok
  | .write _ => .onWriteDone ok

def Op.streamOp : Op Resp → StreamOp Resp
  | .sendInitialMetadata => .sendInitialMetadata
  | .read => .read
  | .write msg => .write msg

/-- Event 1 of the initial awaiter resets context and stream and requests the next call. -/
def rejectionHandleEvent [Inhabited Req] (s : Frame R Req Resp) : Frame R Req Resp :=
  startGrpcCall { s with ctx := { s.ctx with context := {}, stream := {} } }

/-- `await_suspend` of an operation's awaiter. -/
def await (s : Frame R Req Resp) (op : Op Resp) : Frame R Req Resp :=
  issue (callHook { s with point := .operation op } op.startHook) op.streamOp .operation

/-- `await_suspend` of the final awaiter. -/
def finalSuspend (s : Frame R Req Resp) : Frame R Req Resp :=
  let s : Frame R Req Resp := { s with point := .final }
  if s.method.isServerStreaming then
    issue (callHook s (.onFinish s.ctx.status none)) (.finish s.ctx.status) .final
  else if s.ctx.status.ok then
    issue (callHook s (.onFinish s.ctx.status (some s.ctx.response)))
      (.finishWithResponse s.ctx.response s.ctx.status) .final
  else
    issue (callHook s (.onFinish s.ctx.status none)) (.finishWithError s.ctx.status) .final

theorem finalSuspend_eq (s : Frame R Req Resp) : ∃ hook op,
    finalSuspend s = issue (callHook { s with point := .final } hook) op .final := by
  unfold finalSuspend
  dsimp only
  split
  · exact ⟨_, _, rfl⟩
  · split
    · exact ⟨_, _, rfl⟩
    · exact ⟨_, _, rfl⟩

theorem finalSuspend_point (s : Frame R Req Resp) :
    (finalSuspend s).point = .final ∧ (finalSuspend s).lateDone = s.lateDone := by
  obtain ⟨hook, op, heq⟩ := finalSuspend_eq s
  rw [heq]
  exact ⟨rfl, rfl⟩

/-- `return_value`. -/
def coReturn (s : Frame R Req Resp) (status : Status) : Frame R Req Resp :=
  finalSuspend { s with ctx := { s.ctx with status := status } }

/-- `unhandled_exception`. -/
def throws (s : Frame R Req Resp) (status : Status) : Frame R Req Resp :=
  let s : Frame R Req Resp := callHook s .onUnhandledException
  finalSuspend { s with ctx := { s.ctx with status := status } }

/-- `promise_type::handle_event`. -/
def promiseHandleEvent (s : Frame R Req Resp) (ok : Bool) : Frame R Req Resp :=
  if ok && isCancelled s then { s with ctx := { s.ctx with isCancelled := true } } else s

theorem promiseHandleEvent_eq (s : Frame R Req Resp) (ok : Bool) :
    promiseHandleEvent s ok =
      { s with ctx := { s.ctx with isCancelled := s.ctx.isCancelled || ok && isCancelled s } } := by
  unfold promiseHandleEvent
  cases h : ok && isCancelled s <;> simp

section
variable [DecidableEq Resp]

/-- `m_handle.destroy()` by the awaiter at point `p`. -/
def destroy (s : Frame R Req Resp) (p : Point Resp) : Frame R Req Resp :=
  if s.point = p then { s with point := .destroyed, destroys := s.destroys + 1 }
  else { s with fault := some .badDestroy }

/-- `m_handle.resume()` by the awaiter at point `p`. -/
def resume (s : Frame R Req Resp) (p : Point Resp) : Frame R Req Resp :=
  if s.point = p then { s with point := .body } else { s with fault := some .badResume }

/-- Event 0 of the initial awaiter. If it is ok, gRPC has bound the context and the stream
and filled the request. -/
def requestHandleEvent (s : Frame R Req Resp) (call : Option (R × Req)) : Frame R Req Resp :=
  match call with
  | none => destroy s .initial
  | some (rpc, msg) => { s with
      ctx := { s.ctx with
        context := { s.ctx.context with rpc := some rpc }
        stream := { s.ctx.stream with rpc := some rpc }
        request := if s.method.isClientStreaming then s.ctx.request else msg }
      started := s.started ++ [rpc]
      dones := if s.ctx.context.notify then s.dones ++ [rpc] else s.dones
      trace := s.trace ++ [.hook .onAuthenticate]
      authenticating := true }

/-- The callback given to `on_authenticate`. -/
def authenticate (s : Frame R Req Resp) (result : Status) : Frame R Req Resp :=
  if result.ok then resume (callHook s .onStart) .initial
  else if s.method.isServerStreaming then issue s (.finish result) .rejection
  else issue s (.finishWithError result) .rejection

theorem authenticate_accepted (s : Frame R Req Resp) {result : Status} (h : result.ok) :
    authenticate s result = resume (callHook s .onStart) .initial :=
  if_pos h

theorem authenticate_rejected (s : Frame R Req Resp) {result : Status} (h : result.ok = false) :
    ∃ op, authenticate s result = issue s op .rejection := by
  unfold authenticate
  rw [if_neg (by simp [h])]
  split
  · exact ⟨_, rfl⟩
  · exact ⟨_, rfl⟩

/-- `handle_event` of an operation's awaiter. -/
def operationHandleEvent (s : Frame R Req Resp) (ok : Bool) : Frame R Req Resp :=
  match s.point with
  | .operation op =>
    resume { s with trace := s.trace ++ [.hook (op.doneHook ok), .received ok] } (.operation op)
  | _ => { s with fault := some .badResume }

/-- The completion of an operation other than the call request. -/
def complete [Inhabited Req] (s : Frame R Req Resp) (tag : Tag) (ok : Bool) :
    Frame R Req Resp :=
  match tag with
  | .rejection => rejectionHandleEvent s
  | .operation => operationHandleEvent s ok
  | .final => destroy s .final
  | .request => s

/-- An awaiter's event is delivered. -/
def receive (s : Frame R Req Resp) (handle : Frame R Req Resp → Frame R Req Resp) :
    Frame R Req Resp :=
  if s.point = .destroyed then { s with fault := some .badEvent } else handle s

/-- A done notification is delivered. -/
def receiveDone (s : Frame R Req Resp) (ok : Bool) : Frame R Req Resp :=
  if s.point = .destroyed then { s with lateDone := true } else promiseHandleEvent s ok

theorem receive_of_live {s : Frame R Req Resp} (hp : s.point ≠ .destroyed)
    (handle : Frame R Req Resp → Frame R Req Resp) : receive s handle = handle s :=
  if_neg hp

variable [DecidableEq R]

/-- gRPC delivers what it holds, a done notification at any time after the RPC's start. -/
def Enabled (s : Frame R Req Resp) : Action R Req Resp → Prop
  | .request call => .request ∈ s.pending ∧ ∀ rpc ∈ call.map Prod.fst, rpc ∉ s.started
  | .authenticate _ => s.authenticating
  | .complete tag _ => tag ≠ .request ∧ tag ∈ s.pending
  | .done rpc _ => rpc ∈ s.dones
  | .cancel _ => True
  | .await op => s.point = .body ∧ op.offered s.method
  | .respond _ => s.point = .body ∧ s.method.isServerStreaming = false
  | .coReturn _ | .throws _ => s.point = .body

instance (s : Frame R Req Resp) (a : Action R Req Resp) : Decidable (Enabled s a) := by
  cases a <;> unfold Enabled <;> infer_instance

variable [Inhabited Req]

def next (s : Frame R Req Resp) : Action R Req Resp → Frame R Req Resp
  | .request call =>
    receive { s with pending := s.pending.erase .request } (requestHandleEvent · call)
  | .authenticate result => receive { s with authenticating := false } (authenticate · result)
  | .complete tag ok => receive { s with pending := s.pending.erase tag } (complete · tag ok)
  | .done rpc ok => receiveDone { s with dones := s.dones.erase rpc } ok
  | .cancel rpc => { s with cancelled := Function.update s.cancelled rpc true }
  | .await op => await s op
  | .respond response => { s with ctx := { s.ctx with response := response } }
  | .coReturn status => coReturn s status
  | .throws status => throws s status

def step : Frame R Req Resp → Action R Req Resp → Option (Frame R Req Resp) :=
  stepOf Enabled next

end
end AsyncppGrpc.Task
