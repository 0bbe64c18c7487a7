import AsyncppGrpc.TaskAccounting

/-! A task frame on a server that is stopped. Event 0 of the initial awaiter looks at `ok` and
destroys the frame of a cancelled request; event 1, the completion of a rejecting Finish,
requests the next call whatever has happened to the queue. -/
namespace AsyncppGrpc.Task
open Run
variable {R Req Resp : Type*}

/-- A frame, how far `stop` has got with the server and with the frame's queue, and whether
`start_grpc_call` was executed on the queue after its `Shutdown`. -/
structure Hosted (R Req Resp : Type*) where
  frame : Frame R Req Resp
  serverDown : Bool
  queueDown : Bool
  lateCall : Bool

inductive HostAction (R Req Resp : Type*) where
  | frame (a : Action R Req Resp)
  | shutdownServer
  | shutdownQueue

/-- The frame has requested one more call. -/
def requestsCall (s s' : Frame R Req Resp) : Bool :=
  decide (s.pending.count .request < s'.pending.count .request)

def Hosted.init [Inhabited Req] [Inhabited Resp] (m : RpcMethodType) : Hosted R Req Resp :=
  ⟨.init m, false, false, false⟩

/-- `start_grpc_call` has not been executed on a queue that is shut down. -/
def NoLateRequest (s : Hosted R Req Resp) : Prop := s.lateCall = false

/-- The completion of a rejecting Finish is delivered before the queue's `Shutdown`. -/
def RejectionsFirst (s : Hosted R Req Resp) : HostAction R Req Resp → Prop
  | .frame (.complete .rejection _) => s.queueDown = false
  | _ => True

theorem finalSuspend_pending (s : Frame R Req Resp) :
    (finalSuspend s).pending = s.pending ++ [.final] := by
  obtain ⟨hook, op, heq⟩ := finalSuspend_eq s
  rw [heq]
  rfl

section
variable [DecidableEq Resp] {s : Frame R Req Resp}

theorem destroy_pending (p : Point Resp) : (destroy s p).pending = s.pending := by
  unfold destroy
  split <;> rfl

theorem resume_pending (p : Point Resp) : (resume s p).pending = s.pending := by
  unfold resume
  split <;> rfl

theorem operationHandleEvent_pending (ok : Bool) :
    (operationHandleEvent s ok).pending = s.pending := by
  unfold operationHandleEvent
  split
  · exact resume_pending _
  · rfl

theorem requestHandleEvent_pending (call : Option (R × Req)) :
    (requestHandleEvent s call).pending = s.pending := by
  cases call with
  | none => exact destroy_pending _
  | some call => rfl

theorem authenticate_pending (result : Status) : (authenticate s result).pending =
    if result.ok then s.pending else s.pending ++ [.rejection] := by
  cases hr : result.ok with
  | true =>
    rw [authenticate_accepted s hr, resume_pending]
    rfl
  | false =>
    obtain ⟨op, heq⟩ := authenticate_rejected s hr
    rw [heq]
    rfl

theorem receiveDone_pending (ok : Bool) : (receiveDone s ok).pending = s.pending := by
  unfold receiveDone
  split
  · rfl
  · rw [promiseHandleEvent_eq]

end

section
variable [DecidableEq R] [DecidableEq Resp] [Inhabited Req]

/-- `stop` shuts the queue down after the server; both may come between any two events of the
frame, and what is queued is still delivered afterwards. -/
def HostEnabled (s : Hosted R Req Resp) : HostAction R Req Resp → Prop
  | .frame a => Enabled s.frame a
  | .shutdownServer => s.serverDown = false
  | .shutdownQueue => s.serverDown = true ∧ s.queueDown = false

instance (s : Hosted R Req Resp) (a : HostAction R Req Resp) : Decidable (HostEnabled s a) :=
  match a with
  | .frame a => inferInstanceAs (Decidable (Enabled s.frame a))
  | .shutdownServer => inferInstanceAs (Decidable (s.serverDown = false))
  | .shutdownQueue => inferInstanceAs (Decidable (s.serverDown = true ∧ s.queueDown = false))

def hostNext (s : Hosted R Req Resp) : HostAction R Req Resp → Hosted R Req Resp
  | .frame a => { s with
      frame := next s.frame a
      lateCall := s.lateCall || s.queueDown && requestsCall s.frame (next s.frame a) }
  | .shutdownServer => { s with serverDown := true }
  | .shutdownQueue => { s with queueDown := true }

def hostStep : Hosted R Req Resp → HostAction R Req Resp → Option (Hosted R Req Resp) :=
  stepOf HostEnabled hostNext

variable {s : Frame R Req Resp}

/-- After its creation a frame requests calls in the handler of its rejecting Finish only. -/
theorem requestsCall_iff {a : Action R Req Resp} (h : Accounted s) (he : Enabled s a) :
    requestsCall s (next s a) = true ↔ ∃ ok, a = .complete .rejection ok := by
  cases a with
  | request call =>
    rw [h.next_request he.1]
    simp [requestsCall, requestHandleEvent_pending]
  | authenticate result =>
    rw [h.next_authenticate he]
    cases hr : result.ok <;> simp [requestsCall, authenticate_pending, hr]
  | complete tag ok =>
    rw [h.next_complete he.2]
    obtain ⟨-, hpend, -⟩ := h.outstanding.of_mem he.2
    cases tag with
    | request => exact absurd rfl he.1
    | rejection => simp [requestsCall, complete, rejectionHandleEvent, startGrpcCall, hpend]
    | operation => simp [requestsCall, complete, operationHandleEvent_pending, hpend]
    | final => simp [requestsCall, complete, destroy_pending, hpend]
  | done rpc ok => simp [requestsCall, next, receiveDone_pending]
  | await op => simp [requestsCall, next, await, issue, callHook]
  | coReturn status => simp [requestsCall, next, coReturn, finalSuspend_pending]
  | throws status => simp [requestsCall, next, throws, finalSuspend_pending, callHook]
  | _ => simp [requestsCall, next]

theorem hosted_accounted_step {s s' : Hosted R Req Resp} {a : HostAction R Req Resp}
    (h : Accounted s.frame) (hs : hostStep s a = some s') : Accounted s'.frame := by
  obtain ⟨he, rfl⟩ := stepOf_eq_some.mp hs
  cases a with
  | frame a => exact accounted_step h (stepOf_eq_some.mpr ⟨he, rfl⟩)
  | _ => exact h

theorem noLateRequest_step {s s' : Hosted R Req Resp} {a : HostAction R Req Resp}
    (h : Accounted s.frame) (hl : NoLateRequest s) (hs : hostStep s a = some s') :
    NoLateRequest s' ↔ RejectionsFirst s a := by
  obtain ⟨he, rfl⟩ := stepOf_eq_some.mp hs
  cases a with
  | frame a =>
    have hiff := requestsCall_iff h he
    have hlate : NoLateRequest (hostNext s (.frame a)) ↔
        (s.queueDown = true → ∀ ok, a ≠ .complete .rejection ok) := by
      rw [NoLateRequest, hostNext, show s.lateCall = false from hl, Bool.false_or,
        ← Bool.not_eq_true, Bool.and_eq_true, hiff]
      simp
    rw [hlate]
    cases a with
    | complete tag ok => cases tag <;> simp [RejectionsFirst]
    | _ => simp [RejectionsFirst]
  | _ => exact iff_of_true hl trivial

/-- Under any interleaving of `stop` with a frame's events, and for every outcome of every
completion: the frame requests no call on a queue that is shut down exactly if every
completion of a rejecting Finish is delivered before the queue's `Shutdown`. -/
theorem no_late_request_iff [Inhabited Resp] {m : RpcMethodType}
    (as : List (HostAction R Req Resp)) :
    Always hostStep NoLateRequest (.init m : Hosted R Req Resp) as ↔
      Guarded hostStep RejectionsFirst (.init m : Hosted R Req Resp) as := by
  apply always_iff_guarded_of_inv (I := fun s : Hosted R Req Resp => Accounted s.frame)
  · exact accounted_init m
  · rfl
  · exact fun _ _ _ => hosted_accounted_step
  · exact fun _ _ _ => noLateRequest_step

/-- An RPC is rejected, its Finish ends it, and `stop` is done with the server and the queue
before the completion of that Finish is handled. -/
def rejectionAfterShutdown : List (HostAction Nat Unit Unit) :=
  [.frame (.request (some (0, ()))), .frame (.authenticate { code := .unauthenticated }),
    .shutdownServer, .shutdownQueue, .frame (.complete .rejection true)]

theorem rejectionAfterShutdown_late : ∃ s : Hosted Nat Unit Unit,
    run hostStep (.init .unary) rejectionAfterShutdown = some s ∧ s.queueDown = true ∧
      s.frame.pending = [.request] ∧ ¬NoLateRequest s := by
  exact ⟨_, rfl, rfl, rfl, Bool.noConfusion⟩

end
end AsyncppGrpc.Task
