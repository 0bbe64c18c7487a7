import AsyncppGrpc.TaskOutcome
import AsyncppGrpc.TaskRejection
import AsyncppGrpc.Library.ServerStream

/-! What a task does to its server streams: it keeps their contract for every RPC, but for the
initial metadata, whose sending is left to the body. -/
namespace AsyncppGrpc.Task
open Run
open ServerStream (Wire)
variable {R Req Resp : Type*}

/-- What an operation is to the stream. -/
def StreamOp.role : StreamOp Resp → ServerStream.Role
  | .sendInitialMetadata => .metadata
  | .read => .read
  | .write _ => .write
  | .finish _ | .finishWithResponse _ _ | .finishWithError _ => .finish

/-- The operations of a trace. -/
def issues (trace : List (Event Resp)) : List (StreamOp Resp) :=
  trace.filterMap fun
    | .issue op => some op
    | _ => none

/-- The metadata of the RPC is sent. -/
def sent (s : Frame R Req Resp) : Bool := s.ctx.stream.issued.any fun op => op.role ≠ .read

/-- The stream of the RPC that the task serves. -/
def wire (s : Frame R Req Resp) : Wire :=
  match s.point with
  | .initial =>
    if s.authenticating then .ready (sent s)
    else if .rejection ∈ s.pending then .busy (sent s) .finish
    else .idle
  | .body => .ready (sent s)
  | .operation op => .busy (sent s) op.streamOp.role
  | .final => .busy (sent s) .finish
  | .destroyed => .idle

/-- The body sends the initial metadata before anything that sends it. -/
def MetadataFirst (s : Frame R Req Resp) : Action R Req Resp → Prop
  | .await .sendInitialMetadata => sent s = false
  | _ => True

theorem rejectOp_role (m : RpcMethodType) (status : Status) :
    (rejectOp m status : StreamOp Resp).role = .finish := by
  unfold rejectOp
  split <;> rfl

theorem terminalOp_role (m : RpcMethodType) (response : Resp) (status : Status) :
    (terminalOp m response status).role = .finish := by
  unfold terminalOp
  split
  · rfl
  · split <;> rfl

section
variable [Inhabited Req] [Inhabited Resp]

structure ContractInv (m : RpcMethodType) (s : Frame R Req Resp) : Prop where
  inv : Inv m s
  traced : ∃ d, Traced m s d

theorem ContractInv.method {m : RpcMethodType} {s : Frame R Req Resp}
    (h : ContractInv m s) : s.method = m := by
  obtain ⟨d, hd⟩ := h.traced
  exact hd.method

end

section
variable [DecidableEq R] [DecidableEq Resp] [Inhabited Req]

/-- The operation a step issues. -/
def issuedBy (s : Frame R Req Resp) (a : Action R Req Resp) : Option (StreamOp Resp) :=
  (issues (next s a).trace)[(issues s.trace).length]?

/-- What a step is to the stream. -/
def streamEvent (s : Frame R Req Resp) (a : Action R Req Resp) :
    Option (ServerStream.Event (StreamOp Resp)) :=
  match a with
  | .request (some _) => some .bind
  | .complete _ _ => some .done
  | _ => (issuedBy s a).map .issue

instance (s : Frame R Req Resp) (a : Action R Req Resp) : Decidable (MetadataFirst s a) :=
  match a with
  | .await .sendInitialMetadata => inferInstanceAs (Decidable (sent s = false))
  | .await .read | .await (.write _) | .request _ | .authenticate _ | .complete _ _ | .done _ _
  | .cancel _ | .respond _ | .coReturn _ | .throws _ => instDecidableTrue

/-- The contract of the streams of a method. -/
def accept (m : RpcMethodType) :
    Wire → ServerStream.Event (StreamOp Resp) → Option Wire :=
  ServerStream.accept StreamOp.role m.isClientStreaming m.isServerStreaming

variable {s s' : Frame R Req Resp}

theorem issuedBy_none {a : Action R Req Resp} (h : issues (next s a).trace = issues s.trace) :
    issuedBy s a = none := by
  rw [issuedBy, h]
  simp

theorem issuedBy_some {a : Action R Req Resp} (op : StreamOp Resp)
    (h : issues (next s a).trace = issues s.trace ++ [op]) : issuedBy s a = some op := by
  rw [issuedBy, h]
  simp

/-- A step that issues an operation on a ready stream. -/
theorem becomes_issue {m : RpcMethodType} {a : Action R Req Resp} (op : StreamOp Resp)
    (hevent : streamEvent s a = (issuedBy s a).map .issue)
    (hissue : issues (next s a).trace = issues s.trace ++ [op]) (hready : wire s = .ready (sent s))
    (hbusy : wire (next s a) = .busy (op.role.sends (sent s)) op.role)
    (hallowed : ServerStream.Allowed m.isClientStreaming m.isServerStreaming (sent s) op.role) :
    Becomes (accept m) (wire s) (wire (next s a)) (streamEvent s a) := by
  rw [hevent, issuedBy_some op hissue, Option.map_some, Becomes, hready, hbusy]
  exact if_pos hallowed

/-- A step that neither issues nor completes anything. -/
theorem becomes_none {m : RpcMethodType} {a : Action R Req Resp}
    (hevent : streamEvent s a = (issuedBy s a).map .issue)
    (hissue : issues (next s a).trace = issues s.trace) (hwire : wire (next s a) = wire s) :
    Becomes (accept m) (wire s) (wire (next s a)) (streamEvent s a) := by
  rw [hevent, issuedBy_none hissue, Option.map_none, Becomes]
  exact hwire

/-- The end of a body. -/
theorem becomes_ends {m : RpcMethodType} {a : Action R Req Resp} (hp : s.point = .body)
    (hevent : streamEvent s a = (issuedBy s a).map .issue) (status : Status) (thrown : Bool)
    (hs : next s a = finalSuspend { s with
      ctx := { s.ctx with status := status }
      trace := s.trace ++ if thrown then [.hook .onUnhandledException] else [] }) :
    Becomes (accept m) (wire s) (wire (next s a)) (streamEvent s a) := by
  have hrole := terminalOp_role s.method s.ctx.response status
  rw [finalSuspend_issues] at hs
  refine becomes_issue (terminalOp s.method s.ctx.response status) hevent ?_ ?_ ?_ ?_
  · rw [hs]
    cases thrown <;> simp [issue, callHook, issues]
  · simp [wire, hp]
  · rw [hs]
    simp [wire, issue, callHook, sent, hrole, ServerStream.Role.sends]
  · rw [hrole]
    trivial

/-- Late metadata is refused. -/
theorem refused_step {m : RpcMethodType} {a : Action R Req Resp}
    (hlate : ¬MetadataFirst s a) (hs : step s a = some s') :
    ∃ b, streamEvent s a = some b ∧ accept m (wire s) b = none := by
  obtain ⟨he, rfl⟩ := stepOf_eq_some.mp hs
  cases a with
  | await op =>
    cases op with
    | sendInitialMetadata =>
      have hp : s.point = .body := he.1
      have hsent : sent s = true := by simpa [MetadataFirst] using hlate
      refine ⟨.issue .sendInitialMetadata, ?_, ?_⟩
      · simp only [streamEvent]
        rw [issuedBy_some .sendInitialMetadata]
        · rfl
        · simp [next, await, issue, callHook, issues, Op.streamOp]
      · simp [wire, hp, accept, ServerStream.accept, StreamOp.role, ServerStream.Allowed, hsent]
    | _ => exact absurd trivial hlate
  | _ => exact absurd trivial hlate

variable [Inhabited Resp]

theorem becomes_request {m : RpcMethodType} {call : Option (R × Req)} (h : ContractInv m s)
    (he : Enabled s (.request call)) : Becomes (accept m) (wire s)
      (wire (next s (.request call))) (streamEvent s (.request call)) := by
  obtain ⟨hp, hpend, ha, -⟩ := h.inv.accounted.outstanding.of_mem he.1
  have hp : s.point = .initial := hp
  have hidle : wire s = .idle := by simp [wire, hp, ha, hpend]
  have hnext := h.inv.accounted.next_request he.1 call
  cases call with
  | none =>
    rw [requestHandleEvent, destroy, if_pos (by exact hp)] at hnext
    refine becomes_none rfl (by rw [hnext]) ?_
    rw [hidle, hnext]
    rfl
  | some call =>
    have hstream := ((h.inv.rearmed hp).requested he.1).2
    rw [hidle, hnext]
    simp [streamEvent, Becomes, accept, ServerStream.accept, wire, requestHandleEvent, hp, sent,
      hstream]

theorem becomes_authenticate {m : RpcMethodType} {result : Status} (h : ContractInv m s)
    (he : Enabled s (.authenticate result)) : Becomes (accept m) (wire s)
      (wire (next s (.authenticate result))) (streamEvent s (.authenticate result)) := by
  obtain ⟨hp, hpend, -⟩ := h.inv.accounted.outstanding.of_authenticating he
  have hauth : s.authenticating = true := he
  have hready : wire s = .ready (sent s) := by simp [wire, hp, hauth]
  have hnext := h.inv.accounted.next_authenticate he result
  cases hr : result.ok with
  | true =>
    rw [authenticate_accepted _ hr, resume, if_pos (by exact hp)] at hnext
    refine becomes_none rfl ?_ ?_
    · rw [hnext]
      simp [callHook, issues]
    · rw [hready, hnext]
      rfl
  | false =>
    have hrole : (rejectOp s.method result : StreamOp Resp).role = .finish := rejectOp_role _ _
    rw [authenticate_rejects _ hr] at hnext
    refine becomes_issue (rejectOp s.method result) rfl ?_ hready ?_ ?_
    · rw [hnext]
      simp [issue, issues]
    · rw [hnext]
      simp [wire, issue, hp, sent, hrole, ServerStream.Role.sends]
    · rw [hrole]
      trivial

theorem becomes_complete {m : RpcMethodType} {tag : Tag} {ok : Bool} (h : ContractInv m s)
    (he : Enabled s (.complete tag ok)) : Becomes (accept m) (wire s)
      (wire (next s (.complete tag ok))) (streamEvent s (.complete tag ok)) := by
  obtain ⟨hat, hpend, ha, -⟩ := h.inv.accounted.outstanding.of_mem he.2
  rw [h.inv.accounted.next_complete he.2]
  cases tag with
  | request => exact absurd rfl he.1
  | rejection =>
    have hp : s.point = .initial := hat
    simp [streamEvent, Becomes, accept, ServerStream.accept, wire, complete,
      rejectionHandleEvent, startGrpcCall, hp, ha, hpend]
  | operation =>
    obtain ⟨op, hop⟩ := hat
    have hrole : op.streamOp.role ≠ .finish := by cases op <;> simp [Op.streamOp, StreamOp.role]
    simp [streamEvent, Becomes, accept, ServerStream.accept, wire, complete,
      operationHandleEvent, resume, hop, hrole, sent]
  | final =>
    have hp : s.point = .final := hat
    simp [streamEvent, Becomes, accept, ServerStream.accept, wire, complete, destroy, hp]

/-- Every step is what its event says, if it sends the metadata in time. -/
theorem becomes_step {m : RpcMethodType} {a : Action R Req Resp} (h : ContractInv m s)
    (hfirst : MetadataFirst s a) (hs : step s a = some s') :
    Becomes (accept m) (wire s) (wire s') (streamEvent s a) := by
  obtain ⟨he, rfl⟩ := stepOf_eq_some.mp hs
  cases a with
  | request call => exact becomes_request h he
  | authenticate result => exact becomes_authenticate h he
  | complete tag ok => exact becomes_complete h he
  | done rpc ok =>
    have hkeep : (next s (.done rpc ok)).trace = s.trace ∧
        wire (next s (.done rpc ok)) = wire s := by
      simp only [next, receiveDone, promiseHandleEvent_eq]
      split
      · exact ⟨rfl, rfl⟩
      · exact ⟨rfl, rfl⟩
    exact becomes_none rfl (by rw [hkeep.1]) hkeep.2
  | cancel rpc => exact becomes_none rfl rfl rfl
  | await op =>
    have hp : s.point = .body := he.1
    refine becomes_issue op.streamOp rfl ?_ ?_ ?_ ?_
    · simp [next, await, issue, callHook, issues]
    · simp [wire, hp]
    · simp [wire, next, await, issue, callHook, sent, ServerStream.Role.sends]
    · have hoff := he.2
      rw [h.method] at hoff
      cases op with
      | sendInitialMetadata => exact hfirst
      | read => exact hoff
      | write msg => exact hoff
  | respond response => exact becomes_none rfl rfl rfl
  | coReturn status => exact becomes_ends he rfl status false (by simp [next, coReturn])
  | throws status => exact becomes_ends he rfl status true (by simp [next, throws, callHook])

theorem contractInv_step {m : RpcMethodType} {a : Action R Req Resp} (h : ContractInv m s)
    (hs : step s a = some s') : ContractInv m s' := by
  obtain ⟨d, hd⟩ := h.traced
  exact ⟨inv_step h.inv hs, _, traced_step h.inv.accounted hd hs⟩

/-- A task keeps the contract of its server streams, whatever its hooks, its body and its clients
do and in whatever order its events come, exactly if the body awaits `send_initial_metadata` in
no RPC after it or a write: each RPC has its operations issued on its stream one at a time, reads
and writes only where the method has them, and one Finish, the last. The streams of a destroyed
task have carried whole RPCs. -/
theorem stream_contract_iff {m : RpcMethodType} {as : List (Action R Req Resp)}
    (hr : run step (.init m) as = some s) :
    (run (accept m) .idle (labels step streamEvent (.init m) as) = some (wire s) ↔
      Guarded step MetadataFirst (.init m) as) ∧
    (Guarded step MetadataFirst (.init m) as → s.point = .destroyed →
      ServerStream.Sessions StreamOp.role m.isClientStreaming m.isServerStreaming
        (labels step streamEvent (.init m) as)) := by
  have hinit : ContractInv m (.init m : Frame R Req Resp) := ⟨inv_init m, _, traced_init m⟩
  have hiff := run_labels_iff (fun s a s' h hs => contractInv_step h hs)
    (fun s a s' h hfirst hs => becomes_step h hfirst hs)
    (fun s a s' _ hlate hs => refused_step hlate hs) hinit hr
  have hidle : wire (.init m : Frame R Req Resp) = .idle := by
    simp [wire, Frame.init, startGrpcCall]
  rw [hidle] at hiff
  refine ⟨hiff, fun hfirst hp => ?_⟩
  have hrun := hiff.mpr hfirst
  have hend : wire s = .idle := by simp [wire, hp]
  rw [hend] at hrun
  exact (ServerStream.sessions_iff _).mp hrun

/-- A rejected RPC, and one whose body sends the metadata and reads once. -/
def rejectThenRead : List (Action Nat Unit Unit) :=
  [.request (some (0, ())), .authenticate { code := .unauthenticated }, .complete .rejection true,
    .request (some (1, ())), .authenticate {}, .await .sendInitialMetadata,
    .complete .operation true, .await .read, .complete .operation false, .coReturn {},
    .complete .final true]

theorem rejectThenRead_contract : ∃ s : Frame Nat Unit Unit,
    run step (.init .clientStreaming) rejectThenRead = some s ∧
    ServerStream.Sessions StreamOp.role true false
      (labels step streamEvent (.init .clientStreaming) rejectThenRead) := by
  have hr : run step (.init .clientStreaming : Frame Nat Unit Unit) rejectThenRead = some _ := rfl
  have hfirst : Guarded step MetadataFirst (.init .clientStreaming : Frame Nat Unit Unit)
    rejectThenRead := by decide
  exact ⟨_, hr, (stream_contract_iff hr).2 hfirst rfl⟩

end
end AsyncppGrpc.Task
