import AsyncppGrpc.TaskTrace

/-! How an RPC ends: the translation of an exception that leaves the body, and the Finish
operations a task issues. -/
namespace AsyncppGrpc.Task
open Run
variable {R Req Resp : Type*}

/-- A thrown object as `exception_to_status` tells it from others: the status it is, that of
the `grpc_exception` it is, and the text of the `std::exception` it is. -/
structure Exception where
  asStatus : Option Status
  asGrpcException : Option Status
  asStdException : Option String
  derived : asGrpcException.isSome → asStdException.isSome

def Exception.ofStatus (status : Status) : Exception := ⟨some status, none, none, nofun⟩

/-- `grpc_exception(s)`, a `std::runtime_error` with the status' message. -/
def grpcException (s : Status) : Exception := ⟨none, some s, some s.message, fun _ => rfl⟩

/-- `default_strings` -/
def defaultStrings : List String :=
  ["OK", "CANCELLED", "UNKNOWN", "INVALID_ARGUMENT", "DEADLINE_EXCEEDED", "NOT_FOUND",
    "ALREADY_EXISTS", "PERMISSION_DENIED", "RESOURCE_EXHAUSTED", "FAILED_PRECONDITION",
    "ABORTED", "OUT_OF_RANGE", "UNIMPLEMENTED", "INTERNAL", "UNAVAILABLE", "DATA_LOSS",
    "UNAUTHENTICATED"]

/-- `static_cast<size_t>` -/
def toSize (value : Int) : Nat := (value % 0x10000000000000000).toNat

def defaultString (c : StatusCode) : String :=
  if toSize c.value > toSize StatusCode.unauthenticated.value then "UNKNOWN"
  else defaultStrings.getD (toSize c.value) ""

/-- `grpc_exception(c)` -/
def grpcExceptionOfCode (c : StatusCode) : Exception :=
  grpcException { code := c, message := defaultString c }

/-- `exception_to_status`; `ndebug`: the library is compiled with `NDEBUG`. -/
def exceptionToStatus (ndebug : Bool) (e : Exception) : Status :=
  match e.asStatus with
  | some s => s
  | none => match e.asGrpcException with
    | some s => s
    | none => match e.asStdException with
      | some what => { code := .internal, message := if ndebug then "Internal error" else what }
      | none => { code := .internal, message := "Unknown exception" }

/-- What leaves a body: the status of its `co_return`, or an exception. -/
inductive BodyEnd where
  | coReturn (status : Status)
  | throws (e : Exception)

/-- The status an RPC ends with, under the default `on_unhandled_exception`. -/
def BodyEnd.status (ndebug : Bool) : BodyEnd → Status
  | .coReturn status => status
  | .throws e => exceptionToStatus ndebug e

def BodyEnd.action (ndebug : Bool) : BodyEnd → Action R Req Resp
  | .coReturn status => .coReturn status
  | .throws e => .throws (exceptionToStatus ndebug e)

/-- The status a stream operation carries, and the message it sends along with it. -/
def StreamOp.status : StreamOp Resp → Option Status
  | .finish status | .finishWithResponse _ status | .finishWithError status => some status
  | _ => none

def StreamOp.response : StreamOp Resp → Option Resp
  | .finishWithResponse response _ => some response
  | _ => none

/-- The operations of a trace that end an RPC. -/
def finishes (trace : List (Event Resp)) : List (StreamOp Resp) :=
  trace.filterMap fun
    | .issue op => if op.status.isSome then some op else none
    | _ => none

/-- Objects that are neither a status nor a `grpc_exception`. -/
theorem exceptionToStatus_of_other {e : Exception} (hs : e.asStatus = none)
    (hg : e.asGrpcException = none) (ndebug : Bool) :
    (exceptionToStatus ndebug e).code = .internal := by
  cases he : e.asStdException <;> simp [exceptionToStatus, hs, hg, he]

theorem terminalOp_status (m : RpcMethodType) (response : Resp) (status : Status) :
    (terminalOp m response status).status = some status := by
  unfold terminalOp
  split
  · rfl
  · split <;> rfl

theorem terminalOp_response (m : RpcMethodType) (response : Resp) (status : Status) :
    (terminalOp m response status).response =
      if m.isServerStreaming = false ∧ status.ok then some response else none := by
  unfold terminalOp
  cases hm : m.isServerStreaming <;> cases hs : status.ok <;> simp [StreamOp.response]

theorem rejectOp_status (m : RpcMethodType) (status : Status) :
    (rejectOp m status : StreamOp Resp).status = some status := by
  unfold rejectOp
  split <;> rfl

@[simp] theorem finishes_append (u v : List (Event Resp)) :
    finishes (u ++ v) = finishes u ++ finishes v := by
  simp [finishes]

theorem finishes_rejectionWord (m : RpcMethodType) (status : Status) :
    finishes (rejectionWord m status : List (Event Resp)) = [rejectOp m status] := by
  simp [finishes, rejectionWord, rejectOp_status]

theorem finishes_endingWord (m : RpcMethodType) (response : Resp) (e : Ending) :
    finishes (endingWord m response e) = [terminalOp m response e.status] := by
  cases h : e.thrown <;> simp [finishes, endingWord, h, terminalOp_status]

theorem finishes_operationsWord (ops : List (Op Resp)) (oks : List Bool) :
    finishes (operationsWord ops oks) = [] := by
  induction ops generalizing oks with
  | nil => rfl
  | cons op ops ih =>
    have hop : op.streamOp.status = none := by cases op <;> rfl
    cases oks with
    | nil => simp [operationsWord, startWord_eq, finishes, hop]
    | cons ok oks =>
      rw [operationsWord, finishes_append, ih, List.append_nil]
      simp [startWord_eq, doneWord_eq, finishes, hop]

theorem finishes_flatMap {α : Type*} {word : α → List (Event Resp)} {op : α → StreamOp Resp}
    (h : ∀ x, finishes (word x) = [op x]) (xs : List α) :
    finishes (xs.flatMap word) = xs.map op := by
  induction xs with
  | nil => rfl
  | cons x xs ih => simp [h x, ih]

/-- A frame ends each rejected RPC with the status of its rejection, and the accepted one, once
its body has ended, with the status of the ending. -/
theorem finishes_word (m : RpcMethodType) (authenticating : Bool) (d : Decisions Resp) :
    finishes (d.word m authenticating) =
      d.rejected.map (rejectOp m) ++ d.ended.map fun e => terminalOp m d.response e.status := by
  have hopening : finishes (if d.accepted then [.hook .onAuthenticate, .hook .onStart]
      else if authenticating then [.hook .onAuthenticate] else [] : List (Event Resp)) = [] := by
    cases d.accepted <;> cases authenticating <;> rfl
  rw [Decisions.word, finishes_append, finishes_append, finishes_append, hopening,
    finishes_operationsWord, finishes_flatMap (finishes_rejectionWord m),
    finishes_flatMap (finishes_endingWord m d.response)]
  simp

theorem decisions_rejected [Inhabited Resp] (as : List (Action R Req Resp)) :
    ∀ status ∈ (decisions as).rejected, status.ok = false := by
  induction as using List.reverseRecOn with
  | nil => simp [decisions]
  | append_singleton as a ih =>
    rw [decisions_concat]
    cases a with
    | authenticate result =>
      cases hr : result.ok with
      | true => simpa [Decisions.next, hr] using ih
      | false =>
        intro status hs
        have hmem : status ∈ (decisions as).rejected ∨ status = result := by
          simpa [Decisions.next, hr] using hs
        rcases hmem with hmem | rfl
        · exact ih status hmem
        · exact hr
    | complete tag ok => cases tag <;> exact ih
    | _ => exact ih

/-- `FinishWithError` carries no OK status. -/
theorem finishWithError_not_ok {m : RpcMethodType} {d : Decisions Resp} {status : Status}
    (hrej : ∀ status ∈ d.rejected, status.ok = false)
    (h : .finishWithError status ∈
      d.rejected.map (rejectOp m) ++ d.ended.map fun e => terminalOp m d.response e.status) :
    status.ok = false := by
  rcases List.mem_append.mp h with h | h
  · obtain ⟨st, hst, heq⟩ := List.mem_map.mp h
    have hstatus : some st = some status :=
      (rejectOp_status m st).symm.trans (congrArg StreamOp.status heq)
    obtain rfl := Option.some.inj hstatus
    exact hrej st hst
  · obtain ⟨e, -, heq⟩ := List.mem_map.mp h
    have hstatus : some e.status = some status :=
      (terminalOp_status m d.response e.status).symm.trans (congrArg StreamOp.status heq)
    obtain rfl := Option.some.inj hstatus
    by_contra hok
    unfold terminalOp at heq
    split at heq
    · simp at heq
    · simp [hok] at heq

section
variable [DecidableEq R] [DecidableEq Resp] [Inhabited Req] [Inhabited Resp]

theorem finishes_of_run {m : RpcMethodType} {as : List (Action R Req Resp)}
    {s : Frame R Req Resp} (hr : run step (.init m) as = some s) : finishes s.trace =
      (decisions as).rejected.map (rejectOp m) ++
        (decisions as).ended.map fun e => terminalOp m (decisions as).response e.status := by
  rw [(traced_run hr).trace, finishes_word]

/-- However the run goes on after a body's end, one more Finish has been issued. -/
theorem finishes_of_end {m : RpcMethodType} {as post : List (Action R Req Resp)}
    {s s' : Frame R Req Resp} (hr : run step (.init m) as = some s) {ndebug : Bool}
    {e : BodyEnd} (hend : run step s (e.action ndebug :: post) = some s') :
    finishes s'.trace =
      finishes s.trace ++ [terminalOp m (decisions as).response (e.status ndebug)] := by
  obtain ⟨u, hu, hpost⟩ := run_cons_eq_some.mp hend
  have hru : run step (.init m) (as ++ [e.action ndebug]) = some u := by
    rw [run_append, hr]
    simp [hu]
  obtain ⟨he, hnext⟩ := stepOf_eq_some.mp hu
  have hbody : s.point = .body ∧ u.point = .final ∧ ∃ thrown,
      (decisions as).next (e.action ndebug : Action R Req Resp) = { decisions as with
        ended := (decisions as).ended ++ [⟨thrown, e.status ndebug⟩] } := by
    cases e with
    | coReturn status => exact ⟨he, hnext ▸ (finalSuspend_point _).1, false, rfl⟩
    | throws e => exact ⟨he, hnext ▸ (finalSuspend_point _).1, true, rfl⟩
  obtain ⟨hp, hfinal, thrown, hdec⟩ := hbody
  have hstage := (traced_run hr).stage
  rw [hp] at hstage
  rw [closed_run (accounted_run hru) (.inl hfinal) hpost, finishes_of_run hru, finishes_of_run hr,
    decisions_concat, hdec, hstage.2]
  simp

/-- The text an exception gets for a code with a name is its own, and is read back from it; that
for any other is `UNKNOWN`. -/
theorem idxOf_defaultString (c : StatusCode) :
    ((0 ≤ c.value ∧ c.value ≤ 16) → (defaultStrings.idxOf (defaultString c) : Int) = c.value) ∧
    (¬(0 ≤ c.value ∧ c.value ≤ 16) → defaultString c = "UNKNOWN") := by
  cases c with
  | other value h =>
    have hsize : toSize value > toSize StatusCode.unauthenticated.value := by
      simp only [toSize, StatusCode.value, StatusCode.ctorIdx]
      omega
    simp only [StatusCode.value]
    exact ⟨fun hc => by omega, fun _ => if_pos hsize⟩
  | _ => exact ⟨fun _ => by decide, fun h => absurd ⟨by decide, by decide⟩ h⟩

/-- A body that throws `grpc_exception(c)` ends its RPC with the code and its text. -/
theorem finish_of_code {m : RpcMethodType} {as post : List (Action R Req Resp)}
    {s s' : Frame R Req Resp} (hr : run step (.init m) as = some s) {ndebug : Bool}
    {c : StatusCode}
    (hend : run step s ((BodyEnd.throws (grpcExceptionOfCode c)).action ndebug :: post) = some s') :
    ∃ op, finishes s'.trace = finishes s.trace ++ [op] ∧
      op.status = some { code := c, message := defaultString c } :=
  ⟨_, finishes_of_end hr hend, terminalOp_status _ _ _⟩

/-- The outcome of an RPC, with the default translation of exceptions. At any time the Finish
operations of a frame are those of the RPCs rejected, each with the status of its rejection,
and at most one for the RPC accepted; `FinishWithError` never carries OK. However a body ends
and whatever happens afterwards, one Finish is issued for it: with the status returned, thrown
as a status or in a `grpc_exception`, or `INTERNAL` for anything else thrown, and with the
response as last left exactly if there is one and the status is OK. -/
theorem outcome_of_rpc {m : RpcMethodType} {as : List (Action R Req Resp)}
    {s : Frame R Req Resp} (hr : run step (.init m) as = some s) :
    (finishes s.trace = (decisions as).rejected.map (rejectOp m) ++
      (decisions as).ended.map fun e => terminalOp m (decisions as).response e.status) ∧
    (decisions as).ended.length ≤ 1 ∧
    (∀ status, (rejectOp m status : StreamOp Resp).status = some status) ∧
    (∀ status, .finishWithError status ∈ finishes s.trace → status.ok = false) ∧
    ∀ ndebug (e : BodyEnd) post s', run step s (e.action ndebug :: post) = some s' →
      ∃ op, finishes s'.trace = finishes s.trace ++ [op] ∧
        op = terminalOp m (decisions as).response (e.status ndebug) ∧
        op.status = some (e.status ndebug) ∧
        op.response = (if m.isServerStreaming = false ∧ (e.status ndebug).ok
          then some (decisions as).response else none) ∧
        (∀ status, e = .coReturn status ∨ e = .throws (.ofStatus status) ∨
          e = .throws (grpcException status) → e.status ndebug = status) ∧
        ∀ ex, e = .throws ex → ex.asStatus = none → ex.asGrpcException = none →
          (e.status ndebug).code = .internal := by
  have hfin := finishes_of_run hr
  refine ⟨hfin, (traced_run hr).stage.ended_le, rejectOp_status m, fun status h => ?_, ?_⟩
  · exact finishWithError_not_ok (decisions_rejected as) (hfin ▸ h)
  · intro ndebug e post s' hend
    refine ⟨_, finishes_of_end hr hend, rfl, terminalOp_status _ _ _, terminalOp_response _ _ _,
      fun status h => ?_, fun ex h hs hg => ?_⟩
    · rcases h with rfl | rfl | rfl <;> rfl
    · rw [h]
      exact exceptionToStatus_of_other hs hg ndebug

/-- A unary body sets its response and throws `grpc_exception` with an OK status. -/
def respondThrowOk : List (Action Nat Unit Nat) :=
  [.request (some (0, ())), .authenticate {}, .respond 5]

theorem respondThrowOk_outcome : ∃ s s' : Frame Nat Unit Nat,
    run step (.init .unary) respondThrowOk = some s ∧
    run step s [BodyEnd.action true (.throws (grpcException {})), .complete .final true] =
      some s' ∧
    finishes s'.trace = [.finishWithResponse 5 {}] := by
  have hr : run step (.init .unary : Frame Nat Unit Nat) respondThrowOk = some _ := rfl
  have hend : run step (.init .unary : Frame Nat Unit Nat) (respondThrowOk ++
      [BodyEnd.action true (.throws (grpcException {})), .complete .final true]) = some _ := rfl
  rw [run_append, hr, Option.bind_some] at hend
  obtain ⟨op, hfin, rfl, -⟩ := (outcome_of_rpc hr).2.2.2.2 _ _ _ _ hend
  exact ⟨_, _, hr, hend, hfin⟩

end
end AsyncppGrpc.Task
